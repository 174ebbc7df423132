import SchemaSearch.Proofs.Outcome
import SchemaSearch.Proofs.Schema.Discovery
import SchemaSearch.Proofs.Tables
import SchemaSearch.Search.Transform

/-!
# Paths behind a lead

A walk writes the lead of an entity by putting names together, and a path is resolved by taking its names
apart again.  The two agree where a name can be told from what stands behind it: names of relationships
are not empty, have no separator inside and no `_` at the end, and none comes twice in an entity.  The rest
of the path may be anything, and may lead nowhere.

Main statement: a path behind the lead of a nested entity leads where it leads from that entity, through
the hops of the lead first; so do the aliases and the boolean fields that a root takes over, which are all
that nested entities have (`resolve_behind_lead`).
-/

namespace SchemaSearch.Schema

/-! ## Names in a path -/

/-- Whether a name can be told from what stands behind it in a path. -/
structure IsPlainName (name : String) : Prop where
  nonempty : name.isEmpty = false
  inseparable : Text.contains name pathSeparator = false
  last : name.toList.getLast? ≠ some '_'

instance (name : String) : Decidable (IsPlainName name) :=
  decidable_of_iff (name.isEmpty = false ∧ Text.contains name pathSeparator = false
      ∧ name.toList.getLast? ≠ some '_')
    ⟨fun ⟨hnonempty, hinseparable, hlast⟩ => ⟨hnonempty, hinseparable, hlast⟩,
      fun h => ⟨h.nonempty, h.inseparable, h.last⟩⟩

/-- A character in front of which no separator starts belongs to the first name. -/
theorem segmentsOf_cons {c : Char} {rest : List Char} (h : ['_', '_'].isPrefixOf (c :: rest) = false) :
    segmentsOf (c :: rest) = Text.consFirst c (segmentsOf rest) := by
  have hpair : ∀ tail, c = '_' → rest = '_' :: tail → False := by
    rintro tail rfl rfl
    exact Bool.false_ne_true h.symm
  rw [segmentsOf.eq_3 c rest hpair]
  cases segmentsOf rest <;> rfl

/-- Without a separator in it, a text is one name. -/
theorem segmentsOf_single {cs : List Char} (h : Text.occurs ['_', '_'] cs = false) :
    segmentsOf cs = [cs] := by
  induction cs with
  | nil => rfl
  | cons c cs ih =>
    rw [Text.occurs, Bool.or_eq_false_iff] at h
    rw [segmentsOf_cons h.1, ih h.2]
    rfl

/-- A name ends at the separator behind it, unless it has one itself or flows into it. -/
theorem segmentsOf_append {cs : List Char} (h : Text.occurs ['_', '_'] cs = false)
    (hlast : cs.getLast? ≠ some '_') (rest : List Char) :
    segmentsOf (cs ++ '_' :: '_' :: rest) = cs :: segmentsOf rest := by
  induction cs with
  | nil => rfl
  | cons c cs ih =>
    rw [Text.occurs, Bool.or_eq_false_iff] at h
    obtain ⟨hfirst, hrest⟩ := h
    rw [List.cons_append]
    cases cs with
    | nil =>
      have hc : c ≠ '_' := by
        rintro rfl
        exact hlast rfl
      rw [segmentsOf_cons (by simp [List.isPrefixOf, hc.symm])]
      rfl
    | cons c' cs =>
      rw [List.getLast?_cons_cons] at hlast
      have hfirst' : ['_', '_'].isPrefixOf (c :: (c' :: cs ++ '_' :: '_' :: rest)) = false := hfirst
      rw [segmentsOf_cons hfirst', ih hrest hlast]
      rfl

theorem segments_ne_nil (path : String) : segments path ≠ [] := by
  intro h
  rw [segments, List.map_eq_nil_iff] at h
  revert h
  fun_cases segmentsOf path.toList <;> simp_all

theorem segments_single {name : String} (h : Text.contains name pathSeparator = false) :
    segments name = [name] := by
  rw [segments, segmentsOf_single h, List.map_singleton, String.ofList_toList]

/-- The names of a path behind a plain name. -/
theorem segments_join {name : String} (h : IsPlainName name) (path : String) :
    segments (Renames.join name path) = name :: segments path := by
  have hchars : (Renames.join name path).toList = name.toList ++ '_' :: '_' :: path.toList := by
    simp [Renames.join, pathSeparator]
  rw [segments, hchars, segmentsOf_append h.inseparable h.last, List.map_cons, String.ofList_toList]
  rfl

/-! ## Aliases that are set -/

theorem Renames.mem_insert {renames : Renames} {key path : String} {entry : String × String}
    (h : entry ∈ (renames.insert key path).entries) : entry ∈ renames.entries ∨ entry = (key, path) := by
  obtain ⟨entries⟩ := renames
  simp only [insert, Table.insert] at h
  induction entries with
  | nil => exact .inr (List.mem_singleton.mp h)
  | cons own rest ih =>
    rw [Table.upsert] at h
    split at h
    · rename_i hkey
      rcases List.mem_cons.mp h with rfl | h
      · exact .inr (by rw [hkey])
      · exact .inl (List.mem_cons_of_mem _ h)
    · rcases List.mem_cons.mp h with rfl | h
      · exact .inl List.mem_cons_self
      · exact (ih h).imp_left (List.mem_cons_of_mem _)

theorem Renames.mem_extend {renames other : Renames} {entry : String × String}
    (h : entry ∈ (renames.extend other).entries) : entry ∈ renames.entries ∨ entry ∈ other.entries := by
  obtain ⟨added⟩ := other
  unfold extend at h
  induction added generalizing renames with
  | nil => exact .inl h
  | cons first rest ih =>
    rw [List.foldl_cons] at h
    rcases ih h with h | h
    · rcases mem_insert h with h | rfl
      · exact .inl h
      · exact .inr List.mem_cons_self
    · exact .inr (List.mem_cons_of_mem _ h)

/-- A table has the aliases that it had and those that are set. -/
theorem Renames.mem_keys_extend {renames other : Renames} {key : String} :
    key ∈ Table.keys (renames.extend other).entries
      ↔ key ∈ Table.keys renames.entries ∨ key ∈ Table.keys other.entries := by
  obtain ⟨added⟩ := other
  unfold extend
  induction added generalizing renames with
  | nil => simp [Table.keys]
  | cons first rest ih =>
    have hfirst : key ∈ Table.keys (renames.insert first.1 first.2).entries
        ↔ key ∈ Table.keys renames.entries ∨ key = first.1 := Table.mem_keys_upsert
    have hadded : key ∈ Table.keys (first :: rest) ↔ key = first.1 ∨ key ∈ Table.keys rest := List.mem_cons
    rw [List.foldl_cons, ih, hfirst, hadded, or_assoc]

/-! ## Chains of hops -/

/-- A target that is seen from in front of some more hops. -/
def Target.behind (hops : List Hop) (t : Target) : Target := { t with hops := hops ++ t.hops }

namespace Registry

variable {r : Registry}

/-- The hops of edges that are followed one after another, from one entity to another. -/
inductive Chain (r : Registry) : Entity → List Hop → Entity → Prop
  /-- No hop. -/
  | nil {e : Entity} : Chain r e [] e
  /-- One hop more in front. -/
  | cons {e next last : Entity} {edge : Edge} {hops : List Hop} (hedge : r.Follows e edge next)
    (hrest : Chain r next hops last) : Chain r e (⟨e.name, edge⟩ :: hops) last

/-- One hop more at the end. -/
theorem Chain.snoc {e parent target : Entity} {hops : List Hop} {edge : Edge}
    (h : r.Chain e hops parent) (hedge : r.Follows parent edge target) :
    r.Chain e (hops ++ [⟨parent.name, edge⟩]) target := by
  induction h with
  | nil => exact .cons hedge .nil
  | cons hfirst _ ih => exact .cons hfirst (ih hedge)

/-- In every registered entity, relationships have plain names and none comes twice. -/
def NamesPlainly (r : Registry) : Prop :=
  ∀ name e, r.get? name = some e →
    (e.relationships.map (·.name)).Nodup ∧ ∀ edge ∈ e.relationships, IsPlainName edge.name

/-- An edge is found under its name. -/
theorem relationship?_of_mem {e : Entity} {edge : Edge}
    (hnodup : (e.relationships.map (·.name)).Nodup) (hmem : edge ∈ e.relationships) :
    e.relationship? edge.name = some edge := by
  unfold Entity.relationship?
  generalize e.relationships = edges at hnodup hmem
  induction edges with
  | nil => cases hmem
  | cons other rest ih =>
    obtain ⟨hfresh, hrest⟩ := List.nodup_cons.mp hnodup
    rcases List.mem_cons.mp hmem with rfl | hmem
    · simp
    · have hne : (other.name == edge.name) = false := by
        apply beq_false_of_ne
        intro hsame
        exact hfresh (List.mem_map.mpr ⟨edge, hmem, hsame.symm⟩)
      rw [List.find?_cons, hne]
      exact ih hrest hmem

/-- The names of a chain are followed along it, whatever comes behind them. -/
theorem follow_chain (hplain : r.NamesPlainly) {e last : Entity} {hops : List Hop}
    (h : r.Chain e hops last) {name : String} (he : r.get? name = some e) {names : List String}
    (hnames : names ≠ []) :
    r.follow e (hops.map (·.edge.name) ++ names) = (r.follow last names).map (Target.behind hops) := by
  induction h generalizing name with
  | nil =>
    show r.follow _ names = (r.follow _ names).map id
    rw [Option.map_id, id]
  | @cons e next last edge hops hedge _ ih =>
    obtain ⟨hmem, _, htarget⟩ := hedge
    obtain ⟨hnodup, hedges⟩ := hplain _ _ he
    -- there are names left behind the first, so it names a relationship
    obtain ⟨second, rest, hrest⟩ := List.exists_cons_of_ne_nil
      (List.append_ne_nil_of_right_ne_nil (hops.map (·.edge.name)) hnames)
    have hih := ih htarget
    rw [hrest] at hih
    rw [List.map_cons, List.cons_append, hrest, follow.eq_3 _ _ _ _ (List.cons_ne_nil second rest),
      (hedges edge hmem).nonempty, if_neg Bool.false_ne_true, relationship?_of_mem hnodup hmem]
    simp only [htarget, hih, Option.map_map]
    rfl

end Registry

/-! ## Leads of nested entities -/

namespace Found

/-- A path from an entity, as it is seen from the root of its walk. -/
def behindLead (f : Found) (path : String) : String :=
  if f.lead.isEmpty then path else Renames.join f.lead path

/-- An edge leaves an entity with its name behind the lead. -/
theorem leadOf_eq (parent : Found) (edge : Edge) : parent.leadOf edge = parent.behindLead edge.name := rfl

theorem join_behindLead (parent : Found) (name path : String) :
    Renames.join (parent.behindLead name) path = parent.behindLead (Renames.join name path) := by
  unfold behindLead
  split
  · rfl
  · simp only [Renames.join, String.append_assoc]

theorem behindLead_ne_empty (parent : Found) {name : String} (h : name.isEmpty = false) :
    (parent.behindLead name).isEmpty = false := by
  unfold behindLead
  split
  · exact h
  · simp [Renames.join, pathSeparator]

end Found

/-- Hops lead to an entity as its lead says: they are followed from the root of the walk, and a path behind
the lead has their names in front. -/
structure Registry.Spells (r : Registry) (root : Entity) (f : Found) (hops : List Hop) : Prop where
  chain : r.Chain root hops f.entity
  names : ∀ path, segments (f.behindLead path) = hops.map (·.edge.name) ++ segments path

namespace Registry

variable {r : Registry} {root : Entity}

theorem spells_root (root : Entity) : r.Spells root (Found.root root) [] := ⟨.nil, fun _ => rfl⟩

/-- A plain name behind a lead spells one hop more. -/
theorem Spells.step {parent : Found} {hops : List Hop} (h : r.Spells root parent hops) {edge : Edge}
    {target : Entity} (hedge : r.Follows parent.entity edge target) (hplain : IsPlainName edge.name) :
    r.Spells root ⟨edge.name, parent.leadOf edge, target⟩ (hops ++ [⟨parent.entity.name, edge⟩]) := by
  refine ⟨h.chain.snoc hedge, ?_⟩
  intro path
  have hnamed : Found.behindLead ⟨edge.name, parent.leadOf edge, target⟩ path
      = parent.behindLead (Renames.join edge.name path) := by
    rw [← Found.join_behindLead, Found.behindLead]
    simp only [Found.leadOf_eq, parent.behindLead_ne_empty hplain.nonempty, Bool.false_eq_true, if_false]
  rw [hnamed, h.names, segments_join hplain, List.map_append, List.append_assoc]
  rfl

/-- What is found for the first time comes with the lead of its edge. -/
theorem eq_of_mem_newlyFound {parent f : Found} :
    ∀ {edges : List Edge} {seen : List (String × String)}, f ∈ r.newlyFound parent seen edges →
      ∃ edge ∈ edges, edge.isTraversable = true ∧ r.get? edge.target = some f.entity
        ∧ f = ⟨edge.name, parent.leadOf edge, f.entity⟩
  | edge :: edges, seen, h => by
    rw [newlyFound] at h
    have hlater : ∀ seen', f ∈ r.newlyFound parent seen' edges →
        ∃ edge' ∈ edge :: edges, edge'.isTraversable = true ∧ r.get? edge'.target = some f.entity
          ∧ f = ⟨edge'.name, parent.leadOf edge', f.entity⟩ := by
      intro seen' hmem
      obtain ⟨other, hother, hfound⟩ := eq_of_mem_newlyFound hmem
      exact ⟨other, List.mem_cons_of_mem _ hother, hfound⟩
    split at h
    · rename_i hnew
      split at h
      · rename_i target htarget
        rcases List.mem_cons.mp h with rfl | h
        · exact ⟨edge, List.mem_cons_self, (Bool.and_eq_true_iff.mp hnew).1, htarget, rfl⟩
        · exact hlater _ h
      · exact hlater _ h
    · exact hlater _ h

/-- If all on the stack of a walk have a property that passes over every edge that is followed, then what
the walk finds is at the end of an edge that leaves something with the property. -/
theorem Walks.exists_of_step {P : Found → Prop}
    (hstep : ∀ parent edge target, P parent → r.Follows parent.entity edge target →
      P ⟨edge.name, parent.leadOf edge, target⟩)
    {stack found : List Found} {seen : List (String × String)} (h : r.Walks stack seen found)
    (hstack : ∀ f ∈ stack, P f) :
    ∀ f ∈ found, ∃ parent edge target, P parent ∧ r.Follows parent.entity edge target
      ∧ f = ⟨edge.name, parent.leadOf edge, target⟩ := by
  induction h with
  | done =>
    intro f hf
    cases hf
  | @pop parent stack found seen _ ih =>
    have hparent := hstack parent List.mem_cons_self
    have hnew : ∀ f ∈ r.newlyFound parent seen parent.entity.relationships, ∃ edge,
        r.Follows parent.entity edge f.entity ∧ f = ⟨edge.name, parent.leadOf edge, f.entity⟩ := by
      intro f hf
      obtain ⟨edge, hmem, htraversable, htarget, heq⟩ := eq_of_mem_newlyFound hf
      exact ⟨edge, ⟨hmem, htraversable, htarget⟩, heq⟩
    intro f hf
    rcases List.mem_append.mp hf with hf | hf
    · obtain ⟨edge, hedge, heq⟩ := hnew f hf
      exact ⟨parent, edge, f.entity, hparent, hedge, heq⟩
    · refine ih ?_ f hf
      intro g hg
      rcases List.mem_append.mp hg with hg | hg
      · obtain ⟨edge, hedge, heq⟩ := hnew g (List.mem_reverse.mp hg)
        rw [heq]
        exact hstep parent edge g.entity hparent hedge
      · exact hstack g (List.mem_cons_of_mem _ hg)

/-- The lead of a nested entity spells the hops to it. -/
theorem spells_nested {name : String} (hroot : r.get? name = some root) (hplain : r.NamesPlainly)
    {f : Found} (hf : f ∈ r.nested root) :
    ∃ hops, r.Spells root f hops ∧ hops ≠ [] ∧ f.lead.isEmpty = false
      ∧ r.get? f.entity.name = some f.entity := by
  -- the walk goes on from registered entities only, which is what makes the next name plain
  have hstep : ∀ parent edge target,
      ((∃ name, r.get? name = some parent.entity) ∧ ∃ hops, r.Spells root parent hops) →
        r.Follows parent.entity edge target →
          (∃ name, r.get? name = some target)
            ∧ ∃ hops, r.Spells root ⟨edge.name, parent.leadOf edge, target⟩ hops := by
    rintro parent edge target ⟨⟨name, hname⟩, hops, hspells⟩ hedge
    exact ⟨⟨_, hedge.2.2⟩, _, hspells.step hedge ((hplain _ _ hname).2 edge hedge.1)⟩
  have hstack : ∀ f ∈ [Found.root root],
      (∃ name, r.get? name = some f.entity) ∧ ∃ hops, r.Spells root f hops := by
    intro g hg
    rw [List.mem_singleton.mp hg]
    exact ⟨⟨name, hroot⟩, [], spells_root root⟩
  obtain ⟨parent, edge, target, ⟨⟨pname, hparent⟩, hops, hspells⟩, hedge, rfl⟩ :=
    (walks_nested hroot).exists_of_step
      (P := fun f => (∃ name, r.get? name = some f.entity) ∧ ∃ hops, r.Spells root f hops)
      hstep hstack f hf
  have hname := (hplain _ _ hparent).2 edge hedge.1
  refine ⟨_, hspells.step hedge hname, ?_, parent.behindLead_ne_empty hname.nonempty, ?_⟩
  · simp
  · show r.get? target.name = some target
    rw [name_of_get? hedge.2.2]
    exact hedge.2.2

/-! ## Resolved paths -/

/-- A path of a registered entity leads where its names lead. -/
theorem toOption_resolve {name : String} (hroot : r.get? name = some root) (path : String) :
    (r.resolve name path).toOption = r.follow root (segments path) := by
  rw [resolve, hroot]
  dsimp only
  cases r.follow root (segments path) <;> rfl

theorem resolve_eq_ok {name path : String} {t : Target}
    (h : (r.resolve name path).toOption = some t) : r.resolve name path = .ok t := by
  cases hresolve : r.resolve name path with
  | error error =>
    rw [hresolve] at h
    cases h
  | ok target =>
    rw [hresolve] at h
    cases h
    rfl

/-- A path behind the lead of a nested entity leads where it leads from there, behind the hops. -/
theorem toOption_resolve_join {name : String} (hroot : r.get? name = some root)
    (hplain : r.NamesPlainly) {f : Found} (hf : f ∈ r.nested root) {hops : List Hop}
    (hspells : r.Spells root f hops) (path : String) :
    (r.resolve name (Renames.join f.lead path)).toOption
      = (r.resolve f.entity.name path).toOption.map (Target.behind hops) := by
  obtain ⟨_, _, _, hlead, hentity⟩ := spells_nested hroot hplain hf
  have hjoin : f.behindLead path = Renames.join f.lead path := by
    rw [Found.behindLead, hlead, if_neg Bool.false_ne_true]
  rw [toOption_resolve hroot, toOption_resolve hentity, ← hjoin, hspells.names,
    follow_chain hplain hspells.chain hroot (segments_ne_nil path)]

/-- The name of a field leads to its column. -/
theorem resolve_field {e : Entity} {name field : String} (he : r.get? name = some e)
    (hfield : field ∈ e.fields.map (·.name)) (hname : field.isEmpty = false)
    (hinseparable : Text.contains field pathSeparator = false) :
    r.resolve name field = .ok ⟨[], e.name, field, e.kindOf field⟩ := by
  obtain ⟨own, hown⟩ : ∃ own, e.field? field = some own := by
    obtain ⟨some, hmem, hsome⟩ := List.mem_map.mp hfield
    have hfound : (e.fields.find? (·.name == field)).isSome := by
      rw [List.find?_isSome]
      exact ⟨some, hmem, beq_iff_eq.mpr hsome⟩
    exact Option.isSome_iff_exists.mp hfound
  obtain rfl : own.name = field := by simpa using List.find?_some hown
  apply resolve_eq_ok
  rw [toOption_resolve he, segments_single hinseparable, follow, hname, if_neg Bool.false_ne_true,
    Entity.column?, Entity.kindOf, hown]
  rfl

/-! ## What a root takes over -/

/-- The aliases of everything a root reaches, behind their leads, in the order of discovery. -/
def nestedAliases (r : Registry) (root : Entity) : List (String × String) :=
  (r.nested root).flatMap fun f => (f.entity.renames.prefixed f.lead).entries

theorem mem_nestedAliases {entry : String × String} :
    entry ∈ r.nestedAliases root ↔ ∃ f ∈ r.nested root, ∃ own ∈ f.entity.renames.entries,
      entry = (Renames.join f.lead own.1, Renames.join f.lead own.2) := by
  simp only [nestedAliases, Renames.prefixed, List.mem_flatMap, List.mem_map, eq_comm]

/-- Merging sets all declared aliases, those of the root first. -/
theorem mergedRenames_eq_extend :
    r.mergedRenames root = root.renames.extend ⟨r.nestedAliases root⟩ := by
  simp only [mergedRenames, mergeRenames, nestedAliases, Renames.extend, List.foldl_flatMap]

/-- A merged table has the aliases of the root and those of all nested entities, behind their leads. -/
theorem mem_keys_mergedRenames {key : String} :
    key ∈ Table.keys (r.mergedRenames root).entries ↔ key ∈ Table.keys root.renames.entries
      ∨ ∃ f ∈ r.nested root, ∃ own ∈ f.entity.renames.entries, key = Renames.join f.lead own.1 := by
  have hnested : key ∈ Table.keys (r.nestedAliases root)
      ↔ ∃ f ∈ r.nested root, ∃ own ∈ f.entity.renames.entries, key = Renames.join f.lead own.1 := by
    rw [Table.keys, List.mem_map]
    constructor
    · rintro ⟨entry, hentry, rfl⟩
      obtain ⟨f, hf, own, hown, rfl⟩ := mem_nestedAliases.mp hentry
      exact ⟨f, hf, own, hown, rfl⟩
    · rintro ⟨f, hf, own, hown, rfl⟩
      exact ⟨_, mem_nestedAliases.mpr ⟨f, hf, own, hown, rfl⟩, rfl⟩
  rw [mergedRenames_eq_extend, Renames.mem_keys_extend, hnested]

theorem mem_booleanPaths {root : Entity} {name : String} :
    name ∈ r.booleanPaths root ↔ name ∈ root.booleanFields
      ∨ ∃ f ∈ r.nested root, ∃ field ∈ f.entity.booleanFields, name = Renames.join f.lead field := by
  simp only [booleanPaths, List.mem_append, List.mem_flatMap, List.mem_map, eq_comm]

/-- The aliases of a root are merged, and every one of them leads somewhere. -/
theorem renames_eq_ok {name : String} {renames : Renames} (h : r.renames name = .ok renames) :
    ∃ root, r.get? name = some root ∧ renames = r.mergedRenames root
      ∧ ∀ entry ∈ renames.entries, ∃ target, r.resolve name entry.2 = .ok target := by
  obtain ⟨root, hroot, h⟩ := bind_eq_ok h
  have hget : r.get? name = some root := by
    unfold entity at hroot
    split at hroot
    · rename_i hfound
      cases hroot
      exact hfound
    · cases hroot
  dsimp only at h
  split at h
  · cases h
  · rename_i hnone
    cases h
    refine ⟨root, hget, rfl, ?_⟩
    intro entry hentry
    have hleads := List.find?_eq_none.mp hnone entry hentry
    cases hresolve : r.resolve name entry.2 with
    | ok target => exact ⟨target, rfl⟩
    | error error =>
      rw [hresolve] at hleads
      exact absurd rfl hleads

/-- Walks and paths agree.  The hops to a nested entity are a chain from the root; a path behind its lead
leads where it leads from the entity, behind these hops, or both lead nowhere.  So a field of a nested
entity is that entity's own column behind its lead; and the boolean fields and the aliases of a root are its
own and those of all nested entities behind their leads, the aliases for columns that the entities see. -/
theorem resolve_behind_lead {r : Registry} {name : String} {root : Entity} (hroot : r.get? name = some root)
    (hplain : r.NamesPlainly) :
    ∃ hops : Found → List Hop,
      (∀ f ∈ r.nested root, r.Chain root (hops f) f.entity
        ∧ (∀ path, (r.resolve name (Renames.join f.lead path)).toOption
          = (r.resolve f.entity.name path).toOption.map (Target.behind (hops f)))
        ∧ ∀ field ∈ f.entity.fields.map (·.name), field.isEmpty = false →
          Text.contains field pathSeparator = false →
          r.resolve name (Renames.join f.lead field)
            = .ok ⟨hops f, f.entity.name, field, f.entity.kindOf field⟩)
      ∧ ∀ t, Transformer.ofRoot r name = .ok t →
        (∀ path, path ∈ t.booleans ↔ path ∈ root.booleanFields
          ∨ ∃ f ∈ r.nested root, ∃ field ∈ f.entity.booleanFields, path = Renames.join f.lead field)
        ∧ (∀ key, key ∈ Table.keys t.renames.entries ↔ key ∈ Table.keys root.renames.entries
          ∨ ∃ f ∈ r.nested root, ∃ own ∈ f.entity.renames.entries, key = Renames.join f.lead own.1)
        ∧ ∀ entry ∈ t.renames.entries, entry ∈ root.renames.entries
          ∨ ∃ f ∈ r.nested root, ∃ own ∈ f.entity.renames.entries, ∃ target,
            entry = (Renames.join f.lead own.1, Renames.join f.lead own.2)
            ∧ r.resolve f.entity.name own.2 = .ok target
            ∧ r.resolve name entry.2 = .ok (target.behind (hops f)) := by
  -- one choice of hops for each nested entity, for all that is said of it
  have hspelled : ∀ f, ∃ hops, f ∈ r.nested root → r.Spells root f hops := by
    intro f
    by_cases hf : f ∈ r.nested root
    · obtain ⟨hops, hspells, _⟩ := spells_nested hroot hplain hf
      exact ⟨hops, fun _ => hspells⟩
    · exact ⟨[], fun hmem => absurd hmem hf⟩
  obtain ⟨hops, hspells⟩ := Classical.skolem.mp hspelled
  have hjoin := fun f (hf : f ∈ r.nested root) => toOption_resolve_join hroot hplain hf (hspells f hf)
  refine ⟨hops, ?_, ?_⟩
  · intro f hf
    obtain ⟨_, _, _, _, hentity⟩ := spells_nested hroot hplain hf
    refine ⟨(hspells f hf).chain, hjoin f hf, ?_⟩
    intro field hfield hnonempty hinseparable
    apply resolve_eq_ok
    rw [hjoin f hf, resolve_field hentity hfield hnonempty hinseparable]
    simp [Except.toOption, Target.behind]
  · intro t ht
    obtain ⟨e, he, ht⟩ := bind_eq_ok ht
    obtain ⟨renames, hrenames, ht⟩ := bind_eq_ok ht
    obtain ⟨root', hroot', hmerged, hleads⟩ := renames_eq_ok hrenames
    cases hroot.symm.trans hroot'
    have hsame : e = root := by
      rw [entity, hroot] at he
      exact (Except.ok.inj he).symm
    subst hsame
    cases ht
    refine ⟨fun path => mem_booleanPaths, fun key => ?_, ?_⟩
    · rw [hmerged]
      exact mem_keys_mergedRenames
    intro entry hentry
    obtain ⟨target, htarget⟩ := hleads entry hentry
    rw [hmerged, mergedRenames_eq_extend] at hentry
    rcases Renames.mem_extend hentry with hown | hnested
    · exact .inl hown
    · obtain ⟨f, hf, own, hown, rfl⟩ := mem_nestedAliases.mp hnested
      have hfar := hjoin f hf own.2
      rw [htarget] at hfar
      obtain ⟨near, hnear, rfl⟩ := Option.map_eq_some_iff.mp hfar.symm
      exact .inr ⟨f, hf, own, hown, near, rfl, resolve_eq_ok hnear, htarget⟩

/-- A question that an answer of a question is canonical for: behind its lead any path leads where it leads
from a question, three hops away for a topic. -/
theorem resolve_behind_lead_sample :
    Service.registry.NamesPlainly
      ∧ ∃ f ∈ Service.registry.nested Service.questions.entity, f.lead = "answers__canonical_for"
        ∧ ∃ hops, Service.registry.Chain Service.questions.entity hops Service.questions.entity
          ∧ ∀ path, (Service.registry.resolve "questions" (Renames.join f.lead path)).toOption
            = (Service.registry.resolve "questions" path).toOption.map (Target.behind hops) := by
  have hplain : Service.registry.NamesPlainly := by
    have hall : ∀ e ∈ Service.registry.entities, (e.relationships.map (·.name)).Nodup
        ∧ ∀ edge ∈ e.relationships, IsPlainName edge.name := by decide
    intro name e he
    exact hall e (mem_of_get? he)
  obtain ⟨hops, hnested, _⟩ :=
    @resolve_behind_lead Service.registry "questions" _ rfl hplain
  have hf : ⟨"canonical_for", "answers__canonical_for", Service.questions.entity⟩
      ∈ Service.registry.nested Service.questions.entity := by decide
  obtain ⟨hchain, hpaths, _⟩ := hnested _ hf
  exact ⟨hplain, _, hf, rfl, _, hchain, hpaths⟩

end Registry

end SchemaSearch.Schema
