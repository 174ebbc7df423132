import SchemaSearch.Proofs.Schema.Paths
import SchemaSearch.Proofs.Tables

/-!
# Merged aliases

The aliases of a root are set one after another: its own, then those of everything it reaches, behind
their leads, in the order of discovery.  An alias that is set again changes its path, so of several
declarations of one alias the last counts.

Main statement: in a registry that builds, the merged aliases of a root are the declared ones, each once,
with the path of its last declaration, and all of them lead to a field (`merged_last_declared`).  So every
alias keeps its path where none is declared for two paths, in particular where aliases and the names of
relationships can be told apart in a path.  An alias with a separator in it may be overwritten, the root's
own as well as one of a nested entity (`not_keepsAliases`).
-/

namespace SchemaSearch

namespace Schema

/-! ## Aliases that are set one after another -/

namespace Renames

variable {renames : Renames}

theorem nodup_keys_extend (h : (Table.keys renames.entries).Nodup) (other : Renames) :
    (Table.keys (renames.extend other).entries).Nodup := by
  obtain ⟨added⟩ := other
  unfold extend
  induction added generalizing renames with
  | nil => exact h
  | cons first rest ih => exact ih (Table.nodup_keys_upsert h _ _ _)

/-- No table that is set entry by entry has an alias twice. -/
theorem nodup_keys_ofPairs (pairs : List (String × String)) :
    (Table.keys (ofPairs pairs).entries).Nodup := @nodup_keys_extend empty List.nodup_nil _

/-- Of all paths that are set for an alias, the last one counts. -/
theorem get?_extend (key : String) (other : Renames) :
    (renames.extend other).get? key = (Table.find? key other.entries.reverse).or (renames.get? key) := by
  obtain ⟨added⟩ := other
  unfold extend
  induction added generalizing renames with
  | nil => rfl
  | cons first rest ih =>
    obtain ⟨k, path⟩ := first
    rw [List.foldl_cons, ih, List.reverse_cons, Table.find?_append, Option.or_assoc]
    by_cases hk : k = key
    · simp [Table.find?, hk]
    · simp [Table.find?, hk, get?_insert_of_ne (Ne.symm hk)]

end Renames

namespace Registry

variable {r : Registry} {root : Entity}

/-! ## What a root declares -/

/-- All aliases that a root has to offer, in the order in which they are set. -/
def declared (r : Registry) (root : Entity) : List (String × String) :=
  root.renames.entries ++ r.nestedAliases root

/-- Whether no alias of a root is declared for two paths. -/
def DeclaresOnce (r : Registry) (root : Entity) : Prop :=
  ∀ key path path', (key, path) ∈ r.declared root → (key, path') ∈ r.declared root → path = path'

/-- The last declaration of an alias counts. -/
theorem get?_mergedRenames (hown : (Table.keys root.renames.entries).Nodup) (key : String) :
    (r.mergedRenames root).get? key = Table.find? key (r.declared root).reverse := by
  rw [mergedRenames_eq_extend, Renames.get?_extend, declared, List.reverse_append, Table.find?_append,
    Table.find?_reverse hown]
  rfl

/-- All declared aliases keep their paths exactly if none is declared for two. -/
theorem keeps_iff_declaresOnce {merged : Renames}
    (hmerged : ∀ key, merged.get? key = Table.find? key (r.declared root).reverse) :
    (∀ entry ∈ r.declared root, merged.get? entry.1 = some entry.2) ↔ r.DeclaresOnce root := by
  constructor
  · intro hkeeps key path path' hpath hpath'
    have hsame : some path = some path' := (hkeeps _ hpath).symm.trans (hkeeps _ hpath')
    exact Option.some.inj hsame
  · rintro honce ⟨key, path⟩ hentry
    have hkey : key ∈ Table.keys (r.declared root).reverse := by
      apply Table.mem_keys_of_mem
      exact List.mem_reverse.mpr hentry
    obtain ⟨path', hfound⟩ := Table.exists_find?_of_mem hkey
    have hlast : (key, path') ∈ r.declared root := List.mem_reverse.mp (Table.mem_of_find? hfound)
    rw [hmerged, hfound, honce key path' path hlast hentry]

/-! ## Aliases that are told apart by their names -/

/-- In every registered entity, aliases have no separator in them and none comes twice. -/
def AliasesPlainly (r : Registry) : Prop :=
  ∀ name e, r.get? name = some e → (Table.keys e.renames.entries).Nodup
    ∧ ∀ key ∈ Table.keys e.renames.entries, Text.contains key pathSeparator = false

/-- The names of a chain lead to one entity. -/
theorem Chain.target_unique (hplain : r.NamesPlainly) {e last last' : Entity} {hops hops' : List Hop}
    {name : String} (he : r.get? name = some e) (h : r.Chain e hops last) (h' : r.Chain e hops' last')
    (hnames : hops.map (·.edge.name) = hops'.map (·.edge.name)) : last = last' := by
  induction h generalizing name hops' with
  | nil =>
    cases h' with
    | nil => rfl
    | cons => cases hnames
  | @cons e next last edge hops hedge _ ih =>
    cases h' with
    | nil => cases hnames
    | @cons _ next' _ edge' hops' hedge' hrest' =>
      rw [List.map_cons, List.map_cons, List.cons.injEq] at hnames
      have hedges := (hplain _ _ he).1
      -- no name comes twice, so both chains take the same edge
      have hsame : some edge = some edge' := by
        rw [← relationship?_of_mem hedges hedge.1, ← relationship?_of_mem hedges hedge'.1]
        exact congrArg e.relationship? hnames.1
      cases hsame
      have hnext : some next = some next' := hedge.2.2.symm.trans hedge'.2.2
      cases hnext
      exact ih hedge.2.2 hrest' hnames.2

/-- An alias that a root has from a nested entity: the hops to that entity, and the alias as it stands
there. -/
structure Inherits (r : Registry) (root : Entity) (f : Found) (hops : List Hop)
    (own entry : String × String) : Prop where
  registered : r.get? f.entity.name = some f.entity
  chain : r.Chain root hops f.entity
  nonempty : hops ≠ []
  mem : own ∈ f.entity.renames.entries
  key : entry.1 = Renames.join f.lead own.1
  path : entry.2 = Renames.join f.lead own.2
  /-- The alias is the last of its names. -/
  names : segments entry.1 = hops.map (·.edge.name) ++ [own.1]

theorem inherits_of_mem {name : String} (hroot : r.get? name = some root) (hplain : r.NamesPlainly)
    (haliases : r.AliasesPlainly) {entry : String × String} (h : entry ∈ r.nestedAliases root) :
    ∃ f hops own, r.Inherits root f hops own entry := by
  obtain ⟨f, hf, own, hown, rfl⟩ := mem_nestedAliases.mp h
  obtain ⟨hops, hspells, hnonempty, hlead, hentity⟩ := spells_nested hroot hplain hf
  refine ⟨f, hops, own, hentity, hspells.chain, hnonempty, hown, rfl, rfl, ?_⟩
  have hnames := hspells.names own.1
  rw [Found.behindLead, hlead, if_neg Bool.false_ne_true] at hnames
  rw [hnames, segments_single ((haliases _ _ hentity).2 _ (Table.mem_keys_of_mem hown))]

/-- An alias from a nested entity has more than one name. -/
theorem Inherits.ne_single {f : Found} {hops : List Hop} {own entry : String × String}
    (h : r.Inherits root f hops own entry) (name : String) : segments entry.1 ≠ [name] := by
  obtain ⟨first, rest, rfl⟩ := List.exists_cons_of_ne_nil h.nonempty
  rw [h.names]
  intro hsingle
  simp at hsingle

/-- An alias is inherited for one path only. -/
theorem Inherits.path_unique {name : String} (hroot : r.get? name = some root) (hplain : r.NamesPlainly)
    (haliases : r.AliasesPlainly) {f g : Found} {hops hops' : List Hop} {own own' : String × String}
    {key path path' : String} (h : r.Inherits root f hops own (key, path))
    (h' : r.Inherits root g hops' own' (key, path')) : path = path' := by
  obtain ⟨hnames, hlast⟩ := List.append_inj' (h.names.symm.trans h'.names) rfl
  have hentity := h.chain.target_unique hplain hroot h'.chain hnames
  have hkey : own.1 = own'.1 := List.singleton_inj.mp hlast
  have hpath : own.2 = own'.2 := by
    have hmem := h.mem
    rw [← Prod.eta own, hkey, hentity] at hmem
    apply Table.value_unique _ hmem h'.mem
    exact (haliases _ _ h'.registered).1
  have hlead : f.lead = g.lead := by
    have hjoin := h.key.symm.trans h'.key
    rw [hkey] at hjoin
    simpa [Renames.join] using hjoin
  calc path = Renames.join f.lead own.2 := h.path
    _ = Renames.join g.lead own'.2 := by rw [hlead, hpath]
    _ = path' := h'.path.symm

/-- Plain names make a declaration known by its alias. -/
theorem declaresOnce_of_plain {name : String} (hroot : r.get? name = some root) (hplain : r.NamesPlainly)
    (haliases : r.AliasesPlainly) : r.DeclaresOnce root := by
  obtain ⟨hnodup, hinseparable⟩ := haliases _ _ hroot
  -- an own alias is one name, an inherited one has the names of its hops in front
  have happart : ∀ key path path', (key, path) ∈ root.renames.entries →
      (key, path') ∉ r.nestedAliases root := by
    intro key path path' hown hnested
    obtain ⟨f, hops, own, hinherits⟩ := inherits_of_mem hroot hplain haliases hnested
    apply hinherits.ne_single key
    exact segments_single (hinseparable key (Table.mem_keys_of_mem hown))
  intro key path path' hpath hpath'
  rcases List.mem_append.mp hpath with hown | hnested
  · rcases List.mem_append.mp hpath' with hown' | hnested'
    · exact Table.value_unique hnodup hown hown'
    · exact absurd hnested' (happart key path path' hown)
  · rcases List.mem_append.mp hpath' with hown' | hnested'
    · exact absurd hnested (happart key path' path hown')
    · obtain ⟨f, hops, own, hinherits⟩ := inherits_of_mem hroot hplain haliases hnested
      obtain ⟨g, hops', own', hinherits'⟩ := inherits_of_mem hroot hplain haliases hnested'
      exact hinherits.path_unique hroot hplain haliases hinherits'

/-! ## Registries that build -/

theorem check_eq_ok_iff {names : List String} :
    r.check names = .ok () ↔ ∀ name ∈ names, (r.renames name).isOk = true := by
  induction names with
  | nil => simp [check]
  | cons name names ih =>
    rw [check]
    cases hrenames : r.renames name with
    | ok merged => simp [ih, hrenames, isOk_iff]
    | error error => simp [hrenames, isOk_iff]

/-- A registry builds if all its roots can be searched. -/
theorem build_eq_ok_iff {entities : List Entity} :
    build entities = .ok r ↔ ofEntities entities = r ∧ ∀ e ∈ entities, (r.renames e.name).isOk = true := by
  have hchecked : (ofEntities entities).check (ofEntities entities).sortedNames = .ok ()
      ↔ ∀ e ∈ entities, ((ofEntities entities).renames e.name).isOk = true := by
    rw [check_eq_ok_iff]
    simp [sortedNames, ofEntities, List.mem_mergeSort]
  constructor
  · intro h
    obtain ⟨_, hcheck, rfl⟩ := map_eq_ok h
    exact ⟨rfl, hchecked.mp hcheck⟩
  · rintro ⟨rfl, h⟩
    rw [build, hchecked.mpr h]
    rfl

/-- The aliases of every root of a registry that builds are merged. -/
theorem renames_of_build {entities : List Entity} {name : String} (h : build entities = .ok r)
    (hroot : r.get? name = some root) : r.renames name = .ok (r.mergedRenames root) := by
  obtain ⟨rfl, hall⟩ := build_eq_ok_iff.mp h
  have hmem : root ∈ entities := List.mem_reverse.mp (mem_of_get? hroot)
  obtain ⟨merged, hmerged⟩ := isOk_iff.mp (hall root hmem)
  rw [name_of_get? hroot] at hmerged
  obtain ⟨root', hroot', rfl, _⟩ := renames_eq_ok hmerged
  cases hroot.symm.trans hroot'
  exact hmerged

/-- In a registry that builds, the merged aliases of a root are exactly the declared ones, none twice, and
each has the path of its last declaration, which leads to a field.  So all of them keep their paths exactly
if none is declared for two, and none is where aliases and the names of relationships are plain. -/
theorem merged_last_declared {entities : List Entity} {name : String} (hbuild : build entities = .ok r)
    (hroot : r.get? name = some root) (hown : (Table.keys root.renames.entries).Nodup) :
    ∃ merged, r.renames name = .ok merged ∧ (Table.keys merged.entries).Nodup
      ∧ (∀ entry ∈ merged.entries, ∃ target, r.resolve name entry.2 = .ok target)
      ∧ (∀ key, key ∈ Table.keys merged.entries ↔ key ∈ Table.keys (r.declared root))
      ∧ (∀ key, merged.get? key = Table.find? key (r.declared root).reverse)
      ∧ ((∀ entry ∈ r.declared root, merged.get? entry.1 = some entry.2) ↔ r.DeclaresOnce root)
      ∧ (r.NamesPlainly → r.AliasesPlainly → r.DeclaresOnce root) := by
  have hrenames := renames_of_build hbuild hroot
  obtain ⟨_, _, _, hleads⟩ := renames_eq_ok hrenames
  have hlast := get?_mergedRenames hown (r := r)
  refine ⟨r.mergedRenames root, hrenames, ?_, hleads, ?_, hlast, keeps_iff_declaresOnce hlast, ?_⟩
  · rw [mergedRenames_eq_extend]
    exact Renames.nodup_keys_extend hown _
  · intro key
    have hreverse : key ∈ Table.keys (r.declared root).reverse ↔ key ∈ Table.keys (r.declared root) := by
      rw [Table.keys_reverse, List.mem_reverse]
    rw [← hreverse, Table.mem_keys_iff, Table.mem_keys_iff, ← hlast key]
    rfl
  · intro hplain haliases
    exact declaresOnce_of_plain hroot hplain haliases

/-- Questions take over the aliases of their answers, and keep their own. -/
theorem merged_last_declared_sample :
    build (Service.resources.map Service.Resource.entity) = .ok Service.registry
      ∧ ∃ merged, Service.registry.renames "questions" = .ok merged
        ∧ merged.get? "topic" = some "topics__title"
        ∧ merged.get? "answers__tag" = some "answers__tags__title" := by
  have hbuild : build (Service.resources.map Service.Resource.entity) = .ok Service.registry := by
    apply build_eq_ok_iff.mpr
    exact ⟨rfl, by decide⟩
  have hroot : Service.registry.get? "questions" = some Service.questions.entity := rfl
  obtain ⟨merged, hmerged, _, _, _, hlast, _⟩ := merged_last_declared hbuild hroot (Renames.nodup_keys_ofPairs _)
  refine ⟨hbuild, merged, hmerged, ?_, ?_⟩
  · rw [hlast]
    decide
  · rw [hlast]
    decide

/-! ## Aliases that are overwritten -/

/-- Whether the merged aliases of every root keep what is declared for it in one way. -/
def KeepsAliases (declaredFor : Registry → Entity → List (String × String)) : Prop :=
  ∀ entities r name root merged, build entities = .ok r → r.get? name = some root →
    r.renames name = .ok merged → ∀ entry ∈ declaredFor r root, merged.get? entry.1 = some entry.2

/-- Pages of a book, with an alias for their heading. -/
def pages : Entity :=
  ⟨"pages", [⟨"heading", .text⟩, ⟨"book_id", .uuid⟩], [], .ofPairs [("name", "heading")]⟩

/-- Books, with an alias that looks like one of their pages. -/
def books : Entity :=
  ⟨"books", [⟨"book_id", .uuid⟩, ⟨"title", .text⟩, ⟨"shelf_id", .uuid⟩],
    [.reverseMany "pages" "pages" "book_id" "book_id"], .ofPairs [("pages__name", "title")]⟩

/-- Shelves, which reach the books and their pages. -/
def shelves : Entity :=
  ⟨"shelves", [⟨"shelf_id", .uuid⟩], [.reverseMany "books" "books" "shelf_id" "shelf_id"], .empty⟩

/-- An alias with a separator in it may be overwritten by that of a nested entity: the root's own, and one
of another nested entity. -/
theorem not_keepsAliases :
    ¬ KeepsAliases (fun _ root => root.renames.entries) ∧ ¬ KeepsAliases nestedAliases := by
  have hbuild : build [pages, books, shelves] = .ok (ofEntities [pages, books, shelves]) := by
    apply build_eq_ok_iff.mpr
    exact ⟨rfl, by decide⟩
  constructor
  · intro hkeeps
    have hkept := hkeeps _ _ "books" books _ hbuild rfl (renames_of_build hbuild rfl)
      ("pages__name", "title") (by decide)
    revert hkept
    decide
  · intro hkeeps
    have hkept := hkeeps _ _ "shelves" shelves _ hbuild rfl (renames_of_build hbuild rfl)
      ("books__pages__name", "books__title") (by decide)
    revert hkept
    decide

end Registry

end Schema

end SchemaSearch
