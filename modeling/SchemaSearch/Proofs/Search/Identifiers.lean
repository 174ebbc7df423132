import SchemaSearch.Proofs.Query.Writing

/-!
# The names in a query

The names that a prepared query is written with come from the schema: a path is looked up name by name, and what
is found there is written, never what was looked up.  Sort keys add aliases of their own.

Main statement: the query of a prepared search is written with names that the registry declares and aliases of
sort keys (`Prepared.exists_written`).
-/

namespace SchemaSearch

open Query Schema

/-- The names of tables and columns that a relationship declares. -/
def Schema.Edge.names (edge : Edge) : List String :=
  [edge.target, edge.localColumn, edge.remoteColumn]
    ++ edge.junction.elim [] fun junction => [junction.table, junction.ownerColumn, junction.targetColumn]

/-- Whether a name is that of a table or a column of the registry: an entity's, a field's, or one that a
relationship declares. -/
def Schema.Registry.Declares (r : Registry) (name : String) : Prop :=
  ∃ table e, r.get? table = some e
    ∧ (name = e.name ∨ name ∈ e.fields.map (·.name) ∨ ∃ edge ∈ e.relationships, name ∈ edge.names)

/-- Whether a name is an alias in a sort key. -/
def SortOrder.IsAlias (name : String) : Prop := ∃ depth, name = hopAlias depth ∨ name = linkAlias depth

/-- Whether a name may stand in a query. -/
def Schema.Registry.Allows (r : Registry) (name : String) : Prop := r.Declares name ∨ SortOrder.IsAlias name

namespace Schema

variable {r : Registry} {t : Target} {name table : String}

theorem Registry.declares_table {e : Entity} (he : r.get? table = some e) : r.Declares table :=
  ⟨table, e, he, .inl (name_of_get? he).symm⟩

/-- What a hop of a declared path goes through is declared. -/
theorem Target.IsDeclared.declares_edge (ht : t.IsDeclared r) {hop : Hop} (hhop : hop ∈ t.hops)
    (hname : name ∈ hop.edge.names) : r.Declares name := by
  obtain ⟨e, next, he, hedge, _⟩ := ht.hops hop hhop
  exact ⟨hop.owner, e, he, .inr (.inr ⟨hop.edge, hedge, hname⟩)⟩

theorem Target.IsDeclared.declares_owner (ht : t.IsDeclared r) {hop : Hop} (hhop : hop ∈ t.hops) :
    r.Declares hop.owner := by
  obtain ⟨e, next, he, _⟩ := ht.hops hop hhop
  exact Registry.declares_table he

/-- The names of the column that a declared path ends at are declared. -/
theorem Target.IsDeclared.named_last (ht : t.IsDeclared r) : t.last.Named r.Declares := by
  obtain ⟨e, he, hcolumn⟩ := ht.last
  refine ⟨Registry.declares_table he, t.table, e, he, ?_⟩
  rcases hcolumn with hfield | ⟨edge, hedge, _, hkey⟩
  · exact .inr (.inl hfield)
  · refine .inr (.inr ⟨edge, hedge, ?_⟩)
    rw [Target.last, hkey, Edge.names]
    exact List.mem_cons_of_mem _ List.mem_cons_self

/-- So are those of the columns that its hops compare. -/
theorem Target.IsDeclared.named_joins (ht : t.IsDeclared r) {hop : Hop} (hhop : hop ∈ t.hops) :
    ∀ join ∈ hop.joins, join.1.Named r.Declares ∧ join.2.Named r.Declares := by
  have hown : ∀ name ∈ hop.edge.names, r.Declares name := fun name => ht.declares_edge hhop
  have howner := ht.declares_owner hhop
  unfold Edge.names at hown
  intro join hjoin
  unfold Hop.joins at hjoin
  cases hjunction : hop.edge.junction with
  | none =>
    rw [hjunction] at hjoin
    obtain rfl := List.mem_singleton.mp hjoin
    exact ⟨⟨howner, hown _ (by simp)⟩, hown _ (by simp), hown _ (by simp)⟩
  | some junction =>
    rw [hjunction] at hjoin hown
    rcases List.mem_cons.mp hjoin with rfl | hjoin
    · exact ⟨⟨howner, hown _ (by simp)⟩, hown _ (by simp), hown _ (by simp)⟩
    · obtain rfl := List.mem_singleton.mp hjoin
      exact ⟨⟨hown _ (by simp), hown _ (by simp)⟩, hown _ (by simp), hown _ (by simp)⟩

/-- The names of all columns that a declared path refers to are declared. -/
theorem Target.IsDeclared.named_columns (ht : t.IsDeclared r) : ∀ c ∈ t.columns, c.Named r.Declares := by
  refine Target.forall_columns ?_ ht.named_last
  intro join hjoin
  obtain ⟨hop, hhop, hjoin⟩ := List.mem_flatMap.mp hjoin
  exact ht.named_joins hhop join hjoin

end Schema

/-! ## Sort keys -/

namespace SortOrder

variable {r : Registry}

/-- The sources of a hop name what the hop goes through, and what its owner is called. -/
theorem named_hopSources {depth : Nat} {owner : String} {edge : Edge} (howner : r.Allows owner)
    (hedge : ∀ name ∈ edge.names, r.Declares name) : ∀ s ∈ hopSources depth owner edge, s.Named r.Allows := by
  have hhop : r.Allows (hopAlias depth) := .inr ⟨depth, .inl rfl⟩
  have hlink : r.Allows (linkAlias depth) := .inr ⟨depth, .inr rfl⟩
  have hown : ∀ name ∈ edge.names, r.Allows name := fun name hname => .inl (hedge name hname)
  unfold Edge.names at hown
  intro s hs
  unfold hopSources at hs
  cases hjunction : edge.junction with
  | none =>
    rw [hjunction] at hs
    obtain rfl := List.mem_singleton.mp hs
    exact ⟨hown _ (by simp), hhop, ⟨hhop, hown _ (by simp)⟩, howner, hown _ (by simp)⟩
  | some junction =>
    rw [hjunction] at hs hown
    rcases List.mem_cons.mp hs with rfl | hs
    · exact ⟨hown _ (by simp), hlink, ⟨hlink, hown _ (by simp)⟩, howner, hown _ (by simp)⟩
    · obtain rfl := List.mem_singleton.mp hs
      exact ⟨hown _ (by simp), hhop, ⟨hhop, hown _ (by simp)⟩, hlink, hown _ (by simp)⟩

/-- By induction on the hops: each hop hands its alias to the next one as the name of the owner. -/
theorem named_sources : ∀ {hops : List Hop} (depth : Nat) {owner : String}, r.Allows owner →
    (∀ hop ∈ hops, ∀ name ∈ hop.edge.names, r.Declares name) →
    (∀ s ∈ (sources depth owner hops).1, s.Named r.Allows) ∧ r.Allows (sources depth owner hops).2
  | [], _, _, howner, _ => ⟨by simp [sources], howner⟩
  | hop :: hops, depth, owner, howner, hedges => by
    have hlater : ∀ other ∈ hops, ∀ name ∈ other.edge.names, r.Declares name :=
      fun other hother => hedges other (List.mem_cons_of_mem _ hother)
    obtain ⟨hrest, hlast⟩ := named_sources (depth + 1) (.inr ⟨depth, .inl rfl⟩) hlater
    refine ⟨?_, hlast⟩
    intro s hs
    rcases List.mem_append.mp hs with hfirst | hs
    · exact named_hopSources howner (hedges hop List.mem_cons_self) s hfirst
    · exact hrest s hs

theorem named_keyOf {root : String} {target : Target} (hroot : r.Declares root) (ht : target.IsDeclared r)
    (direction : Direction) : (keyOf root target direction).Named r.Allows := by
  unfold keyOf
  split
  · obtain ⟨hsources, hlast⟩ := named_sources 0 (.inl hroot) fun hop hhop name => ht.declares_edge hhop
    exact ⟨⟨hlast, .inl ht.named_last.2⟩, hsources⟩
  · exact ⟨.inl ht.named_last.1, .inl ht.named_last.2⟩

end SortOrder

/-! ## Prepared searches -/

namespace Prepared

variable {r : Registry} {c : SearchConfig} {root : String} {p : Params} {s : Prepared}

/-- The condition of a prepared search names what the registry declares. -/
theorem named_condition (h : Prepared.ofParams r c root p = .ok s) :
    ∀ column ∈ s.scope.condition.columns, column.Named r.Allows := by
  suffices hrefers : s.scope.condition.RefersTo (Column.Named r.Allows) fun _ => True from hrefers.columns
  refine Prepared.refersTo_condition h ?_ ?_
  · intro path target htarget
    refine ⟨fun column hcolumn => ?_, fun _ _ => trivial⟩
    exact ((isDeclared_of_resolve htarget).named_columns column hcolumn).imp .inl .inl
  · intro e he field hfield hname
    have hdeclared : r.Declares activeField :=
      ⟨root, e, he, .inr (.inl (hname ▸ List.mem_map_of_mem hfield))⟩
    have htable : r.Declares e.name := ⟨root, e, he, .inl rfl⟩
    exact ⟨.inl htable, .inl hdeclared⟩

/-- The query of a prepared search is written with declared names and aliases. -/
theorem exists_written (h : Prepared.ofParams r c root p = .ok s) :
    ∃ tokens, Written r.Allows s.query.sql tokens := by
  obtain ⟨e, he, _, hentity⟩ := Prepared.exists_root h
  have hroot : r.Declares root := Registry.declares_table he
  apply Select.exists_written
  · left
    rw [Prepared.query, hentity]
    exact (Registry.name_of_get? he).symm ▸ hroot
  · intro condition hcondition
    cases hcondition
    exact named_condition h
  · intro order horder
    cases horder
    obtain ⟨target, htarget, hkey⟩ := Prepared.exists_resolve_order h
    rw [hkey]
    exact SortOrder.named_keyOf hroot (isDeclared_of_resolve htarget) _

end Prepared

end SchemaSearch
