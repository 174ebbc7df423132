import SchemaSearch.Proofs.Search.NestedOrder
import SchemaSearch.Proofs.Search.Scopes
import SchemaSearch.Proofs.Tables

/-!
# What a search refers to

A condition names columns in its tests and memberships, and a membership compares two of them.  A sort key
names the columns of its sources by aliases, and ties each source by comparing two.  Both are gathered here,
aliases replaced by the tables that they stand for, and held against the hops of a path and the column that
it ends at.

Main statements: the filter of a field refers to what its path refers to, and compares what the hops compare
(`refersTo_fieldCondition`); so does the sort key (`joins_keyOf`, `columns_keyOf`); and a prepared search
refers to no more than paths of its root do, besides the flag for active records
(`Prepared.refersTo_condition`).
-/

namespace SchemaSearch

open Query Schema

/-! ## Gathering from conditions -/

namespace Query.Condition

section Gather

variable {α : Type} (ofTest : Test → List α) (ofKeys : Column → Column → List α)

mutual

/-- What is gathered from the tests of a condition and from the two columns of its memberships. -/
def gather : Condition → List α
  | .test t => ofTest t
  | .within column _ key rows => ofKeys column key ++ rows.gather
  | .group _ _ items => gatherAll items
termination_by structural c => c

/-- What is gathered from some conditions. -/
def gatherAll : List Condition → List α
  | [] => []
  | c :: cs => c.gather ++ gatherAll cs
termination_by structural cs => cs

end

theorem gatherAll_eq_flatMap (cs : List Condition) :
    gatherAll ofTest ofKeys cs = cs.flatMap (gather ofTest ofKeys) := by
  induction cs with
  | nil => rfl
  | cons c cs ih => rw [gatherAll, ih, List.flatMap_cons]

/-- A group that stands for its one item is gathered from like the item. -/
theorem gather_asItem (c : Condition) : c.asItem.gather ofTest ofKeys = c.gather ofTest ofKeys := by
  unfold asItem
  split
  · rw [gather, gatherAll, gatherAll, List.append_nil]
  · rfl

theorem gatherAll_map_asItem (cs : List Condition) :
    gatherAll ofTest ofKeys (cs.map asItem) = cs.flatMap (gather ofTest ofKeys) := by
  rw [gatherAll_eq_flatMap, List.flatMap_map]
  exact congrArg (List.flatMap · cs) (funext (gather_asItem ofTest ofKeys))

theorem gather_all (cs : List Condition) :
    (all cs).gather ofTest ofKeys = cs.flatMap (gather ofTest ofKeys) := by
  rw [all, gather, gatherAll_map_asItem]

theorem gather_any (cs : List Condition) :
    (any cs).gather ofTest ofKeys = cs.flatMap (gather ofTest ofKeys) := by
  rw [any, gather, gatherAll_map_asItem]

theorem gather_not (c : Condition) : c.not.gather ofTest ofKeys = c.gather ofTest ofKeys := by
  rw [not, gather, gatherAll, gatherAll, gather_asItem, List.append_nil]

theorem gatherAll_conjuncts (c : Condition) :
    gatherAll ofTest ofKeys c.conjuncts = c.gather ofTest ofKeys := by
  unfold conjuncts
  split
  · rw [gather]
  · rw [gatherAll, gatherAll, gather_asItem, List.append_nil]

theorem gather_and (c extra : Condition) :
    (c.and extra).gather ofTest ofKeys = c.gather ofTest ofKeys ++ extra.gather ofTest ofKeys := by
  rw [and, gather, gatherAll_eq_flatMap, List.flatMap_append, ← gatherAll_eq_flatMap, gatherAll_conjuncts,
    List.flatMap_singleton, gather_asItem]

theorem gather_merge (c extra : Condition) :
    (c.merge extra).gather ofTest ofKeys = c.gather ofTest ofKeys ++ extra.gather ofTest ofKeys := by
  rw [merge, gather, gatherAll_eq_flatMap, List.flatMap_append, ← gatherAll_eq_flatMap,
    ← gatherAll_eq_flatMap, gatherAll_conjuncts, gatherAll_conjuncts]

end Gather

/-- The columns that a condition names. -/
def columns : Condition → List Column := gather (fun t => [t.column]) fun column key => [column, key]

/-- The columns that the memberships of a condition compare. -/
def joins : Condition → List (Column × Column) := gather (fun _ => []) fun column key => [(column, key)]

/-- A condition names some columns at most, and compares some pairs of columns at most. -/
structure RefersTo (c : Condition) (columns : Column → Prop) (joins : Column × Column → Prop) : Prop where
  columns : ∀ column ∈ c.columns, columns column
  joins : ∀ join ∈ c.joins, joins join

namespace RefersTo

variable {columns columns' : Column → Prop} {joins joins' : Column × Column → Prop} {c extra : Condition}
  {cs : List Condition}

theorem mono (h : c.RefersTo columns joins) (hcolumns : ∀ column, columns column → columns' column)
    (hjoins : ∀ join, joins join → joins' join) : c.RefersTo columns' joins' :=
  ⟨fun column hcolumn => hcolumns column (h.columns column hcolumn),
    fun join hjoin => hjoins join (h.joins join hjoin)⟩

theorem test {t : Test} (h : columns t.column) : (Condition.test t).RefersTo columns joins := by
  refine ⟨?_, ?_⟩
  · intro column hcolumn
    rwa [List.mem_singleton.mp hcolumn]
  · intro join hjoin
    cases hjoin

theorem within {column key : Column} (negated : Bool) (hcolumn : columns column) (hkey : columns key)
    (hjoin : joins (column, key)) (hrows : c.RefersTo columns joins) :
    (Condition.within column negated key c).RefersTo columns joins := by
  refine ⟨?_, ?_⟩
  · intro named hnamed
    rw [Condition.columns, gather] at hnamed
    rcases List.mem_append.mp hnamed with hpair | hrest
    · rcases List.mem_cons.mp hpair with rfl | hsecond
      · exact hcolumn
      · rwa [List.mem_singleton.mp hsecond]
    · exact hrows.columns named hrest
  · intro join hnamed
    rw [Condition.joins, gather] at hnamed
    rcases List.mem_append.mp hnamed with hpair | hrest
    · rwa [List.mem_singleton.mp hpair]
    · exact hrows.joins join hrest

/-- What each of some conditions refers to, what is gathered from all of them refers to. -/
theorem of_flatMap (cs : List Condition) (h : ∀ c ∈ cs, c.RefersTo columns joins) {whole : Condition}
    (hwhole : ∀ {α : Type} (ofTest : Test → List α) ofKeys,
      whole.gather ofTest ofKeys = cs.flatMap (gather ofTest ofKeys)) :
    whole.RefersTo columns joins := by
  refine ⟨?_, ?_⟩
  · intro column hcolumn
    rw [Condition.columns, hwhole] at hcolumn
    obtain ⟨c, hc, hmem⟩ := List.mem_flatMap.mp hcolumn
    exact (h c hc).columns column hmem
  · intro join hjoin
    rw [Condition.joins, hwhole] at hjoin
    obtain ⟨c, hc, hmem⟩ := List.mem_flatMap.mp hjoin
    exact (h c hc).joins join hmem

theorem always : Condition.always.RefersTo columns joins := of_flatMap [] (by simp) fun _ _ => rfl

theorem all (h : ∀ c ∈ cs, c.RefersTo columns joins) : (Condition.all cs).RefersTo columns joins :=
  of_flatMap cs h fun ofTest ofKeys => gather_all ofTest ofKeys cs

theorem any (h : ∀ c ∈ cs, c.RefersTo columns joins) : (Condition.any cs).RefersTo columns joins :=
  of_flatMap cs h fun ofTest ofKeys => gather_any ofTest ofKeys cs

theorem not (h : c.RefersTo columns joins) : c.not.RefersTo columns joins := by
  refine of_flatMap [c] (by simpa using h) fun ofTest ofKeys => ?_
  rw [gather_not, List.flatMap_singleton]

theorem merge (h : c.RefersTo columns joins) (hextra : extra.RefersTo columns joins) :
    (c.merge extra).RefersTo columns joins := by
  refine of_flatMap [c, extra] (by simpa using ⟨h, hextra⟩) fun ofTest ofKeys => ?_
  rw [gather_merge, List.flatMap_cons, List.flatMap_singleton]

theorem and (h : c.RefersTo columns joins) (hextra : extra.RefersTo columns joins) :
    (c.and extra).RefersTo columns joins := by
  refine of_flatMap [c, extra] (by simpa using ⟨h, hextra⟩) fun ofTest ofKeys => ?_
  rw [gather_and, List.flatMap_cons, List.flatMap_singleton]

end RefersTo

end Query.Condition

/-! ## What a path refers to -/

/-- The two columns of some pairs. -/
def Query.Column.ofPairs (joins : List (Column × Column)) : List Column :=
  joins.flatMap fun join => [join.1, join.2]

theorem Query.Column.mem_ofPairs {joins : List (Column × Column)} {join : Column × Column} (h : join ∈ joins) :
    join.1 ∈ ofPairs joins ∧ join.2 ∈ ofPairs joins := by
  refine ⟨List.mem_flatMap.mpr ⟨join, h, ?_⟩, List.mem_flatMap.mpr ⟨join, h, ?_⟩⟩
  · exact List.mem_cons_self
  · exact List.mem_cons_of_mem _ (List.mem_singleton_self _)

/-- The columns that a hop compares: the owner's with the target's, or each with one of the junction. -/
def Schema.Hop.joins (hop : Hop) : List (Column × Column) :=
  let own : Column := ⟨hop.owner, hop.edge.localColumn⟩
  let remote : Column := ⟨hop.edge.target, hop.edge.remoteColumn⟩
  match hop.edge.junction with
  | none => [(own, remote)]
  | some junction =>
    [(own, ⟨junction.table, junction.ownerColumn⟩), (⟨junction.table, junction.targetColumn⟩, remote)]

namespace Schema.Target

/-- The column that a path ends at. -/
def last (t : Target) : Column := ⟨t.table, t.column⟩

/-- The columns that the hops of a path compare. -/
def joins (t : Target) : List (Column × Column) := t.hops.flatMap Hop.joins

/-- The columns that a path refers to. -/
def columns (t : Target) : List Column := Column.ofPairs t.joins ++ [t.last]

/-- What holds of the columns that the hops compare and of the last one holds of all. -/
theorem forall_columns {t : Target} {good : Column → Prop} (hjoins : ∀ join ∈ t.joins, good join.1 ∧ good join.2)
    (hlast : good t.last) : ∀ column ∈ t.columns, good column := by
  intro column hcolumn
  rcases List.mem_append.mp hcolumn with hpair | hlast'
  · obtain ⟨join, hjoin, hpair⟩ := List.mem_flatMap.mp hpair
    obtain ⟨hfirst, hsecond⟩ := hjoins join hjoin
    rcases List.mem_cons.mp hpair with rfl | hpair
    · exact hfirst
    · rwa [List.mem_singleton.mp hpair]
  · rwa [List.mem_singleton.mp hlast']

end Schema.Target

/-! ## What a path is made of -/

namespace Schema

/-- A path that goes from one registered entity to the next by edges that they declare, and ends at a field
or a key of the last. -/
structure Target.IsDeclared (r : Registry) (t : Target) : Prop where
  hops : ∀ hop ∈ t.hops, ∃ e next, r.get? hop.owner = some e ∧ hop.edge ∈ e.relationships
    ∧ r.get? hop.edge.target = some next
  last : ∃ e, r.get? t.table = some e
    ∧ (t.column ∈ e.fields.map (·.name)
      ∨ ∃ edge ∈ e.relationships, edge.isForeignKey = true ∧ t.column = edge.localColumn)

/-- The last name of a path stands for a field or a key of its entity. -/
theorem isDeclared_of_column? {r : Registry} {e : Entity} (he : r.get? e.name = some e) {name : String}
    {t : Target} (h : e.column? name = some t) : t.IsDeclared r := by
  unfold Entity.column? at h
  split at h
  · rename_i field hfield
    cases h
    exact ⟨by simp, e, he, .inl (List.mem_map_of_mem (List.mem_of_find?_eq_some hfield))⟩
  · split at h
    · rename_i edge hedge
      cases h
      obtain ⟨hfound, hkey⟩ := Option.filter_eq_some_iff.mp hedge
      exact ⟨by simp, e, he, .inr ⟨edge, List.mem_of_find?_eq_some hfound, hkey, rfl⟩⟩
    · cases h

theorem isDeclared_of_follow {r : Registry} :
    ∀ (names : List String) {e : Entity} {t : Target}, r.get? e.name = some e → r.follow e names = some t →
      t.IsDeclared r
  | [], _, _, _, h => by cases h
  | [last], e, t, he, h => by
    rw [Registry.follow] at h
    split at h
    · cases h
    · exact isDeclared_of_column? he h
  | name :: next :: rest, e, t, he, h => by
    rw [Registry.follow] at h
    split at h
    · cases h
    · split at h
      · cases h
      · rename_i edge hedge
        split at h
        · cases h
        · rename_i target htarget
          obtain ⟨found, hfound, rfl⟩ := Option.map_eq_some_iff.mp h
          have hnext : r.get? target.name = some target := by rwa [Registry.name_of_get? htarget]
          have hdeclared := isDeclared_of_follow (next :: rest) hnext hfound
          refine ⟨?_, hdeclared.last⟩
          intro hop hhop
          rcases List.mem_cons.mp hhop with rfl | hhop
          · exact ⟨e, target, he, List.mem_of_find?_eq_some hedge, htarget⟩
          · exact hdeclared.hops hop hhop
    -- the equation is that of a name with others behind it
    · intro hlast
      cases hlast

theorem isDeclared_of_resolve {r : Registry} {root path : String} {t : Target}
    (h : r.resolve root path = .ok t) : t.IsDeclared r := by
  obtain ⟨e, he, hfollow⟩ := Registry.follow_of_resolve h
  exact isDeclared_of_follow _ ((Registry.name_of_get? he).symm ▸ he) hfollow

end Schema

/-! ## Filters -/

section Filters

variable {path : String} {kind : FieldKind} {lookup : Lookup}

theorem leafTest_column {c : Column} {t : Test} (h : leafTest path kind c lookup = .ok t) : t.column = c := by
  cases hnull : lookup.isAboutNull with
  | false => exact (asks_leafTest h hnull).column
  | true =>
    cases lookup with
    | isNull expected => cases expected <;> cases h <;> rfl
    | _ => cases hnull

/-- The condition on the last table of a path names its last column. -/
theorem refersTo_leafCondition {target : Target} {c : Condition} (h : leafCondition path target lookup = .ok c)
    {columns : Column → Prop} {joins : Column × Column → Prop} (hlast : columns target.last) :
    c.RefersTo columns joins := by
  obtain ⟨t, ht, h⟩ := bind_eq_ok h
  have htest : (Condition.test t).RefersTo columns joins := .test (leafTest_column ht ▸ hlast)
  split at h
  · cases h
    exact .all (by simpa using htest)
  · cases h
    exact .all (by simpa using ⟨htest, .test hlast⟩)

/-- The ends of a hop are among the columns of its joins. -/
theorem mem_ofPairs_joins (hop : Hop) : ⟨hop.owner, hop.edge.localColumn⟩ ∈ Column.ofPairs hop.joins
    ∧ ⟨hop.edge.target, hop.edge.remoteColumn⟩ ∈ Column.ofPairs hop.joins := by
  unfold Hop.joins
  cases hop.edge.junction <;> simp [Column.ofPairs]

/-- A membership refers to the columns of its hop, and to what the condition on its targets does. -/
theorem refersTo_membershipOf {hop : Hop} {targets : Condition} {columns : Column → Prop}
    {joins : Column × Column → Prop} (hcolumns : ∀ column ∈ Column.ofPairs hop.joins, columns column)
    (hjoins : ∀ join ∈ hop.joins, joins join) (htargets : targets.RefersTo columns joins) (negated : Bool) :
    (match hop.edge.junction with
      | none => Condition.within ⟨hop.owner, hop.edge.localColumn⟩ negated
          ⟨hop.edge.target, hop.edge.remoteColumn⟩ targets
      | some junction => .within ⟨hop.owner, hop.edge.localColumn⟩ negated
          ⟨junction.table, junction.ownerColumn⟩
          (.all [.within ⟨junction.table, junction.targetColumn⟩ false
              ⟨hop.edge.target, hop.edge.remoteColumn⟩ targets,
            .test (.isNotNull ⟨junction.table, junction.ownerColumn⟩)])).RefersTo columns joins := by
  have hends : ∀ join ∈ hop.joins, columns join.1 ∧ columns join.2 := fun join hjoin =>
    (Column.mem_ofPairs hjoin).imp (hcolumns _) (hcolumns _)
  unfold Hop.joins at hends hjoins
  cases hjunction : hop.edge.junction with
  | none =>
    rw [hjunction] at hends hjoins
    obtain ⟨howner, hremote⟩ := hends _ List.mem_cons_self
    exact .within negated howner hremote (hjoins _ List.mem_cons_self) htargets
  | some junction =>
    rw [hjunction] at hends hjoins
    obtain ⟨howner, hlink⟩ := hends _ List.mem_cons_self
    obtain ⟨hlink', hremote⟩ := hends _ (List.mem_cons_of_mem _ (List.mem_singleton_self _))
    refine .within negated howner hlink (hjoins _ List.mem_cons_self) (.all ?_)
    have hinner := Condition.RefersTo.within false hlink' hremote
      (hjoins _ (List.mem_cons_of_mem _ (List.mem_singleton_self _))) htargets
    simpa using ⟨hinner, .test hlink⟩

/-- The condition of a hop names the columns that the hop compares and what its rows refer to. -/
theorem refersTo_hop {hop : Hop} {rows : Condition} {columns : Column → Prop} {joins : Column × Column → Prop}
    (hcolumns : ∀ column ∈ Column.ofPairs hop.joins, columns column) (hjoins : ∀ join ∈ hop.joins, joins join)
    (hrows : rows.RefersTo columns joins) (missingCounts : Bool) :
    (hop.condition missingCounts rows).RefersTo columns joins := by
  obtain ⟨howner, hremote⟩ := (mem_ofPairs_joins hop).imp (hcolumns _) (hcolumns _)
  have hmembership : ∀ negated (asked : Option Condition), (∀ c ∈ asked, c.RefersTo columns joins) →
      (hop.edge.membership ⟨hop.owner, hop.edge.localColumn⟩ negated asked).RefersTo columns joins := by
    intro negated asked hasked
    have hbase : (Condition.all [.test (.isNotNull ⟨hop.edge.target, hop.edge.remoteColumn⟩)]).RefersTo
        columns joins := .all (by simpa using .test hremote)
    cases asked with
    | none => exact refersTo_membershipOf hcolumns hjoins hbase negated
    | some c => exact refersTo_membershipOf hcolumns hjoins (hbase.merge (hasked c rfl)) negated
  have hrelated : (Condition.all [.test (.isNotNull ⟨hop.owner, hop.edge.localColumn⟩),
      hop.edge.membership ⟨hop.owner, hop.edge.localColumn⟩ false (some rows)]).RefersTo columns joins := by
    refine .all ?_
    simpa using ⟨.test howner, hmembership false (some rows) (by simpa using hrows)⟩
  unfold Hop.condition
  cases missingCounts with
  | false => exact hrelated
  | true =>
    dsimp only
    rw [if_pos rfl]
    split
    · exact .any (by simpa using ⟨.test howner, hrelated⟩)
    · exact .any (by simpa using ⟨.test howner, hmembership true none (by simp), hrelated⟩)

/-- The filter of a field refers to what its path refers to. -/
theorem refersTo_fieldCondition {target : Target} {c : Condition}
    (h : fieldCondition path target lookup = .ok c) : c.RefersTo (· ∈ target.columns) (· ∈ target.joins) := by
  obtain ⟨leaf, hleaf, h⟩ := bind_eq_ok h
  cases h
  have hlast : target.last ∈ target.columns := List.mem_append_right _ (List.mem_singleton_self _)
  -- by induction on the hops that are left, whatever else the path refers to
  have hchain : ∀ hops : List Hop, (∀ hop ∈ hops, hop ∈ target.hops) →
      (hops.foldr (fun hop rows => hop.condition lookup.countsMissing rows) leaf).RefersTo
        (· ∈ target.columns) (· ∈ target.joins) := by
    intro hops hsub
    induction hops with
    | nil => exact refersTo_leafCondition hleaf hlast
    | cons hop hops ih =>
      have hjoins : ∀ join ∈ hop.joins, join ∈ target.joins := fun join hjoin =>
        List.mem_flatMap.mpr ⟨hop, hsub hop List.mem_cons_self, hjoin⟩
      refine refersTo_hop ?_ hjoins (ih fun other hother => hsub other (List.mem_cons_of_mem _ hother)) _
      intro column hcolumn
      obtain ⟨join, hjoin, hpair⟩ := List.mem_flatMap.mp hcolumn
      exact List.mem_append_left _ (List.mem_flatMap.mpr ⟨join, hjoins join hjoin, hpair⟩)
  exact hchain target.hops fun _ => id

end Filters

/-! ## Trees and scopes -/

/-- A condition that refers to no more than paths of a root do. -/
def Query.Condition.FollowsPaths (r : Registry) (root : String) : Condition → Prop :=
  (·.RefersTo (fun column => ∃ path target, r.resolve root path = .ok target ∧ column ∈ target.columns)
    fun join => ∃ path target, r.resolve root path = .ok target ∧ join ∈ target.joins)

namespace Predicate

variable {r : Registry} {root : String}

mutual

/-- A compiled predicate refers to what the paths of its fields do. -/
theorem followsPaths_compile : ∀ (p : Predicate) {c : Condition}, p.compile r root = .ok c →
    c.FollowsPaths r root
  | .field path lookup, c, h => by
    rw [compile] at h
    obtain ⟨target, htarget, hc⟩ := bind_eq_ok h
    exact (refersTo_fieldCondition hc).mono (fun _ hcolumn => ⟨path, target, htarget, hcolumn⟩)
      fun _ hjoin => ⟨path, target, htarget, hjoin⟩
  | .and items, c, h => by
    rw [compile] at h
    obtain ⟨cs, hcs, hc⟩ := bind_eq_ok h
    cases hc
    exact .all (followsPaths_compileAll items hcs)
  | .or items, c, h => by
    rw [compile] at h
    obtain ⟨cs, hcs, hc⟩ := bind_eq_ok h
    cases hc
    exact .any (followsPaths_compileAll items hcs)
  | .not inner, c, h => by
    rw [compile] at h
    obtain ⟨ci, hci, hc⟩ := bind_eq_ok h
    cases hc
    exact (followsPaths_compile inner hci).not

/-- So does each of some compiled predicates. -/
theorem followsPaths_compileAll : ∀ (ps : List Predicate) {cs : List Condition},
    compileAll r root ps = .ok cs → ∀ c ∈ cs, c.FollowsPaths r root
  | [], cs, h => by
    rw [compileAll] at h
    cases h
    simp
  | p :: ps, cs, h => by
    rw [compileAll] at h
    obtain ⟨first, hfirst, h⟩ := bind_eq_ok h
    obtain ⟨rest, hrest, h⟩ := bind_eq_ok h
    cases h
    intro c hc
    rcases List.mem_cons.mp hc with rfl | hc
    · exact followsPaths_compile p hfirst
    · exact followsPaths_compileAll ps hrest c hc

end

end Predicate

/-! ## Sort keys -/

namespace Query

/-- The table that a name stands for among some sources: that of the source with this alias, or else the
table of the name. -/
def Source.tableOf (sources : List Source) (name : String) : String :=
  (Table.find? name (sources.map fun s => (s.tableAlias, s.table))).getD name

/-- A column of an alias as a column of the table that the alias stands for. -/
def Column.behind (sources : List Source) (c : Column) : Column := ⟨Source.tableOf sources c.table, c.name⟩

namespace SortKey

/-- The columns that the sources of a sort key compare: what came before with their own. -/
def joins : SortKey → List (Column × Column)
  | .column _ => []
  | .related _ _ sources => sources.map fun s => (s.right.behind sources, s.left.behind sources)

/-- The column of the values that count. -/
def value : SortKey → Column
  | .column c => c
  | .related _ value sources => value.behind sources

/-- The columns that a sort key names. -/
def columns (key : SortKey) : List Column := Column.ofPairs key.joins ++ [key.value]

end SortKey

end Query

namespace SortOrder

/-- The aliases of a chain of sources, each with its table. -/
def aliases (sources : List Source) : List (String × String) := sources.map fun s => (s.tableAlias, s.table)

theorem aliases_append (first second : List Source) :
    aliases (first ++ second) = aliases first ++ aliases second := List.map_append

theorem keys_hopSources {depth : Nat} {owner : String} {edge : Edge} {name : String}
    (h : name ∈ Table.keys (aliases (hopSources depth owner edge))) :
    name = hopAlias depth ∨ name = linkAlias depth := by
  unfold hopSources at h
  cases hjunction : edge.junction with
  | none =>
    rw [hjunction] at h
    exact .inl (List.mem_singleton.mp h)
  | some junction =>
    rw [hjunction] at h
    rcases List.mem_cons.mp h with rfl | h
    · exact .inr rfl
    · exact .inl (List.mem_singleton.mp h)

/-- The aliases of a chain are those of its depths. -/
theorem keys_sources {name : String} : ∀ {hops : List Hop} {depth : Nat} {owner : String},
    name ∈ Table.keys (aliases (sources depth owner hops).1) →
      ∃ k, depth ≤ k ∧ (name = hopAlias k ∨ name = linkAlias k)
  | hop :: hops, depth, owner, h => by
    rw [sources, aliases_append, Table.keys, List.map_append] at h
    rcases List.mem_append.mp h with hfirst | hrest
    · exact ⟨depth, Nat.le_refl depth, keys_hopSources hfirst⟩
    · obtain ⟨k, hk, hname⟩ := keys_sources hrest
      exact ⟨k, by omega, hname⟩

theorem linkAlias_inj {m n : Nat} (h : linkAlias m = linkAlias n) : m = n := by
  refine hopAlias_inj ?_
  rw [← String.toList_inj] at h ⊢
  rw [linkAlias, linkAlias, String.toList_append, String.toList_append] at h
  exact List.append_cancel_right h

/-- No alias comes twice in a chain. -/
theorem nodup_sources : ∀ (hops : List Hop) (depth : Nat) (owner : String),
    (Table.keys (aliases (sources depth owner hops).1)).Nodup
  | [], _, _ => List.nodup_nil
  | hop :: hops, depth, owner => by
    rw [sources, aliases_append, Table.keys, List.map_append, List.nodup_append]
    refine ⟨?_, nodup_sources hops (depth + 1) (hopAlias depth), ?_⟩
    · unfold hopSources
      cases hop.edge.junction with
      | none => simp [aliases]
      | some junction => simpa [aliases] using (hopAlias_ne_linkAlias depth depth).symm
    · rintro first hfirst other hother rfl
      -- the rest of the chain is deeper
      obtain ⟨k, hk, hdeeper⟩ := keys_sources hother
      rcases keys_hopSources hfirst with rfl | rfl <;> rcases hdeeper with h | h
      · have := hopAlias_inj h
        omega
      · exact hopAlias_ne_linkAlias _ _ h
      · exact hopAlias_ne_linkAlias _ _ h.symm
      · have := linkAlias_inj h
        omega

section Chain

variable {all : List Source}

theorem tableOf_mem (hnodup : (Table.keys (aliases all)).Nodup) {s : Source} (h : s ∈ all) :
    Source.tableOf all s.tableAlias = s.table := by
  have hentry : (s.tableAlias, s.table) ∈ aliases all := List.mem_map_of_mem h
  rw [Source.tableOf]
  change (Table.find? s.tableAlias (aliases all)).getD _ = _
  rw [Table.find?_of_mem hnodup hentry]
  rfl

/-- In a chain whose aliases stand for the tables of its sources, each hop compares its own columns, and the
last alias stands for the last table. -/
theorem joins_sources (hnodup : (Table.keys (aliases all)).Nodup) :
    ∀ (hops : List Hop) (depth : Nat) {owner table last : String}, Source.tableOf all owner = table →
      Leads table hops last → (∀ s ∈ (sources depth owner hops).1, s ∈ all) →
      ((sources depth owner hops).1.map fun s => (s.right.behind all, s.left.behind all))
          = hops.flatMap Hop.joins
        ∧ Source.tableOf all (sources depth owner hops).2 = last
  | [], _, _, _, _, howner, hleads, _ => ⟨rfl, howner.trans hleads⟩
  | hop :: hops, depth, owner, table, last, howner, hleads, hsub => by
    obtain ⟨hstart, hleads⟩ := hleads
    have hmem : ∀ s ∈ hopSources depth owner hop.edge, s ∈ all := fun s hs =>
      hsub s (List.mem_append_left _ hs)
    have htarget : Source.tableOf all (hopAlias depth) = hop.edge.target := by
      unfold hopSources at hmem
      cases hjunction : hop.edge.junction with
      | none =>
        rw [hjunction] at hmem
        exact tableOf_mem hnodup (hmem _ List.mem_cons_self)
      | some junction =>
        rw [hjunction] at hmem
        exact tableOf_mem hnodup (hmem _ (List.mem_cons_of_mem _ (List.mem_singleton_self _)))
    obtain ⟨hrest, hlast⟩ := joins_sources hnodup hops (depth + 1) htarget hleads
      fun s hs => hsub s (List.mem_append_right _ hs)
    refine ⟨?_, hlast⟩
    rw [sources, List.map_append, hrest, List.flatMap_cons]
    congr 1
    unfold hopSources at hmem ⊢
    unfold Hop.joins
    cases hjunction : hop.edge.junction with
    | none => simp only [List.map_cons, List.map_nil, Column.behind, htarget, howner, hstart]
    | some junction =>
      rw [hjunction] at hmem
      have hlink : Source.tableOf all (linkAlias depth) = junction.table :=
        tableOf_mem hnodup (hmem _ List.mem_cons_self)
      simp only [List.map_cons, List.map_nil, Column.behind, htarget, howner, hstart, hlink]

end Chain

variable {root : String} {target : Target}

/-- A sort key compares what the hops of its path compare, and its values are those of the last column. -/
theorem joins_keyOf (hroot : IsOutside root) (hleads : Leads root target.hops target.table)
    (direction : Direction) :
    (keyOf root target direction).joins = target.joins ∧ (keyOf root target direction).value = target.last := by
  unfold keyOf
  split
  · have hout : Source.tableOf (sources 0 root target.hops).1 root = root := by
      rw [Source.tableOf]
      change (Table.find? root (aliases _)).getD root = root
      rw [Table.find?_eq_none]
      · rfl
      · intro hmem
        obtain ⟨k, _, h | h⟩ := keys_sources hmem
        · exact (hroot k).1 h
        · exact (hroot k).2 h
    obtain ⟨hjoins, hlast⟩ := joins_sources (nodup_sources target.hops 0 root) target.hops 0 hout hleads
      fun _ => id
    exact ⟨hjoins, congrArg (Column.mk · target.column) hlast⟩
  · rename_i hnested
    rw [Target.isNested, Bool.not_eq_true, Bool.not_eq_false', List.isEmpty_iff] at hnested
    rw [Target.joins, hnested]
    exact ⟨rfl, rfl⟩

theorem columns_keyOf (hroot : IsOutside root) (hleads : Leads root target.hops target.table)
    (direction : Direction) : (keyOf root target direction).columns = target.columns := by
  obtain ⟨hjoins, hvalue⟩ := joins_keyOf hroot hleads direction
  rw [SortKey.columns, hjoins, hvalue, Target.columns]

end SortOrder

/-! ## Whole searches -/

/-- A prepared search sorts by a path of its root. -/
theorem Prepared.exists_resolve_order {r : Registry} {c : SearchConfig} {root : String} {p : Params}
    {s : Prepared} (h : Prepared.ofParams r c root p = .ok s) :
    ∃ target, r.resolve root s.order.field = .ok target
      ∧ s.order.key = SortOrder.keyOf root target s.order.direction := by
  rw [Prepared.ofParams_eq] at h
  obtain ⟨n, _, h⟩ := bind_eq_ok h
  obtain ⟨searched, _, h⟩ := bind_eq_ok h
  obtain ⟨order, horder, h⟩ := bind_eq_ok h
  obtain ⟨page, _, h⟩ := bind_eq_ok h
  cases h
  exact (SortOrder.read_eq_ok_iff.mp horder).2

/-- The base of a prepared search refers to no more than paths of its root do. -/
theorem Prepared.followsPaths_base {r : Registry} {c : SearchConfig} {root : String} {p : Params}
    {s : Prepared} (h : Prepared.ofParams r c root p = .ok s) : s.scope.base.FollowsPaths r root := by
  obtain ⟨e, steps, hroot, hscope⟩ := Prepared.exists_run h
  have hkept := Scope.run_induction
    (P := fun s => s.registry = r ∧ s.root = e ∧ s.base.FollowsPaths r root) ?_ ?_ steps
    (s := Scope.ofEntity r e) ⟨rfl, rfl, ?_⟩
  · rw [hscope]
    exact hkept.2.2
  · rintro s s' p ⟨rfl, rfl, hbase⟩ hfilter
    obtain ⟨condition, hcondition, rfl⟩ := Scope.filter_eq_ok hfilter
    rw [Registry.name_of_get? hroot] at hcondition
    exact ⟨rfl, rfl, hbase.and (Predicate.followsPaths_compile p hcondition)⟩
  · exact fun s active hs => hs
  · exact .always

/-- A prepared search refers to no more in its condition than paths of its root do, besides the flag for
active records where the root has it. -/
theorem Prepared.refersTo_condition {r : Registry} {c : SearchConfig} {root : String} {p : Params}
    {s : Prepared} (h : Prepared.ofParams r c root p = .ok s) {columns : Column → Prop}
    {joins : Column × Column → Prop}
    (hpaths : ∀ path target, r.resolve root path = .ok target →
      (∀ column ∈ target.columns, columns column) ∧ ∀ join ∈ target.joins, joins join)
    (hflag : ∀ e, r.get? root = some e → ∀ field ∈ e.fields, field.name = activeField →
      columns ⟨e.name, activeField⟩) :
    s.scope.condition.RefersTo columns joins := by
  obtain ⟨e, he, _, hsame⟩ := Prepared.exists_root h
  have hbase : s.scope.base.RefersTo columns joins := by
    refine (Prepared.followsPaths_base h).mono ?_ ?_
    · rintro column ⟨path, target, htarget, hcolumn⟩
      exact (hpaths path target htarget).1 column hcolumn
    · rintro join ⟨path, target, htarget, hjoin⟩
      exact (hpaths path target htarget).2 join hjoin
  unfold Scope.condition
  split
  · rename_i hactive
    rw [Bool.and_eq_true] at hactive
    obtain ⟨field, hfield, _⟩ := (Option.any_eq_true _ _).mp hactive.2
    have hname : field.name = activeField := by simpa using List.find?_some hfield
    rw [hsame] at hfield
    have hcolumn := hflag e he field (List.mem_of_find?_eq_some hfield) hname
    rw [← hsame] at hcolumn
    exact hbase.and (.test hcolumn)
  · exact hbase

end SchemaSearch
