import SchemaSearch.Proofs.Search.References
import SchemaSearch.Proofs.Service.Statuses

/-!
# Searches within the migrated tables

Relationships and junctions are declared by hand, the fields of an entity are those of its table, and the
tables come from a migration.  Where these agree for every entity by itself, with every edge between two
registered ones, they agree along every path, however often it goes round: `Registry.Fits` is what is asked
of the entities, and a path only ever takes edges that they declare.

Main statement: whatever a path of the service refers to, in its filter or in its sort key, was created by
the migration, and each hop compares UUID columns; so was all that a prepared search refers to
(`references_migrated`).
-/

namespace SchemaSearch

open Query Schema

/-! ## Columns that were created -/

namespace Store.Catalog

/-- The definition of a column. -/
def column? (created : Catalog) (c : Column) : Option ColumnDef :=
  (created.tables.find? (·.name == c.table)).bind fun t => t.columns.find? (·.name == c.name)

/-- Whether a column was created. -/
def HasColumn (created : Catalog) (c : Column) : Prop := (created.column? c).isSome = true

/-- Whether a column was created to hold UUIDs. -/
def HasUuid (created : Catalog) (c : Column) : Prop := (created.column? c).map (·.type) = some .uuid

instance (created : Catalog) (c : Column) : Decidable (created.HasColumn c) :=
  inferInstanceAs (Decidable (_ = _))

instance (created : Catalog) (c : Column) : Decidable (created.HasUuid c) :=
  inferInstanceAs (Decidable (_ = _))

/-- A step that finds none of its tables there makes all of their columns. -/
theorem column?_up {before : Catalog} {m : Migration} (hfresh : before.applied.contains m.name = false)
    (hnew : ∀ t ∈ before.tables, ∀ made ∈ m.creates, t.name ≠ made.name) {c : Column} {definition : ColumnDef}
    (h : (Catalog.empty.up m).column? c = some definition) : (before.up m).column? c = some definition := by
  obtain ⟨t, ht, hcolumn⟩ := Option.bind_eq_some_iff.mp h
  change m.creates.find? (·.name == c.table) = some t at ht
  have hold : before.tables.find? (·.name == c.table) = none := by
    refine List.find?_eq_none.mpr fun old hmem hname => ?_
    have hmade : t.name = c.table := by simpa using List.find?_some ht
    exact hnew old hmem t (List.mem_of_find?_eq_some ht) ((beq_iff_eq.mp hname).trans hmade.symm)
  rw [column?, up, if_neg (by rw [hfresh]; exact Bool.false_ne_true), List.find?_append, hold,
    Option.none_or, ht]
  exact hcolumn

theorem HasUuid.hasColumn {created : Catalog} {c : Column} (h : created.HasUuid c) : created.HasColumn c := by
  obtain ⟨definition, hdefinition, _⟩ := Option.map_eq_some_iff.mp h
  rw [HasColumn, hdefinition]
  rfl

end Store.Catalog

open Store

/-! ## Entities that fit their tables -/

namespace Schema

/-- Entities whose fields and keys were created, and whose edges to registered entities compare UUIDs. -/
structure Registry.Fits (r : Registry) (created : Catalog) : Prop where
  fields : ∀ e ∈ r.entities, ∀ field ∈ e.fields, created.HasColumn ⟨e.name, field.name⟩
  keys : ∀ e ∈ r.entities, ∀ edge ∈ e.relationships, edge.isForeignKey = true →
    created.HasColumn ⟨e.name, edge.localColumn⟩
  joins : ∀ e ∈ r.entities, ∀ edge ∈ e.relationships, ∀ next ∈ r.entities, edge.target = next.name →
    ∀ join ∈ (Hop.mk e.name edge).joins, created.HasUuid join.1 ∧ created.HasUuid join.2

namespace Registry.Fits

variable {r : Registry} {created : Catalog} (hfits : r.Fits created) {root path : String} {t : Target}

include hfits

theorem mono {created' : Catalog}
    (hmade : ∀ {c definition}, created.column? c = some definition → created'.column? c = some definition) :
    r.Fits created' := by
  have hcolumn : ∀ {c}, created.HasColumn c → created'.HasColumn c := by
    intro c hc
    obtain ⟨definition, hdefinition⟩ := Option.isSome_iff_exists.mp hc
    exact Option.isSome_iff_exists.mpr ⟨definition, hmade hdefinition⟩
  have huuid : ∀ {c}, created.HasUuid c → created'.HasUuid c := by
    intro c hc
    obtain ⟨definition, hdefinition, htype⟩ := Option.map_eq_some_iff.mp hc
    exact Option.map_eq_some_iff.mpr ⟨definition, hmade hdefinition, htype⟩
  refine ⟨fun e he field hfield => hcolumn (hfits.fields e he field hfield),
    fun e he edge hedge hkey => hcolumn (hfits.keys e he edge hedge hkey), ?_⟩
  intro e he edge hedge next hnext htarget join hjoin
  exact (hfits.joins e he edge hedge next hnext htarget join hjoin).imp huuid huuid

/-- Each hop of a declared path compares UUIDs. -/
theorem uuids (ht : t.IsDeclared r) : ∀ join ∈ t.joins, created.HasUuid join.1 ∧ created.HasUuid join.2 := by
  intro join hjoin
  obtain ⟨⟨owner, edge⟩, hhop, hjoin⟩ := List.mem_flatMap.mp hjoin
  obtain ⟨e, next, he, hedge, hnext⟩ := ht.hops _ hhop
  have howner : e.name = owner := Registry.name_of_get? he
  subst howner
  exact hfits.joins e (Registry.mem_of_get? he) edge hedge next (Registry.mem_of_get? hnext)
    (Registry.name_of_get? hnext).symm join hjoin

theorem last (ht : t.IsDeclared r) : created.HasColumn t.last := by
  obtain ⟨e, he, hfield | ⟨edge, hedge, hkey, hcolumn⟩⟩ := ht.last
  · obtain ⟨field, hfield, hname⟩ := List.mem_map.mp hfield
    rw [Target.last, ← Registry.name_of_get? he, ← hname]
    exact hfits.fields e (Registry.mem_of_get? he) field hfield
  · rw [Target.last, ← Registry.name_of_get? he, hcolumn]
    exact hfits.keys e (Registry.mem_of_get? he) edge hedge hkey

/-- All columns that a declared path refers to were created. -/
theorem columns (ht : t.IsDeclared r) : ∀ column ∈ t.columns, created.HasColumn column :=
  Target.forall_columns (fun join hjoin => (hfits.uuids ht join hjoin).imp (·.hasColumn) (·.hasColumn))
    (hfits.last ht)

end Registry.Fits

end Schema

namespace Service

/-- A database that has none of the service's tables yet. -/
structure IsFresh (before : Catalog) : Prop where
  applied : before.applied.contains createTables.name = false
  tables : ∀ t ∈ before.tables, ∀ made ∈ createTables.creates, t.name ≠ made.name

theorem isFresh_empty : IsFresh .empty := ⟨rfl, by simp [Catalog.empty]⟩

/-- The entities of the service fit the tables that its migration makes. -/
theorem fits_registry {before : Catalog} (h : IsFresh before) : registry.Fits (before.up createTables) := by
  have hempty : registry.Fits (Catalog.empty.up createTables) := ⟨by decide, by decide, by decide⟩
  exact hempty.mono (Catalog.column?_up h.applied h.tables)

/-- No root of the service is named like an alias of a sort key. -/
theorem isOutside_of_get? {root : String} {e : Entity} (h : registry.get? root = some e) :
    SortOrder.IsOutside root := by
  have hnames : ∀ e ∈ registry.entities, ¬ "order_".toList <+: e.name.toList := by decide
  rw [← Registry.name_of_get? h]
  exact SortOrder.isOutside_of_not_prefix (hnames e (Registry.mem_of_get? h))

end Service

/-- What a condition refers to was created, and what it compares are UUIDs. -/
def Query.Condition.IsMigrated (created : Catalog) : Condition → Prop :=
  (·.RefersTo created.HasColumn fun join => created.HasUuid join.1 ∧ created.HasUuid join.2)

/-- What a sort key refers to was created, and what it compares are UUIDs. -/
def Query.SortKey.IsMigrated (created : Catalog) (key : SortKey) : Prop :=
  (∀ column ∈ key.columns, created.HasColumn column)
    ∧ ∀ join ∈ key.joins, created.HasUuid join.1 ∧ created.HasUuid join.2

namespace Schema.Registry.Fits

variable {r : Registry} {created : Catalog} (hfits : r.Fits created) {root path : String}

include hfits

/-- A condition that follows paths refers to what was created. -/
theorem isMigrated {c : Condition} (h : c.FollowsPaths r root) : c.IsMigrated created := by
  refine h.mono ?_ ?_
  · rintro column ⟨path, target, htarget, hcolumn⟩
    exact hfits.columns (isDeclared_of_resolve htarget) column hcolumn
  · rintro join ⟨path, target, htarget, hjoin⟩
    exact hfits.uuids (isDeclared_of_resolve htarget) join hjoin

theorem isMigrated_keyOf {target : Target} (htarget : r.resolve root path = .ok target)
    (hroot : SortOrder.IsOutside root) (direction : Direction) :
    (SortOrder.keyOf root target direction).IsMigrated created := by
  have hleads := leads_of_resolve htarget
  have hdeclared := isDeclared_of_resolve htarget
  rw [SortKey.IsMigrated, SortOrder.columns_keyOf hroot hleads, (SortOrder.joins_keyOf hroot hleads _).1]
  exact ⟨hfits.columns hdeclared, hfits.uuids hdeclared⟩

/-- So do the condition and the sort key of a prepared search. -/
theorem isMigrated_prepared {c : SearchConfig} {p : Params} {s : Prepared}
    (h : Prepared.ofParams r c root p = .ok s) (hroot : SortOrder.IsOutside root) :
    s.scope.condition.IsMigrated created ∧ s.order.key.IsMigrated created := by
  refine ⟨Prepared.refersTo_condition h ?_ ?_, ?_⟩
  · intro path target htarget
    have hdeclared := isDeclared_of_resolve htarget
    exact ⟨hfits.columns hdeclared, hfits.uuids hdeclared⟩
  · intro e he field hfield hname
    exact hname ▸ hfits.fields e (Registry.mem_of_get? he) field hfield
  · obtain ⟨target, htarget, hkey⟩ := Prepared.exists_resolve_order h
    rw [hkey]
    exact hfits.isMigrated_keyOf htarget hroot s.order.direction

end Schema.Registry.Fits

/-! ## What the service refers to -/

/-- Whatever path resolves from a root of the service, however often it goes round: in a database that the
migration has made, the columns that each of its hops compares exist and hold UUIDs, and the column that it
ends at exists; the filter of the path and its sort key refer to no other columns and compare no others.  So
the condition and the sort key of a prepared search refer to nothing that the migration did not create. -/
theorem references_migrated {before : Catalog} (hfresh : Service.IsFresh before) :
    (∀ root path target, Service.registry.resolve root path = .ok target →
      (∀ join ∈ target.joins, (before.up Service.createTables).HasUuid join.1
        ∧ (before.up Service.createTables).HasUuid join.2)
      ∧ (before.up Service.createTables).HasColumn target.last
      ∧ (∀ lookup c, (Predicate.field path lookup).compile Service.registry root = .ok c →
        c.RefersTo (· ∈ target.columns) (· ∈ target.joins) ∧ c.IsMigrated (before.up Service.createTables))
      ∧ ∀ direction, (SortOrder.keyOf root target direction).columns = target.columns
        ∧ (SortOrder.keyOf root target direction).joins = target.joins
        ∧ (SortOrder.keyOf root target direction).IsMigrated (before.up Service.createTables))
    ∧ ∀ c root p s, Prepared.ofParams Service.registry c root p = .ok s →
      (∃ t ∈ (before.up Service.createTables).tables, t.name = s.query.table)
        ∧ s.scope.condition.IsMigrated (before.up Service.createTables)
        ∧ s.order.key.IsMigrated (before.up Service.createTables) := by
  have hfits := Service.fits_registry hfresh
  refine ⟨?_, ?_⟩
  · intro root path target htarget
    obtain ⟨e, he, _⟩ := Registry.follow_of_resolve htarget
    have hroot := Service.isOutside_of_get? he
    have hleads := leads_of_resolve htarget
    have hdeclared := isDeclared_of_resolve htarget
    refine ⟨hfits.uuids hdeclared, hfits.last hdeclared, ?_, ?_⟩
    · intro lookup c hc
      refine ⟨?_, hfits.isMigrated (Predicate.followsPaths_compile _ hc)⟩
      rw [Predicate.compile, htarget] at hc
      exact refersTo_fieldCondition hc
    · exact fun direction => ⟨SortOrder.columns_keyOf hroot hleads direction,
        (SortOrder.joins_keyOf hroot hleads direction).1, hfits.isMigrated_keyOf htarget hroot direction⟩
  · intro c root p s hs
    obtain ⟨e, he, _, hroot⟩ := Prepared.exists_root hs
    refine ⟨?_, hfits.isMigrated_prepared hs (Service.isOutside_of_get? he)⟩
    have htables : ∀ e ∈ Service.registry.entities, ∃ t ∈ Service.createTables.creates, t.name = e.name := by
      decide
    obtain ⟨t, ht, hname⟩ := htables e (Registry.mem_of_get? he)
    refine ⟨t, ?_, ?_⟩
    · rw [Catalog.up, if_neg (by rw [hfresh.applied]; exact Bool.false_ne_true)]
      exact List.mem_append_right _ ht
    · rw [hname, Prepared.query, hroot]

/-- Round from answers to the question that they are canonical for, and to its answers and their tags: both
junctions and four tables. -/
theorem references_migrated_sample :
    ∃ target, Service.registry.resolve "answers" "canonical_for__answers__tags__title" = .ok target
      ∧ target.joins =
        [(⟨"answers", "answer_id"⟩, ⟨"questions", "canonical_answer_id"⟩),
          (⟨"questions", "question_id"⟩, ⟨"answers", "question_id"⟩),
          (⟨"answers", "answer_id"⟩, ⟨"answers_tags", "answer_id"⟩),
          (⟨"answers_tags", "answer_tag_id"⟩, ⟨"answer_tags", "answer_tag_id"⟩)]
      ∧ (∀ join ∈ target.joins, (Catalog.empty.up Service.createTables).HasUuid join.1
        ∧ (Catalog.empty.up Service.createTables).HasUuid join.2)
      ∧ (SortOrder.keyOf "answers" target .ascending).IsMigrated (Catalog.empty.up Service.createTables) := by
  have htarget : Service.registry.resolve "answers" "canonical_for__answers__tags__title" = .ok _ := rfl
  obtain ⟨huuids, _, _, hkey⟩ := (references_migrated Service.isFresh_empty).1 _ _ _ htarget
  exact ⟨_, htarget, rfl, huuids, (hkey .ascending).2.2⟩

end SchemaSearch
