import SchemaSearch.Proofs.Predicate.Meaning
import SchemaSearch.Proofs.Search.Ordering
import SchemaSearch.Proofs.Store.Order

/-!
# Orders through relationships

The sort key of a nested path joins one source after another, each under an alias of its own, and takes
the least or the greatest value of the last.  A filter on the same path asks for memberships instead and
uses no alias.  Both walk the same chain of hops: the joins end at the rows that the path reaches, some of
them more than once.

Main statement: the key of a nested order is what comes first of the values that its path reaches, and it
is NULL where a filter for values finds none (`nested_order_isFirst`).
-/

namespace SchemaSearch

open Query Schema Store

/-! ## Aliases -/

namespace SortOrder

theorem toList_hopAlias (depth : Nat) :
    (hopAlias depth).toList = "order_".toList ++ Nat.toDigits 10 depth := by
  rw [hopAlias, String.toList_append, Nat.toString_eq_repr, Nat.toList_repr]

theorem toList_linkAlias (depth : Nat) :
    (linkAlias depth).toList = "order_".toList ++ (Nat.toDigits 10 depth ++ "_link".toList) := by
  rw [linkAlias, String.toList_append, toList_hopAlias, List.append_assoc]

/-- Each hop has an alias of its own. -/
theorem hopAlias_inj {m n : Nat} (h : hopAlias m = hopAlias n) : m = n := by
  have hdigits : Nat.toDigits 10 m = Nat.toDigits 10 n := by
    have hlist := congrArg String.toList h
    rw [toList_hopAlias, toList_hopAlias] at hlist
    exact List.append_cancel_left hlist
  calc m = Nat.ofDigitChars 10 (Nat.toDigits 10 m) 0 := Nat.ofDigitChars_ten_toDigits.symm
    _ = Nat.ofDigitChars 10 (Nat.toDigits 10 n) 0 := by rw [hdigits]
    _ = n := Nat.ofDigitChars_ten_toDigits

/-- No alias of a hop is that of a junction table. -/
theorem hopAlias_ne_linkAlias (m n : Nat) : hopAlias m ≠ linkAlias n := by
  intro h
  have hlist := congrArg String.toList h
  rw [toList_hopAlias, toList_linkAlias] at hlist
  -- the number of a hop has no underscore
  have hdigits := List.append_cancel_left hlist
  refine Nat.underscore_not_in_toDigits (n := m) ?_
  rw [hdigits]
  exact List.mem_append_right _ (by decide)

/-- Whether a name is none of the aliases inside a sort key.  Names are compared letter by letter here; the
database ignores the case of ASCII letters in them, and to it a table `ORDER_0` is not outside. -/
def IsOutside (name : String) : Prop := ∀ depth, name ≠ hopAlias depth ∧ name ≠ linkAlias depth

/-- All aliases begin alike. -/
theorem isOutside_of_not_prefix {name : String} (h : ¬ "order_".toList <+: name.toList) :
    IsOutside name := by
  intro depth
  constructor
  · rintro rfl
    exact h ⟨_, (toList_hopAlias depth).symm⟩
  · rintro rfl
    exact h ⟨_, (toList_linkAlias depth).symm⟩

end SortOrder

/-! ## Joins -/

namespace Store

/-- Sources that follow others are joined to each of their results. -/
theorem joinSources_append (db : Database) (first second : List Source) :
    ∀ env : Bindings, joinSources db (first ++ second) env
      = (joinSources db first env).flatMap (joinSources db second) := by
  induction first with
  | nil =>
    intro env
    rw [List.nil_append, joinSources, List.flatMap_cons, List.flatMap_nil, List.append_nil]
  | cons s first ih =>
    intro env
    rw [List.cons_append, joinSources, joinSources, List.flatMap_assoc]
    refine congrArg (List.flatMap · (db.rows s.table)) (funext fun row => ?_)
    dsimp only
    split
    · exact ih _
    · rfl

/-- A column of another table is looked for further out. -/
theorem valueOf_cons_of_ne {name table : String} (h : name ≠ table) (row : Row) (env : Bindings)
    (column : String) : valueOf ((name, row) :: env) ⟨table, column⟩ = valueOf env ⟨table, column⟩ := by
  simp only [valueOf, Table.find?, if_neg h]

theorem Value.meets_comm (a b : Value) : a.meets b = b.meets a := by
  unfold Value.meets
  by_cases h : a = b
  · rw [h]
  · rw [beq_false_of_ne h, beq_false_of_ne (Ne.symm h), Bool.and_false, Bool.and_false]

theorem mem_joinSources_nil {db : Database} {env result : Bindings} :
    result ∈ joinSources db [] env ↔ result = env := List.mem_singleton

/-- A source binds each of its rows that its tie allows, and the sources behind it see that row. -/
theorem mem_joinSources_cons {db : Database} {s : Source} {sources : List Source}
    {env result : Bindings} :
    result ∈ joinSources db (s :: sources) env ↔ ∃ row ∈ db.rows s.table,
      (valueOf ((s.tableAlias, row) :: env) s.left).meets
          (valueOf ((s.tableAlias, row) :: env) s.right) = true
        ∧ result ∈ joinSources db sources ((s.tableAlias, row) :: env) := by
  simp only [joinSources, List.mem_flatMap, Value.holds_equals]
  refine exists_congr fun row => and_congr_right fun _ => ?_
  split
  · rename_i h
    simp [h]
  · rename_i h
    simp [h]

/-- Under a name the bindings show the columns of a row. -/
def Binds (env : Bindings) (name : String) (row : Row) : Prop :=
  ∀ column, valueOf env ⟨name, column⟩ = row.get column

theorem binds_cons (name : String) (row : Row) (env : Bindings) : Binds ((name, row) :: env) name row :=
  fun column => valueOf_head env name column row

theorem Binds.cons_of_ne {env : Bindings} {table : String} {row : Row} (h : Binds env table row)
    {name : String} (hname : table ≠ name) (other : Row) : Binds ((name, other) :: env) table row :=
  fun column => (valueOf_cons_of_ne (Ne.symm hname) other env column).trans (h column)

end Store

/-! ## One hop -/

namespace SortOrder

section Hop

variable {depth : Nat} {owner : String} {env : Bindings} {row : Row}

/-- The joins of a hop bind, under its alias, the rows that are related to the owner. -/
theorem binds_hopSources (db : Database) (edge : Edge) (hrow : Binds env owner row)
    (hhop : owner ≠ hopAlias depth) (hlink : owner ≠ linkAlias depth) :
    (∀ result ∈ joinSources db (hopSources depth owner edge) env,
        ∃ target ∈ edge.related db row, Binds result (hopAlias depth) target)
      ∧ ∀ target ∈ edge.related db row,
        ∃ result ∈ joinSources db (hopSources depth owner edge) env,
          Binds result (hopAlias depth) target := by
  unfold hopSources Edge.related Edge.links
  cases edge.junction with
  | none =>
    have howner : ∀ target column, valueOf ((hopAlias depth, target) :: env) ⟨owner, column⟩
        = row.get column := fun target => hrow.cons_of_ne hhop target
    simp only [mem_joinSources_cons, mem_joinSources_nil, valueOf_head, howner,
      List.mem_filter]
    constructor
    · rintro result ⟨target, htarget, hmeets, rfl⟩
      exact ⟨target, ⟨htarget, Value.meets_comm _ _ ▸ hmeets⟩, binds_cons _ _ _⟩
    · rintro target ⟨htarget, hmeets⟩
      exact ⟨_, ⟨target, htarget, Value.meets_comm _ _ ▸ hmeets, rfl⟩, binds_cons _ _ _⟩
  | some junction =>
    -- the junction table is joined to the owner, and the target to the junction table
    have howner : ∀ link column, valueOf ((linkAlias depth, link) :: env) ⟨owner, column⟩
        = row.get column := fun link => hrow.cons_of_ne hlink link
    have hlinked : ∀ target link column,
        valueOf ((hopAlias depth, target) :: (linkAlias depth, link) :: env) ⟨linkAlias depth, column⟩
          = link.get column :=
      fun target link => (binds_cons _ link env).cons_of_ne (hopAlias_ne_linkAlias _ _).symm target
    simp only [mem_joinSources_cons, mem_joinSources_nil, valueOf_head, howner, hlinked,
      List.mem_filter, List.any_eq_true, Bool.and_eq_true]
    constructor
    · rintro result ⟨link, hlink, howned, target, htarget, hmeets, rfl⟩
      refine ⟨target, ⟨htarget, link, hlink, ?_, ?_⟩, binds_cons _ _ _⟩
      · rw [Value.meets_comm, howned]
      · rw [Value.meets_comm, hmeets]
    · rintro target ⟨htarget, link, hlink, howned, hmeets⟩
      refine ⟨_, ⟨link, hlink, ?_, target, htarget, ?_, rfl⟩, binds_cons _ _ _⟩
      · rw [Value.meets_comm, howned]
      · rw [Value.meets_comm, hmeets]

end Hop

/-! ## Chains of hops -/

/-- The joins of a chain of hops end at the rows that the chain reaches. -/
theorem mem_joined {db : Database} (column : String) :
    ∀ (hops : List Hop) (depth : Nat) {owner : String} {env : Bindings} {row : Row},
      Binds env owner row → owner ≠ hopAlias depth → owner ≠ linkAlias depth → ∀ w : Value,
        (∃ result ∈ joinSources db (sources depth owner hops).1 env,
            valueOf result ⟨(sources depth owner hops).2, column⟩ = w)
          ↔ ∃ last ∈ reached db hops row, last.get column = w
  | [], depth, owner, env, row, hrow, _, _, w => by
    simp only [sources, mem_joinSources_nil, reached, List.mem_singleton, exists_eq_left, hrow column]
  | hop :: hops, depth, owner, env, row, hrow, hhop, hlink, w => by
    obtain ⟨hreached, hfound⟩ := binds_hopSources db hop.edge hrow hhop hlink
    -- the rest of the chain starts from the alias of this hop, and its own aliases are all others
    have hrest : ∀ mid target, Binds mid (hopAlias depth) target →
        ((∃ result ∈ joinSources db (sources (depth + 1) (hopAlias depth) hops).1 mid,
            valueOf result ⟨(sources (depth + 1) (hopAlias depth) hops).2, column⟩ = w)
          ↔ ∃ last ∈ reached db hops target, last.get column = w) := fun mid target hmid =>
      mem_joined column hops (depth + 1) hmid (fun h => by have := hopAlias_inj h; omega)
        (hopAlias_ne_linkAlias _ _) w
    show (∃ result ∈ joinSources db (hopSources depth owner hop.edge
          ++ (sources (depth + 1) (hopAlias depth) hops).1) env,
        valueOf result ⟨(sources (depth + 1) (hopAlias depth) hops).2, column⟩ = w) ↔ _
    simp only [joinSources_append, reached, List.mem_flatMap]
    constructor
    · rintro ⟨result, ⟨mid, hmid, hresult⟩, hvalue⟩
      obtain ⟨target, htarget, hbinds⟩ := hreached mid hmid
      obtain ⟨last, hlast, hget⟩ := (hrest mid target hbinds).mp ⟨result, hresult, hvalue⟩
      exact ⟨last, ⟨target, htarget, hlast⟩, hget⟩
    · rintro ⟨last, ⟨target, htarget, hlast⟩, hget⟩
      obtain ⟨mid, hmid, hbinds⟩ := hfound target htarget
      obtain ⟨result, hresult, hvalue⟩ := (hrest mid target hbinds).mpr ⟨last, hlast, hget⟩
      exact ⟨result, ⟨mid, hmid, hresult⟩, hvalue⟩

/-- The key of a nested path is what comes first of the values that the path reaches. -/
theorem isFirst_keyOf {root : String} (hroot : IsOutside root) {target : Target}
    (hnested : target.isNested = true) (direction : Direction) (db : Database) (row : Row) :
    IsFirst direction ((reached db target.hops row).map (·.get target.column))
      (keyValue db root row (keyOf root target direction)) := by
  rw [keyOf, if_pos hnested]
  refine (isFirst_congr fun w => ?_).mp (isFirst_extremeOf direction _)
  rw [List.mem_map, List.mem_map]
  exact mem_joined target.column target.hops 0 (binds_cons root row []) (hroot 0).1 (hroot 0).2 w

end SortOrder

/-! ## Orders and filters -/

section Paths

variable {r : Registry} {root path : String} {target : Target}

/-- A filter for values selects the rows from which the path reaches one. -/
theorem selects_isNotNull (hpath : r.resolve root path = .ok target) :
    ∃ c, (Predicate.field path (.isNull false)).compile r root = .ok c ∧ ∀ db row,
      (selects db root c row = true
        ↔ ∃ last ∈ reached db target.hops row, last.get target.column ≠ .null) := by
  obtain ⟨c, hc⟩ : ∃ c, (Predicate.field path (.isNull false)).compile r root = .ok c := by
    rw [Predicate.compile_field hpath]
    exact ⟨_, rfl⟩
  refine ⟨c, hc, fun db row => ?_⟩
  rw [Predicate.selects_field_iff hpath rfl hc]
  refine exists_congr fun last => and_congr_right fun _ => ?_
  rw [Lookup.accepts, beq_false, Bool.not_eq_true', beq_eq_false_iff_ne]

/-- A value comes first that is not NULL just if there is one. -/
theorem Store.IsFirst.ne_null_iff {direction : Direction} {values : List Value} {v : Value}
    (h : IsFirst direction values v) : v ≠ .null ↔ ∃ w ∈ values, w ≠ .null := by
  obtain ⟨hv, hnone⟩ | ⟨hv, hmem, _⟩ := h
  · refine ⟨fun hne => absurd hv hne, ?_⟩
    rintro ⟨w, hw, hne⟩
    exact absurd (hnone w hw) hne
  · exact ⟨fun _ => ⟨v, hmem, hv⟩, fun _ => hv⟩

/-- An order by a nested path can be written in either direction.  However it is written, it sorts a row
of the root by the least or the greatest value that the path reaches from it, NULL left aside; and it
sorts it as NULL just if a filter for values does not select it. -/
theorem nested_order_isFirst (hpath : r.resolve root path = .ok target)
    (hnested : target.isNested = true) (hroot : SortOrder.IsOutside root) :
    (∀ direction, Text.trim path.toList = path.toList → path.toList.head? ≠ some '-' →
      ∃ order, SortOrder.read (SortOrder.written direction path) r root = .ok order
        ∧ order.field = path ∧ order.direction = direction)
    ∧ ∀ value order, SortOrder.read value r root = .ok order → order.field = path →
      ∃ c, (Predicate.field path (.isNull false)).compile r root = .ok c ∧ ∀ db row,
        IsFirst order.direction ((reached db target.hops row).map (·.get target.column))
            (keyValue db root row order.key)
          ∧ (keyValue db root row order.key ≠ .null ↔ selects db root c row = true) := by
  constructor
  · intro direction htrim hdash
    exact ⟨⟨path, direction, SortOrder.keyOf root target direction⟩,
      SortOrder.read_eq_ok_iff.mpr
        ⟨SortOrder.split_written htrim hdash direction, target, hpath, rfl⟩, rfl, rfl⟩
  · rintro value order hread rfl
    obtain ⟨_, found, hfound, hkey⟩ := SortOrder.read_eq_ok_iff.mp hread
    obtain rfl : found = target := Except.ok.inj (hfound.symm.trans hpath)
    obtain ⟨c, hc, hselects⟩ := selects_isNotNull hpath
    refine ⟨c, hc, fun db row => ?_⟩
    have hfirst := SortOrder.isFirst_keyOf hroot hnested order.direction db row
    rw [hkey]
    refine ⟨hfirst, ?_⟩
    rw [hfirst.ne_null_iff, hselects]
    constructor
    · rintro ⟨w, hw, hne⟩
      obtain ⟨last, hlast, rfl⟩ := List.mem_map.mp hw
      exact ⟨last, hlast, hne⟩
    · rintro ⟨last, hlast, hne⟩
      exact ⟨_, List.mem_map_of_mem hlast, hne⟩

end Paths

/-- The first question of the sample has two answers with three tags, and the second has an answer without
a tag. -/
theorem nested_order_isFirst_sample :
    ∃ order c, SortOrder.read "-answers__tags__title" Service.registry "questions" = .ok order
      ∧ (Predicate.field "answers__tags__title" (.isNull false)).compile Service.registry "questions"
          = .ok c
      ∧ IsFirst .descending [.text "urgent", .text "legacy", .text "naïve"]
          (keyValue Service.sampleDatabase "questions" (Service.sampleQuestions.getD 0 ⟨[]⟩) order.key)
      ∧ selects Service.sampleDatabase "questions" c (Service.sampleQuestions.getD 0 ⟨[]⟩) = true
      ∧ IsFirst .descending []
          (keyValue Service.sampleDatabase "questions" (Service.sampleQuestions.getD 1 ⟨[]⟩) order.key)
      ∧ selects Service.sampleDatabase "questions" c (Service.sampleQuestions.getD 1 ⟨[]⟩) = false := by
  have hpath : Service.registry.resolve "questions" "answers__tags__title" = .ok _ := rfl
  obtain ⟨hwritten, hkeys⟩ := nested_order_isFirst hpath rfl
    (SortOrder.isOutside_of_not_prefix (by decide))
  obtain ⟨order, hread, hfield, hdirection⟩ := hwritten .descending (by decide) (by decide)
  obtain ⟨c, hc, hrows⟩ := hkeys _ order hread hfield
  obtain ⟨hfirst, hselects⟩ := hrows Service.sampleDatabase (Service.sampleQuestions.getD 0 ⟨[]⟩)
  obtain ⟨hfirst', hselects'⟩ := hrows Service.sampleDatabase (Service.sampleQuestions.getD 1 ⟨[]⟩)
  rw [hdirection] at hfirst hfirst'
  refine ⟨order, c, hread, hc, hfirst, ?_, hfirst', ?_⟩
  · exact hselects.mp (hfirst.ne_null_iff.mpr ⟨.text "urgent", List.mem_cons_self, by decide⟩)
  · refine Bool.eq_false_iff.mpr fun hselected => ?_
    obtain ⟨w, hw, _⟩ := hfirst'.ne_null_iff.mp (hselects'.mpr hselected)
    cases hw

end SchemaSearch
