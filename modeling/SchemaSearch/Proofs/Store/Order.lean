import SchemaSearch.Store.Evaluation

/-!
# The order of values

Stored values are ordered without ties: of two values one sorts before the other, and only a value
itself sorts both before and behind it.  So what comes first of some values in a direction, NULL left
aside, is told by the values alone, however they are listed.  Rows are ordered by their keys, and rows
with one key are not.

Main statements: the extreme of some values comes first of them (`isFirst_extremeOf`), and sorting lists
the same rows so that each may stand in front of all behind it (`sortRows_perm`, `pairwise_sortRows`).
-/

namespace SchemaSearch

open Query Store

/-! ## The order of values -/

namespace Store.Value

theorem sortsBefore_integer (a b : Int) : (integer a).sortsBefore (integer b) = true ↔ a ≤ b :=
  decide_eq_true_iff

theorem sortsBefore_text (a b : String) : (text a).sortsBefore (text b) = true ↔ a ≤ b :=
  decide_eq_true_iff

theorem sortsBefore_blob (a b : List UInt8) : (blob a).sortsBefore (blob b) = true ↔ a ≤ b := by
  rw [sortsBefore, Bool.not_eq_true', List.lex_eq_false_iff_ge]

/-- Two values of one storage class are both NULL, or compared as what they hold. -/
theorem cases_of_rank_eq {a b : Value} (h : a.rank = b.rank) :
    (a = .null ∧ b = .null) ∨ (∃ m n, a = .integer m ∧ b = .integer n)
      ∨ (∃ s t, a = .text s ∧ b = .text t) ∨ ∃ s t, a = .blob s ∧ b = .blob t := by
  cases a with
  | null =>
    cases b with
    | null => exact .inl ⟨rfl, rfl⟩
    | integer _ | text _ | blob _ => cases h
  | integer m =>
    cases b with
    | integer n => exact .inr (.inl ⟨m, n, rfl, rfl⟩)
    | null | text _ | blob _ => cases h
  | text s =>
    cases b with
    | text t => exact .inr (.inr (.inl ⟨s, t, rfl, rfl⟩))
    | null | integer _ | blob _ => cases h
  | blob s =>
    cases b with
    | blob t => exact .inr (.inr (.inr ⟨s, t, rfl, rfl⟩))
    | null | integer _ | text _ => cases h

/-- Values of different storage classes go by their class. -/
theorem sortsBefore_of_rank_ne {a b : Value} (h : a.rank ≠ b.rank) :
    a.sortsBefore b = decide (a.rank ≤ b.rank) := by
  cases a <;> cases b <;> first | exact absurd rfl h | rfl

theorem rank_le_of_sortsBefore {a b : Value} (h : a.sortsBefore b = true) : a.rank ≤ b.rank := by
  by_cases hrank : a.rank = b.rank
  · exact Nat.le_of_eq hrank
  · rw [sortsBefore_of_rank_ne hrank] at h
    exact of_decide_eq_true h

theorem sortsBefore_total (a b : Value) : a.sortsBefore b = true ∨ b.sortsBefore a = true := by
  by_cases hrank : a.rank = b.rank
  · obtain ⟨rfl, rfl⟩ | ⟨m, n, rfl, rfl⟩ | ⟨s, t, rfl, rfl⟩ | ⟨s, t, rfl, rfl⟩ := cases_of_rank_eq hrank
    · exact .inl rfl
    · simp only [sortsBefore_integer]
      exact Int.le_total m n
    · simp only [sortsBefore_text]
      exact String.le_total s t
    · simp only [sortsBefore_blob]
      exact List.le_total s t
  · rw [sortsBefore_of_rank_ne hrank, sortsBefore_of_rank_ne (Ne.symm hrank), decide_eq_true_iff,
      decide_eq_true_iff]
    exact Nat.le_total _ _

theorem sortsBefore_antisymm {a b : Value} (hab : a.sortsBefore b = true)
    (hba : b.sortsBefore a = true) : a = b := by
  have hrank := Nat.le_antisymm (rank_le_of_sortsBefore hab) (rank_le_of_sortsBefore hba)
  obtain ⟨rfl, rfl⟩ | ⟨m, n, rfl, rfl⟩ | ⟨s, t, rfl, rfl⟩ | ⟨s, t, rfl, rfl⟩ := cases_of_rank_eq hrank
  · rfl
  · rw [sortsBefore_integer] at hab hba
    rw [Int.le_antisymm hab hba]
  · rw [sortsBefore_text] at hab hba
    rw [String.le_antisymm hab hba]
  · rw [sortsBefore_blob] at hab hba
    rw [List.le_antisymm hab hba]

theorem sortsBefore_trans {a b c : Value} (hab : a.sortsBefore b = true)
    (hbc : b.sortsBefore c = true) : a.sortsBefore c = true := by
  have hab' := rank_le_of_sortsBefore hab
  have hbc' := rank_le_of_sortsBefore hbc
  by_cases hrank : a.rank = c.rank
  · have hb : a.rank = b.rank := by omega
    obtain ⟨rfl, rfl⟩ | ⟨m, n, rfl, rfl⟩ | ⟨s, t, rfl, rfl⟩ | ⟨s, t, rfl, rfl⟩ := cases_of_rank_eq hrank
    · rfl
    · cases b with
      | integer k =>
        rw [sortsBefore_integer] at hab hbc ⊢
        exact Int.le_trans hab hbc
      | null | text _ | blob _ => cases hb
    · cases b with
      | text u =>
        rw [sortsBefore_text] at hab hbc ⊢
        exact String.le_trans hab hbc
      | null | integer _ | blob _ => cases hb
    · cases b with
      | blob u =>
        rw [sortsBefore_blob] at hab hbc ⊢
        exact List.le_trans hab hbc
      | null | integer _ | text _ => cases hb
  · rw [sortsBefore_of_rank_ne hrank, decide_eq_true_iff]
    exact Nat.le_trans hab' hbc'

end Store.Value

/-! ## What comes first -/

/-- Whether a value may stand in front of another in a direction. -/
def Query.Direction.admits (direction : Direction) (a b : Value) : Bool :=
  match direction with
  | .ascending => a.sortsBefore b
  | .descending => b.sortsBefore a

namespace Query.Direction

theorem admits_total (direction : Direction) (a b : Value) :
    direction.admits a b = true ∨ direction.admits b a = true := by
  cases direction with
  | ascending => exact Value.sortsBefore_total a b
  | descending => exact Value.sortsBefore_total b a

theorem admits_refl (direction : Direction) (a : Value) : direction.admits a a = true :=
  (direction.admits_total a a).elim id id

theorem admits_antisymm {direction : Direction} {a b : Value} (hab : direction.admits a b = true)
    (hba : direction.admits b a = true) : a = b := by
  cases direction with
  | ascending => exact Value.sortsBefore_antisymm hab hba
  | descending => exact Value.sortsBefore_antisymm hba hab

theorem admits_trans {direction : Direction} {a b c : Value} (hab : direction.admits a b = true)
    (hbc : direction.admits b c = true) : direction.admits a c = true := by
  cases direction with
  | ascending => exact Value.sortsBefore_trans hab hbc
  | descending => exact Value.sortsBefore_trans hbc hab

end Query.Direction

namespace Store

/-- What comes first of some values in a direction, NULL left aside; it is NULL if there is no other. -/
def IsFirst (direction : Direction) (values : List Value) (v : Value) : Prop :=
  (v = .null ∧ ∀ w ∈ values, w = .null)
    ∨ (v ≠ .null ∧ v ∈ values ∧ ∀ w ∈ values, w ≠ .null → direction.admits v w = true)

/-- What comes first does not depend on how the values are listed. -/
theorem isFirst_congr {direction : Direction} {values values' : List Value} {v : Value}
    (hvalues : ∀ w, w ∈ values ↔ w ∈ values') :
    IsFirst direction values v ↔ IsFirst direction values' v := by
  simp only [IsFirst, hvalues]

/-- Of two values the one is picked that may stand in front of the other. -/
theorem pick_eq (direction : Direction) (a b : Value) :
    (pick direction.extreme a b = a ∧ direction.admits a b = true)
      ∨ (pick direction.extreme a b = b ∧ direction.admits b a = true) := by
  have htotal := Value.sortsBefore_total a b
  cases direction with
  | ascending =>
    show ((if a.sortsBefore b = true then a else b) = a ∧ a.sortsBefore b = true)
      ∨ ((if a.sortsBefore b = true then a else b) = b ∧ b.sortsBefore a = true)
    split
    · rename_i h
      exact .inl ⟨rfl, h⟩
    · rename_i h
      exact .inr ⟨rfl, htotal.resolve_left h⟩
  | descending =>
    show ((if a.sortsBefore b = true then b else a) = a ∧ b.sortsBefore a = true)
      ∨ ((if a.sortsBefore b = true then b else a) = b ∧ a.sortsBefore b = true)
    split
    · rename_i h
      exact .inr ⟨rfl, h⟩
    · rename_i h
      exact .inl ⟨rfl, htotal.resolve_left h⟩

/-- The one that is picked may stand in front of both. -/
theorem admits_pick (direction : Direction) (a b : Value) :
    direction.admits (pick direction.extreme a b) a = true
      ∧ direction.admits (pick direction.extreme a b) b = true := by
  obtain ⟨h, hadmits⟩ | ⟨h, hadmits⟩ := pick_eq direction a b
  · rw [h]
    exact ⟨direction.admits_refl a, hadmits⟩
  · rw [h]
    exact ⟨hadmits, direction.admits_refl b⟩

/-- Picking along a list ends at one of its values, which may stand in front of all of them. -/
theorem foldl_pick (direction : Direction) :
    ∀ (vs : List Value) (v : Value), vs.foldl (pick direction.extreme) v ∈ v :: vs
      ∧ ∀ w ∈ v :: vs, direction.admits (vs.foldl (pick direction.extreme) v) w = true
  | [], v => by
    refine ⟨List.mem_singleton.mpr rfl, fun w hw => ?_⟩
    rw [List.mem_singleton.mp hw]
    exact direction.admits_refl v
  | u :: vs, v => by
    obtain ⟨hmem, hall⟩ := foldl_pick direction vs (pick direction.extreme v u)
    -- the final value stands in front of the first pick, and that in front of both it was picked from
    have hpicked := hall _ List.mem_cons_self
    obtain ⟨hleft, hright⟩ := admits_pick direction v u
    rw [List.foldl_cons]
    constructor
    · rcases List.mem_cons.mp hmem with h | h
      · rw [h]
        obtain ⟨h, _⟩ | ⟨h, _⟩ := pick_eq direction v u
        · rw [h]
          exact List.mem_cons_self
        · rw [h]
          exact List.mem_cons_of_mem _ List.mem_cons_self
      · exact List.mem_cons_of_mem _ (List.mem_cons_of_mem _ h)
    · intro w hw
      rcases List.mem_cons.mp hw with rfl | hw
      · exact Direction.admits_trans hpicked hleft
      · rcases List.mem_cons.mp hw with rfl | hw
        · exact Direction.admits_trans hpicked hright
        · exact hall w (List.mem_cons_of_mem _ hw)

/-- The extreme of some values comes first of them. -/
theorem isFirst_extremeOf (direction : Direction) (values : List Value) :
    IsFirst direction values (extremeOf direction.extreme values) := by
  have hkept : ∀ w, w ∈ values.filter (· != .null) ↔ w ∈ values ∧ w ≠ .null := by
    intro w
    rw [List.mem_filter, bne_iff_ne]
  unfold extremeOf
  split
  · rename_i hnone
    refine .inl ⟨rfl, fun w hw => ?_⟩
    simpa using List.filter_eq_nil_iff.mp hnone w hw
  · rename_i v vs hsome
    obtain ⟨hmem, hall⟩ := foldl_pick direction vs v
    rw [← hsome] at hmem hall
    obtain ⟨hmem, hnull⟩ := (hkept _).mp hmem
    exact .inr ⟨hnull, hmem, fun w hw hw' => hall w ((hkept w).mpr ⟨hw, hw'⟩)⟩

/-! ## Sorted rows -/

theorem sortRows_eq (db : Database) (table : String) (key : SortKey) (direction : Direction)
    (rows : List Row) :
    sortRows db table key direction rows
      = ((rows.map fun row => (keyValue db table row key, row)).mergeSort fun a b =>
          direction.admits a.1 b.1).map (·.2) := by
  cases direction with
  | ascending => rfl
  | descending => rfl

/-- Sorting loses no row and repeats none. -/
theorem sortRows_perm (db : Database) (table : String) (key : SortKey) (direction : Direction)
    (rows : List Row) : (sortRows db table key direction rows).Perm rows := by
  have hkeyed : (rows.map fun row => (keyValue db table row key, row)).map (·.2) = rows := by
    rw [List.map_map]
    exact List.map_id rows
  rw [sortRows_eq]
  exact ((List.mergeSort_perm _ _).map _).trans (List.Perm.of_eq hkeyed)

/-- A sorted row may stand in front of all rows behind it. -/
theorem pairwise_sortRows (db : Database) (table : String) (key : SortKey) (direction : Direction)
    (rows : List Row) :
    (sortRows db table key direction rows).Pairwise fun a b =>
      direction.admits (keyValue db table a key) (keyValue db table b key) = true := by
  have hsorted : ((rows.map fun row => (keyValue db table row key, row)).mergeSort fun a b =>
      direction.admits a.1 b.1).Pairwise fun a b : Value × Row => direction.admits a.1 b.1 = true := by
    apply List.pairwise_mergeSort
    · intro a b c hab hbc
      exact Direction.admits_trans hab hbc
    · intro a b
      rw [Bool.or_eq_true]
      exact direction.admits_total a.1 b.1
  -- every row that is sorted stands beside its own key
  have hkey : ∀ pair ∈ (rows.map fun row => (keyValue db table row key, row)).mergeSort
      (fun a b => direction.admits a.1 b.1), keyValue db table pair.2 key = pair.1 := by
    intro pair hpair
    obtain ⟨row, _, rfl⟩ := List.mem_map.mp (List.mem_mergeSort.mp hpair)
    rfl
  rw [sortRows_eq, List.pairwise_map]
  refine hsorted.imp_of_mem fun {a b} ha hb hadmits => ?_
  rw [hkey a ha, hkey b hb]
  exact hadmits

end Store

end SchemaSearch
