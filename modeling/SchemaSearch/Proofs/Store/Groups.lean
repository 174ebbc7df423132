import SchemaSearch.Store.Plan

/-!
# Groups of conditions

What groups and memberships are worth under three truth values.  Truths that are known combine like
booleans, so a group of known conditions is known; a membership of a value that is not NULL among keys
that are not NULL is known too.
-/

namespace SchemaSearch

open Query Store

/-- Whether two keys meet: NULL meets nothing. -/
def Store.Value.meets (a b : Value) : Bool := a != .null && a == b

/-! ## Keys -/

namespace Store.Value

theorem meets_null (a : Value) : a.meets .null = false := by
  cases a <;> rfl

theorem meets_eq_beq {a : Value} (ha : a ≠ .null) (b : Value) : a.meets b = (a == b) := by
  simp [meets, ha]

theorem compareBy_eq_ofBool (test : Value → Value → Bool) {a b : Value} (ha : a ≠ .null)
    (hb : b ≠ .null) : compareBy test a b = .ofBool (test a b) := by
  cases a <;> cases b <;> first | exact absurd rfl ha | exact absurd rfl hb | rfl

theorem equals_eq_ofBool {a b : Value} (ha : a ≠ .null) (hb : b ≠ .null) :
    a.equals b = .ofBool (a == b) := compareBy_eq_ofBool _ ha hb

theorem holds_equals (a b : Value) : (a.equals b).holds = a.meets b := by
  by_cases ha : a = .null
  · subst ha
    cases b <;> rfl
  · by_cases hb : b = .null
    · subst hb
      cases a <;> rfl
    · rw [equals_eq_ofBool ha hb, Truth.holds_ofBool, meets_eq_beq ha]

end Store.Value

/-! ## Groups of truths -/

namespace Store.Truth

theorem all_map_ofBool (bs : List Bool) : all (bs.map ofBool) = ofBool (bs.all id) := by
  induction bs with
  | nil => rfl
  | cons b bs ih =>
    simp only [all] at ih
    simp only [all, List.map_cons, List.foldr_cons, ih, and_ofBool, List.all_cons, id]

theorem any_map_ofBool (bs : List Bool) : any (bs.map ofBool) = ofBool (bs.any id) := by
  induction bs with
  | nil => rfl
  | cons b bs ih =>
    simp only [any] at ih
    simp only [any, List.map_cons, List.foldr_cons, ih, or_ofBool, List.any_cons, id]

theorem holds_any (ts : List Truth) : (any ts).holds = ts.any holds := by
  induction ts with
  | nil => rfl
  | cons t ts ih =>
    simp only [any] at ih
    simp only [any, List.foldr_cons, holds_or, ih, List.any_cons]

theorem and_true (t : Truth) : t.and .true = t := by cases t <;> rfl

theorem true_and (t : Truth) : Truth.true.and t = t := by cases t <;> rfl

theorem or_false (t : Truth) : t.or .false = t := by cases t <;> rfl

theorem and_assoc (t u v : Truth) : (t.and u).and v = t.and (u.and v) := by
  cases t <;> cases u <;> cases v <;> rfl

theorem all_append (ts us : List Truth) : all (ts ++ us) = (all ts).and (all us) := by
  induction ts with
  | nil => exact (true_and _).symm
  | cons t ts ih =>
    simp only [all] at ih
    simp only [all, List.cons_append, List.foldr_cons, ih, and_assoc]

end Store.Truth

/-! ## Memberships among keys -/

namespace Store.Value

theorem holds_isAmong (x : Value) (keys : List Value) : (x.isAmong keys).holds = keys.any x.meets := by
  rw [isAmong, Truth.holds_any, List.any_map]
  exact congrArg keys.any (funext fun key => holds_equals x key)

/-- Among keys that are not NULL, a value that is not NULL is or is not. -/
theorem isAmong_eq_ofBool {x : Value} {keys : List Value} (hx : x ≠ .null)
    (hkeys : ∀ key ∈ keys, key ≠ .null) : x.isAmong keys = .ofBool (keys.any x.meets) := by
  have hequals : keys.map x.equals = (keys.map x.meets).map Truth.ofBool := by
    rw [List.map_map]
    refine List.map_congr_left fun key hkey => ?_
    rw [equals_eq_ofBool hx (hkeys key hkey), ← meets_eq_beq hx]
    rfl
  rw [isAmong, hequals, Truth.any_map_ofBool, List.any_map]
  rfl

end Store.Value

/-! ## Groups of conditions -/

namespace Store

variable (db : Database) (env : Bindings)

theorem truths_eq_map (cs : List Condition) : truths db env cs = cs.map (truth db env) := by
  induction cs with
  | nil => rfl
  | cons c cs ih => rw [truths, ih, List.map_cons]

/-- A group of one item is worth what the item is worth. -/
theorem truth_asItem (c : Condition) : truth db env c.asItem = truth db env c := by
  unfold Condition.asItem
  split
  · rename_i joint item
    cases joint
    · exact (Truth.and_true _).symm
    · exact (Truth.or_false _).symm
  · rfl

theorem map_truth_asItem (cs : List Condition) :
    (cs.map Condition.asItem).map (truth db env) = cs.map (truth db env) := by
  rw [List.map_map]
  exact List.map_congr_left fun c _ => truth_asItem db env c

theorem truth_all (cs : List Condition) :
    truth db env (.all cs) = .all (cs.map (truth db env)) := by
  rw [Condition.all, truth, truths_eq_map, map_truth_asItem]
  rfl

theorem truth_any (cs : List Condition) :
    truth db env (.any cs) = .any (cs.map (truth db env)) := by
  rw [Condition.any, truth, truths_eq_map, map_truth_asItem]
  rfl

theorem truth_not (c : Condition) : truth db env c.not = (truth db env c).not := by
  rw [Condition.not, truth, truths, truths, truth_asItem]
  exact congrArg Truth.not (Truth.and_true _)

theorem all_conjuncts (c : Condition) :
    Truth.all (c.conjuncts.map (truth db env)) = truth db env c := by
  unfold Condition.conjuncts
  split
  · rw [truth, truths_eq_map]
    rfl
  · rw [List.map_singleton, truth_asItem]
    exact Truth.and_true _

theorem truth_and (c extra : Condition) :
    truth db env (c.and extra) = (truth db env c).and (truth db env extra) := by
  rw [Condition.and, truth, truths_eq_map, List.map_append]
  show Truth.all _ = _
  rw [Truth.all_append, all_conjuncts, List.map_singleton, truth_asItem]
  exact congrArg _ (Truth.and_true _)

theorem truth_merge (c extra : Condition) :
    truth db env (c.merge extra) = (truth db env c).and (truth db env extra) := by
  rw [Condition.merge, truth, truths_eq_map, List.map_append]
  show Truth.all _ = _
  rw [Truth.all_append, all_conjuncts, all_conjuncts]

theorem valueOf_head (table name : String) (row : Row) :
    valueOf ((table, row) :: env) ⟨table, name⟩ = row.get name := valueOf_cons table row env rfl

theorem truth_isNotNull (c : Column) :
    truth db env (.test (.isNotNull c)) = .ofBool (valueOf env c != .null) := rfl

theorem truth_isNull (c : Column) :
    truth db env (.test (.isNull c)) = .ofBool (valueOf env c == .null) := rfl

/-! ## Memberships -/

section Membership

variable {db} {key : Column} {rows : Condition} {good : Row → Bool}

/-- The keys that a membership looks among: none is NULL if the rows are asked for that, and a value
meets one of them where it meets the key of a good row. -/
theorem keys_of_rows (hrows : ∀ row env, (truth db ((key.table, row) :: env) rows).holds
      = (row.get key.name != .null && good row)) (env : Bindings) :
    let keys := ((db.rows key.table).filter fun row =>
        (truth db ((key.table, row) :: env) rows).holds).map
      fun row => valueOf ((key.table, row) :: env) key
    (∀ k ∈ keys, k ≠ .null)
      ∧ ∀ v : Value, keys.any v.meets
          = (db.rows key.table).any fun row => v.meets (row.get key.name) && good row := by
  simp only [hrows, valueOf_head env key.table key.name]
  constructor
  · intro k hk
    obtain ⟨row, hrow, rfl⟩ := List.mem_map.mp hk
    have hgood := (List.mem_filter.mp hrow).2
    rw [Bool.and_eq_true, bne_iff_ne] at hgood
    exact hgood.1
  · intro v
    rw [List.any_map, List.any_filter]
    refine congrArg (db.rows key.table).any (funext fun row => ?_)
    by_cases hnull : row.get key.name = .null
    · -- nothing meets NULL, so it does not matter that the row is left out
      simp [hnull, Value.meets_null]
    · have hkey : (row.get key.name != .null) = true := bne_iff_ne.mpr hnull
      show ((row.get key.name != .null && good row) && v.meets (row.get key.name)) = _
      rw [hkey, Bool.true_and, Bool.and_comm]

/-- A membership holds where the value meets the key of a good row. -/
theorem holds_within (hrows : ∀ row env, (truth db ((key.table, row) :: env) rows).holds
      = (row.get key.name != .null && good row)) (env : Bindings) (column : Column) :
    (truth db env (.within column false key rows)).holds
      = (db.rows key.table).any fun row => (valueOf env column).meets (row.get key.name) && good row := by
  rw [truth, membershipTruth, if_neg Bool.false_ne_true, Value.holds_isAmong]
  exact (keys_of_rows hrows env).2 _

/-- A membership of a value that is not NULL is known. -/
theorem truth_within (hrows : ∀ row env, (truth db ((key.table, row) :: env) rows).holds
      = (row.get key.name != .null && good row)) {env : Bindings} {column : Column}
    (hv : valueOf env column ≠ .null) (negated : Bool) :
    truth db env (.within column negated key rows)
      = .ofBool (negated != (db.rows key.table).any fun row =>
          (valueOf env column).meets (row.get key.name) && good row) := by
  obtain ⟨hkeys, hany⟩ := keys_of_rows hrows env
  rw [truth, membershipTruth, Value.isAmong_eq_ofBool hv hkeys, hany]
  cases negated with
  | false => rw [if_neg Bool.false_ne_true, Bool.false_bne]
  | true => rw [if_pos rfl, Truth.not_ofBool, Bool.true_bne]

end Membership

end Store

end SchemaSearch
