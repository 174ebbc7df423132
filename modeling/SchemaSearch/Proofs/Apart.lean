import SchemaSearch.Proofs.Outcome
import SchemaSearch.Proofs.Tables

/-!
# Lists that differ in one place

Two lists of the same length with the same items but for one place, where the items are related.  Working
item by item keeps the difference in one place; so do sieves that pass both items, and updates of a table
elsewhere than at the key whose values differ.
-/

namespace SchemaSearch

/-- Lists that agree but for one place, where their items are related. -/
inductive OneApart {α : Type} (R : α → α → Prop) : List α → List α → Prop
  | head {x y : α} (h : R x y) (rest : List α) : OneApart R (x :: rest) (y :: rest)
  | tail (a : α) {xs ys : List α} (h : OneApart R xs ys) : OneApart R (a :: xs) (a :: ys)

namespace OneApart

variable {α β : Type} {R R' : α → α → Prop} {S : β → β → Prop} {xs ys : List α}

theorem iff_exists : OneApart R xs ys ↔
    ∃ before x y after, xs = before ++ x :: after ∧ ys = before ++ y :: after ∧ R x y := by
  constructor
  · intro h
    induction h with
    | head h rest => exact ⟨[], _, _, rest, rfl, rfl, h⟩
    | tail a _ ih =>
      obtain ⟨before, x, y, after, rfl, rfl, h⟩ := ih
      exact ⟨a :: before, x, y, after, rfl, rfl, h⟩
  · rintro ⟨before, x, y, after, rfl, rfl, h⟩
    induction before with
    | nil => exact .head h after
    | cons a before ih => exact .tail a ih

theorem mono (h : OneApart R xs ys) (hsub : ∀ x y, R x y → R' x y) : OneApart R' xs ys := by
  induction h with
  | head h rest => exact .head (hsub _ _ h) rest
  | tail a _ ih => exact .tail a ih

/-- The one place, by itself. -/
theorem exists_place (h : OneApart R xs ys) : ∃ x y, R x y ∧ OneApart (fun a b => a = x ∧ b = y) xs ys := by
  induction h with
  | head h rest => exact ⟨_, _, h, .head ⟨rfl, rfl⟩ rest⟩
  | tail a _ ih =>
    obtain ⟨x, y, h, hplace⟩ := ih
    exact ⟨x, y, h, .tail a hplace⟩

theorem single {x y : α} (h : R x y) : OneApart R [x] [y] := .head h []

/-- Two items in one place of a list. -/
theorem place (before after : List α) (x y : α) :
    OneApart (fun a b => a = x ∧ b = y) (before ++ x :: after) (before ++ y :: after) :=
  iff_exists.mpr ⟨before, x, y, after, rfl, rfl, rfl, rfl⟩

theorem ne_nil (h : OneApart R xs ys) : xs ≠ [] ∧ ys ≠ [] := by
  cases h <;> exact ⟨List.cons_ne_nil _ _, List.cons_ne_nil _ _⟩

theorem length_eq (h : OneApart R xs ys) : xs.length = ys.length := by
  induction h with
  | head _ _ => rfl
  | tail a _ ih => rw [List.length_cons, List.length_cons, ih]

theorem append_right (h : OneApart R xs ys) (zs : List α) : OneApart R (xs ++ zs) (ys ++ zs) := by
  induction h with
  | head h rest => exact .head h (rest ++ zs)
  | tail a _ ih => exact .tail a ih

theorem append_left (zs : List α) (h : OneApart R xs ys) : OneApart R (zs ++ xs) (zs ++ ys) := by
  induction zs with
  | nil => exact h
  | cons z zs ih => exact .tail z ih

theorem flatMap (h : OneApart R xs ys) {f : α → List β} (hf : ∀ x y, R x y → OneApart S (f x) (f y)) :
    OneApart S (xs.flatMap f) (ys.flatMap f) := by
  induction h with
  | head h rest => exact (hf _ _ h).append_right _
  | tail a _ ih => exact ih.append_left (f a)

theorem map (h : OneApart R xs ys) {f : α → β} (hf : ∀ x y, R x y → S (f x) (f y)) :
    OneApart S (xs.map f) (ys.map f) := by
  induction h with
  | head h rest => exact .head (hf _ _ h) _
  | tail a _ ih => exact .tail (f a) ih

/-- A difference that a function does not see. -/
theorem map_eq (h : OneApart R xs ys) {f : α → β} (hf : ∀ x y, R x y → f x = f y) : xs.map f = ys.map f := by
  induction h with
  | head h rest => rw [List.map_cons, List.map_cons, hf _ _ h]
  | tail a _ ih => rw [List.map_cons, List.map_cons, ih]

/-- A sieve that passes both items. -/
theorem filter (h : OneApart R xs ys) {f : α → Bool} (hf : ∀ x y, R x y → f x = true ∧ f y = true) :
    OneApart R (xs.filter f) (ys.filter f) := by
  induction h with
  | head h rest =>
    rw [List.filter_cons_of_pos (hf _ _ h).1, List.filter_cons_of_pos (hf _ _ h).2]
    exact .head h _
  | tail a _ ih =>
    by_cases ha : f a = true
    · rw [List.filter_cons_of_pos ha, List.filter_cons_of_pos ha]
      exact .tail a ih
    · rwa [List.filter_cons_of_neg ha, List.filter_cons_of_neg ha]

/-- A sieve that passes neither item. -/
theorem filter_eq (h : OneApart R xs ys) {f : α → Bool} (hf : ∀ x y, R x y → f x = false ∧ f y = false) :
    xs.filter f = ys.filter f := by
  induction h with
  | head h rest =>
    rw [List.filter_cons_of_neg (Bool.not_eq_true _ ▸ (hf _ _ h).1),
      List.filter_cons_of_neg (Bool.not_eq_true _ ▸ (hf _ _ h).2)]
  | tail a _ ih => rw [List.filter_cons, List.filter_cons, ih]

/-- If both items can be read, and alike, the second list can be read where the first can. -/
theorem mapM {ε : Type} {read : α → Except ε β} (h : OneApart R xs ys)
    (hread : ∀ x y, R x y → ∀ b, read x = .ok b → ∃ b', read y = .ok b' ∧ S b b') {bs : List β}
    (hbs : xs.mapM read = .ok bs) : ∃ bs', ys.mapM read = .ok bs' ∧ OneApart S bs bs' := by
  induction h generalizing bs with
  | @head x y h rest =>
    obtain ⟨b, read', hb, hrest, rfl⟩ := mapM_cons_eq_ok hbs
    obtain ⟨b', hb', hS⟩ := hread x y h b hb
    refine ⟨b' :: read', ?_, .head hS read'⟩
    rw [List.mapM_cons, hb', ok_bind, hrest]
    rfl
  | @tail a xs ys _ ih =>
    obtain ⟨b, read', hb, hrest, rfl⟩ := mapM_cons_eq_ok hbs
    obtain ⟨read'', hrest', happart⟩ := ih hrest
    refine ⟨b :: read'', ?_, .tail b happart⟩
    rw [List.mapM_cons, hb, ok_bind, hrest']
    rfl

/-- Two items in one place that are read alike. -/
theorem mapM_place {ε : Type} {read : α → Except ε β} (before after : List α) {x y : α}
    (hread : ∀ {b}, read x = .ok b → ∃ b', read y = .ok b' ∧ S b b') {bs : List β}
    (hbs : (before ++ x :: after).mapM read = .ok bs) :
    ∃ bs', (before ++ y :: after).mapM read = .ok bs' ∧ OneApart S bs bs' := by
  refine (place before after x y).mapM ?_ hbs
  rintro _ _ ⟨rfl, rfl⟩ b hb
  exact hread hb

end OneApart

/-! ## Tables -/

namespace Table

variable {β : Type} {key : String} {S : β → β → Prop} {entries entries' : List (String × β)}

/-- Tables that agree but for one entry of a key, whose values are related. -/
def Apart (key : String) (S : β → β → Prop) : List (String × β) → List (String × β) → Prop :=
  OneApart fun entry entry' => entry.1 = key ∧ entry'.1 = key ∧ S entry.2 entry'.2

theorem Apart.keys (h : Apart key S entries entries') : keys entries = keys entries' :=
  h.map_eq fun _ _ hentry => hentry.1.trans hentry.2.1.symm

theorem Apart.find?_of_ne {other : String} (h : Apart key S entries entries') (hne : other ≠ key) :
    find? other entries = find? other entries' := by
  induction h with
  | @head entry entry' hentry rest =>
    obtain ⟨k, v⟩ := entry
    obtain ⟨k', v'⟩ := entry'
    obtain ⟨rfl, rfl, _⟩ := hentry
    rw [find?, find?, if_neg hne.symm, if_neg hne.symm]
  | tail entry _ ih =>
    obtain ⟨k, v⟩ := entry
    rw [find?, find?, ih]

/-- Where no key comes twice, the key is found with the related values. -/
theorem Apart.find?_self (h : Apart key S entries entries') (hnodup : (Table.keys entries).Nodup) :
    ∃ v v', find? key entries = some v ∧ find? key entries' = some v' ∧ S v v' := by
  induction h with
  | @head entry entry' hentry rest =>
    obtain ⟨k, v⟩ := entry
    obtain ⟨k', v'⟩ := entry'
    obtain ⟨rfl, rfl, hS⟩ := hentry
    exact ⟨v, v', if_pos rfl, if_pos rfl, hS⟩
  | @tail entry xs ys h ih =>
    obtain ⟨k, v⟩ := entry
    obtain ⟨hk, hnodup⟩ := List.nodup_cons.mp hnodup
    obtain ⟨found, found', hfound, hfound', hS⟩ := ih hnodup
    have hne : k ≠ key := fun hkey => hk (hkey ▸ mem_keys_of_mem (mem_of_find? hfound))
    exact ⟨found, found', by rw [find?, if_neg hne, hfound], by rw [find?, if_neg hne, hfound'], hS⟩

/-- An update that keeps related values related keeps the difference, whatever key it is of. -/
theorem Apart.upsert (h : Apart key S entries entries') (other : String) {change : β → β}
    (hchange : other = key → ∀ v v', S v v' → S (change v) (change v')) (fresh : β) :
    Apart key S (upsert other change fresh entries) (Table.upsert other change fresh entries') := by
  induction h with
  | @head entry entry' hentry rest =>
    obtain ⟨k, v⟩ := entry
    obtain ⟨k', v'⟩ := entry'
    obtain ⟨rfl, rfl, hS⟩ := hentry
    by_cases hother : k' = other
    · rw [Table.upsert, Table.upsert, if_pos hother, if_pos hother]
      exact .head ⟨rfl, rfl, hchange hother.symm _ _ hS⟩ rest
    · rw [Table.upsert, Table.upsert, if_neg hother, if_neg hother]
      exact .head ⟨rfl, rfl, hS⟩ _
  | @tail entry xs ys h ih =>
    obtain ⟨k, v⟩ := entry
    by_cases hother : k = other
    · rw [Table.upsert, Table.upsert, if_pos hother, if_pos hother]
      exact .tail _ h
    · rw [Table.upsert, Table.upsert, if_neg hother, if_neg hother]
      exact .tail _ ih

/-- Two updates of one table that make related values of each. -/
theorem apart_upsert (entries : List (String × β)) {change change' : β → β} {fresh fresh' : β}
    (hchange : ∀ v, S (change v) (change' v)) (hfresh : S fresh fresh') :
    Apart key S (upsert key change fresh entries) (upsert key change' fresh' entries) := by
  induction entries with
  | nil => exact .single ⟨rfl, rfl, hfresh⟩
  | cons entry rest ih =>
    obtain ⟨k, v⟩ := entry
    by_cases hk : k = key
    · rw [upsert, upsert, if_pos hk, if_pos hk]
      exact .head ⟨hk, hk, hchange v⟩ rest
    · rw [upsert, upsert, if_neg hk, if_neg hk]
      exact .tail _ ih

end Table

end SchemaSearch
