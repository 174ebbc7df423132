/-!
# Outcomes

Computations that may fail, read backwards: what has to have gone well for a whole to have gone well.
-/

namespace SchemaSearch

variable {ε α β γ : Type}

theorem ok_bind (a : α) (f : α → Except ε β) : (Except.ok a >>= f) = f a := rfl

/-- A computation that goes on after a first step has passed it. -/
theorem bind_eq_ok {x : Except ε α} {f : α → Except ε β} {b : β} (h : (x >>= f) = .ok b) :
    ∃ a, x = .ok a ∧ f a = .ok b := by
  cases x with
  | error e => cases h
  | ok a => exact ⟨a, rfl, h⟩

/-- A computation that has no result has an error. -/
theorem exists_error {x : Except ε α} (h : ∀ a, x ≠ .ok a) : ∃ error, x = .error error := by
  cases x with
  | error error => exact ⟨error, rfl⟩
  | ok a => exact absurd rfl (h a)

/-- A computation that fails in two steps fails in one of them. -/
theorem bind_eq_error {x : Except ε α} {f : α → Except ε β} {e : ε} (h : (x >>= f) = .error e) :
    x = .error e ∨ ∃ a, x = .ok a ∧ f a = .error e := by
  cases x with
  | error e' =>
    cases h
    exact .inl rfl
  | ok a => exact .inr ⟨a, rfl, h⟩

theorem map_eq_ok {x : Except ε α} {f : α → β} {b : β} (h : f <$> x = .ok b) :
    ∃ a, x = .ok a ∧ f a = b := by
  cases x with
  | error e => cases h
  | ok a =>
    cases h
    exact ⟨a, rfl, rfl⟩

theorem isOk_iff {x : Except ε α} : x.isOk = true ↔ ∃ a, x = .ok a := by
  cases x with
  | error e => simp [Except.isOk, Except.toBool]
  | ok a => simp [Except.isOk, Except.toBool]

/-- Two computations whose results are put together go well if each does. -/
theorem isOk_bind_bind (x : Except ε α) (y : Except ε β) (f : α → β → γ) :
    (x >>= fun a => y >>= fun b => .ok (f a b)).isOk = (x.isOk && y.isOk) := by
  cases x with
  | error e => rfl
  | ok a => cases y <;> rfl

/-! ## Steps along a list -/

section Steps

variable {step : β → α → Except ε β}

/-- What every step keeps, all of them keep. -/
theorem foldlM_invariant {P : β → Prop} :
    ∀ {as : List α} {b b' : β}, (∀ a ∈ as, ∀ b b', P b → step b a = .ok b' → P b') → P b →
      as.foldlM step b = .ok b' → P b'
  | [], b, b', _, hb, h => by
    rw [List.foldlM_nil] at h
    cases h
    exact hb
  | a :: as, b, b', hstep, hb, h => by
    rw [List.foldlM_cons] at h
    obtain ⟨next, hnext, h⟩ := bind_eq_ok h
    refine foldlM_invariant (fun x hx => hstep x (List.mem_cons_of_mem _ hx)) ?_ h
    exact hstep a List.mem_cons_self b next hb hnext

/-- If all steps go well, each does. -/
theorem step_of_foldlM {a : α} :
    ∀ {as : List α} {b b' : β}, a ∈ as → as.foldlM step b = .ok b' → ∃ c c', step c a = .ok c'
  | x :: as, b, b', ha, h => by
    rw [List.foldlM_cons] at h
    obtain ⟨next, hnext, h⟩ := bind_eq_ok h
    rcases List.mem_cons.mp ha with rfl | ha
    · exact ⟨b, next, hnext⟩
    · exact step_of_foldlM ha h

/-- If no step can fail, all of them go well. -/
theorem exists_foldlM :
    ∀ {as : List α}, (∀ a ∈ as, ∀ b, ∃ b', step b a = .ok b') → ∀ b, ∃ b', as.foldlM step b = .ok b'
  | [], _, b => ⟨b, rfl⟩
  | a :: as, h, b => by
    obtain ⟨next, hnext⟩ := h a List.mem_cons_self b
    rw [List.foldlM_cons, hnext, ok_bind]
    exact exists_foldlM (fun x hx => h x (List.mem_cons_of_mem _ hx)) next

end Steps

/-! ## Readings of a list -/

section Readings

variable {read : α → Except ε β}

theorem mapM_cons_eq_ok {a : α} {as : List α} {bs : List β} (h : (a :: as).mapM read = .ok bs) :
    ∃ b rest, read a = .ok b ∧ as.mapM read = .ok rest ∧ bs = b :: rest := by
  rw [List.mapM_cons] at h
  obtain ⟨b, hb, h⟩ := bind_eq_ok h
  obtain ⟨rest, hrest, h⟩ := bind_eq_ok h
  cases h
  exact ⟨b, rest, hb, hrest, rfl⟩

/-- If a list can be read, each of its items can. -/
theorem exists_of_mapM {a : α} :
    ∀ {as : List α} {bs : List β}, a ∈ as → as.mapM read = .ok bs → ∃ b, read a = .ok b
  | x :: as, bs, ha, h => by
    obtain ⟨b, rest, hb, hrest, _⟩ := mapM_cons_eq_ok h
    rcases List.mem_cons.mp ha with rfl | ha
    · exact ⟨b, hb⟩
    · exact exists_of_mapM ha hrest

/-- All that is read is the reading of some item. -/
theorem exists_mem_of_mapM {b : β} :
    ∀ {as : List α} {bs : List β}, as.mapM read = .ok bs → b ∈ bs → ∃ a ∈ as, read a = .ok b
  | [], bs, h, hb => by
    rw [List.mapM_nil] at h
    cases h
    cases hb
  | a :: as, bs, h, hb => by
    obtain ⟨first, rest, hfirst, hrest, rfl⟩ := mapM_cons_eq_ok h
    rcases List.mem_cons.mp hb with rfl | hb
    · exact ⟨a, List.mem_cons_self, hfirst⟩
    · obtain ⟨x, hx, hread⟩ := exists_mem_of_mapM hrest hb
      exact ⟨x, List.mem_cons_of_mem a hx, hread⟩

/-- If each item can be read, the list can. -/
theorem exists_mapM :
    ∀ {as : List α}, (∀ a ∈ as, ∃ b, read a = .ok b) → ∃ bs, as.mapM read = .ok bs
  | [], _ => ⟨[], rfl⟩
  | a :: as, h => by
    obtain ⟨b, hb⟩ := h a List.mem_cons_self
    obtain ⟨bs, hbs⟩ := exists_mapM fun a' ha' => h a' (List.mem_cons_of_mem _ ha')
    refine ⟨b :: bs, ?_⟩
    rw [List.mapM_cons, hb, ok_bind, hbs]
    rfl

/-- If each item is read as itself, so is the list. -/
theorem mapM_eq_self {read : α → Except ε α} :
    ∀ {as : List α}, (∀ a ∈ as, read a = .ok a) → as.mapM read = .ok as
  | [], _ => rfl
  | a :: as, h => by
    rw [List.mapM_cons, h a List.mem_cons_self, ok_bind,
      mapM_eq_self fun a' ha' => h a' (List.mem_cons_of_mem _ ha')]
    rfl

/-- If reading keeps what `f` asks, a list of readings is asked what the list itself is. -/
theorem any_of_mapM {f : β → Bool} {g : α → Bool} (hread : ∀ a b, read a = .ok b → f b = g a) :
    ∀ {as : List α} {bs : List β}, as.mapM read = .ok bs → bs.any f = as.any g
  | [], bs, h => by
    rw [List.mapM_nil] at h
    cases h
    rfl
  | a :: as, bs, h => by
    obtain ⟨b, rest, hb, hrest, rfl⟩ := mapM_cons_eq_ok h
    rw [List.any_cons, List.any_cons, hread a b hb, any_of_mapM hread hrest]

/-- The last of some readings is the reading of the last. -/
theorem getLast?_of_mapM :
    ∀ {as : List α} {bs : List β}, as.mapM read = .ok bs →
      (as = [] ∧ bs = []) ∨ ∃ a b, as.getLast? = some a ∧ bs.getLast? = some b ∧ read a = .ok b
  | [], bs, h => by
    rw [List.mapM_nil] at h
    cases h
    exact .inl ⟨rfl, rfl⟩
  | a :: as, bs, h => by
    obtain ⟨b, rest, hb, hrest, rfl⟩ := mapM_cons_eq_ok h
    rcases getLast?_of_mapM hrest with ⟨rfl, rfl⟩ | ⟨x, y, hx, hy, hxy⟩
    · exact .inr ⟨a, b, rfl, rfl, hb⟩
    · refine .inr ⟨x, y, ?_, ?_, hxy⟩
      · rw [List.getLast?_cons, hx]
        rfl
      · rw [List.getLast?_cons, hy]
        rfl

end Readings

/-! ## The first failure -/

section First

variable {read : α → Except ε β} {as bs : List α} {e : ε}

/-- The error of the first item that has one: those in front of it can be read. -/
inductive FirstError (read : α → Except ε β) : List α → ε → Prop
  | here {a : α} {as : List α} {e : ε} (h : read a = .error e) : FirstError read (a :: as) e
  | later {a : α} {as : List α} {e : ε} {b : β} (h : read a = .ok b) (hrest : FirstError read as e) :
    FirstError read (a :: as) e

namespace FirstError

theorem append_left (h : FirstError read as e) (bs : List α) : FirstError read (as ++ bs) e := by
  induction h with
  | here h => exact .here h
  | later h _ ih => exact .later h ih

theorem append_right (has : ∀ a ∈ as, ∃ b, read a = .ok b) (h : FirstError read bs e) :
    FirstError read (as ++ bs) e := by
  induction as with
  | nil => exact h
  | cons a as ih =>
    obtain ⟨b, hb⟩ := has a List.mem_cons_self
    exact .later hb (ih fun a' ha' => has a' (List.mem_cons_of_mem a ha'))

/-- A list cannot be read because of the first item that cannot. -/
theorem of_mapM : ∀ {as : List α}, as.mapM read = .error e → FirstError read as e
  | [], h => by
    rw [List.mapM_nil] at h
    cases h
  | a :: as, h => by
    rw [List.mapM_cons] at h
    rcases bind_eq_error h with h | ⟨b, hb, h⟩
    · exact .here h
    · rcases bind_eq_error h with h | ⟨rest, _, h⟩
      · exact .later hb (of_mapM h)
      · cases h

theorem exists_mem (h : FirstError read as e) : ∃ a ∈ as, read a = .error e := by
  induction h with
  | here h => exact ⟨_, List.mem_cons_self, h⟩
  | later _ _ ih =>
    obtain ⟨a, ha, h⟩ := ih
    exact ⟨a, List.mem_cons_of_mem _ ha, h⟩

end FirstError

end First

/-! ## Why a computation fails -/

/-- A computation has a result, or an error of some kind. -/
def FailsOnly (P : ε → Prop) (x : Except ε α) : Prop := ∀ error, x = .error error → P error

namespace FailsOnly

variable {P : ε → Prop} {x : Except ε α}

theorem ok (a : α) : FailsOnly P (.ok a : Except ε α) := fun _ h => by cases h

theorem error {e : ε} (h : P e) : FailsOnly P (.error e : Except ε α) := by
  intro e' he'
  cases he'
  exact h

theorem mono {Q : ε → Prop} (h : FailsOnly P x) (hsub : ∀ e, P e → Q e) : FailsOnly Q x :=
  fun e he => hsub e (h e he)

theorem bind {f : α → Except ε β} (hx : FailsOnly P x) (hf : ∀ a, x = .ok a → FailsOnly P (f a)) :
    FailsOnly P (x >>= f) := by
  intro e h
  cases hcase : x with
  | error e' =>
    rw [hcase] at h
    cases h
    exact hx e hcase
  | ok a =>
    rw [hcase] at h
    exact hf a hcase e h

theorem map {f : α → β} (hx : FailsOnly P x) : FailsOnly P (f <$> x) := by
  intro e h
  cases hcase : x with
  | error e' =>
    rw [hcase] at h
    cases h
    exact hx e hcase
  | ok a =>
    rw [hcase] at h
    cases h

theorem mapM {read : α → Except ε β} :
    ∀ {as : List α}, (∀ a ∈ as, FailsOnly P (read a)) → FailsOnly P (as.mapM read)
  | [], _ => ok []
  | a :: as, h => by
    rw [List.mapM_cons]
    apply (h a List.mem_cons_self).bind
    intro b _
    apply (mapM fun a' ha' => h a' (List.mem_cons_of_mem _ ha')).bind
    intro rest _
    exact ok (b :: rest)

theorem foldlM {step : β → α → Except ε β} :
    ∀ {as : List α}, (∀ a ∈ as, ∀ b, FailsOnly P (step b a)) → ∀ b, FailsOnly P (as.foldlM step b)
  | [], _, b => ok b
  | a :: as, h, b => by
    rw [List.foldlM_cons]
    apply (h a List.mem_cons_self b).bind
    intro next _
    exact foldlM (fun a' ha' => h a' (List.mem_cons_of_mem _ ha')) next

end FailsOnly

end SchemaSearch
