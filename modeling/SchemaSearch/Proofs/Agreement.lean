import SchemaSearch.Proofs.Outcome

/-!
# Computations side by side

Two computations agree if both have results, and the results are related, or if both fail.  What agrees
step by step agrees as a whole; and a list that is read item by item fails or not whatever the order of
its items.
-/

namespace SchemaSearch

variable {ε α β γ δ κ : Type}

/-- Two computations have related results, or both fail. -/
inductive Agree (R : α → β → Prop) : Except ε α → Except ε β → Prop
  | ok {a : α} {b : β} (h : R a b) : Agree R (.ok a) (.ok b)
  | error (e e' : ε) : Agree R (.error e) (.error e')

namespace Agree

variable {R : α → β → Prop} {x : Except ε α} {y : Except ε β}

/-- A computation agrees with itself if its results are related to themselves. -/
theorem refl {R : α → α → Prop} (h : ∀ a, R a a) (x : Except ε α) : Agree R x x := by
  cases x with
  | error e => exact .error e e
  | ok a => exact .ok (h a)

theorem mono {S : α → β → Prop} (h : Agree R x y) (hsub : ∀ a b, R a b → S a b) : Agree S x y := by
  cases h with
  | error e e' => exact .error e e'
  | ok hab => exact .ok (hsub _ _ hab)

theorem symm {R : α → α → Prop} (hsymm : ∀ a b, R a b → R b a) {y : Except ε α} (h : Agree R x y) :
    Agree R y x := by
  cases h with
  | error e e' => exact .error e' e
  | ok hab => exact .ok (hsymm _ _ hab)

theorem trans {S : β → γ → Prop} {z : Except ε γ} (h : Agree R x y) (h' : Agree S y z) :
    Agree (fun a c => ∃ b, R a b ∧ S b c) x z := by
  cases h with
  | error e e' =>
    cases h'
    exact .error _ _
  | ok hab =>
    cases h' with
    | ok hbc => exact .ok ⟨_, hab, hbc⟩

theorem self (x : Except ε α) : Agree Eq x x := refl Eq.refl x

theorem eq_trans {z : Except ε α} (h : Agree Eq x z) (h' : Agree R z y) : Agree R x y := by
  apply (h.trans h').mono
  rintro a b ⟨_, rfl, hab⟩
  exact hab

/-- Of two computations that do not depend on each other either may come first. -/
theorem comm (x : Except ε α) (y : Except ε β) (f : α → β → Except ε γ) :
    Agree Eq (x >>= fun a => y >>= f a) (y >>= fun b => x >>= fun a => f a b) := by
  cases x with
  | error e =>
    cases y <;> exact .error _ _
  | ok a =>
    cases y with
    | error e => exact .error _ _
    | ok b => exact self (f a b)

/-- Computations that agree may be gone on with by steps that agree. -/
theorem bind {S : γ → δ → Prop} {f : α → Except ε γ} {g : β → Except ε δ} (h : Agree R x y)
    (hstep : ∀ a b, R a b → Agree S (f a) (g b)) : Agree S (x >>= f) (y >>= g) := by
  cases h with
  | error e e' => exact .error e e'
  | ok hab => exact hstep _ _ hab

/-- What agrees either has two results or two errors. -/
theorem cases_ok_error (h : Agree R x y) :
    (∃ a b, x = .ok a ∧ y = .ok b ∧ R a b) ∨ ∃ e e', x = .error e ∧ y = .error e' := by
  cases h with
  | error e e' => exact .inr ⟨e, e', rfl, rfl⟩
  | ok hab => exact .inl ⟨_, _, rfl, rfl, hab⟩

/-- Steps that agree along a list agree as a whole. -/
theorem foldlM {step : α → κ → Except ε α} {step' : β → κ → Except ε β} :
    ∀ {ks : List κ} {a : α} {b : β},
      (∀ k ∈ ks, ∀ a b, R a b → Agree R (step a k) (step' b k)) → R a b →
        Agree R (ks.foldlM step a) (ks.foldlM step' b)
  | [], a, b, _, hab => .ok hab
  | k :: ks, a, b, hstep, hab => by
    rw [List.foldlM_cons, List.foldlM_cons]
    apply (hstep k List.mem_cons_self a b hab).bind
    intro a' b' hab'
    exact foldlM (fun k' hk' => hstep k' (List.mem_cons_of_mem _ hk')) hab'

end Agree

/-! ## Gathering -/

section Gathering

/-- What the items of a list give, one after another. -/
def gather (f : κ → Except ε (List α)) : List κ → Except ε (List α)
  | [] => .ok []
  | k :: ks => do
    let first ← f k
    let rest ← gather f ks
    .ok (first ++ rest)

theorem gather_map {ι : Type} (f : κ → Except ε (List α)) (h : ι → κ) (is : List ι) :
    gather f (is.map h) = gather (fun i => f (h i)) is := by
  induction is with
  | nil => rfl
  | cons i is ih => rw [List.map_cons, gather, gather, ih]

/-- Items may all be read before what they stand for is gathered. -/
theorem agree_mapM_gather {ι : Type} (read : ι → Except ε κ) (f : κ → Except ε (List α)) (is : List ι) :
    Agree Eq (is.mapM read >>= gather f) (gather (fun i => read i >>= f) is) := by
  induction is with
  | nil => exact .ok rfl
  | cons i is ih =>
    simp only [List.mapM_cons, gather, bind_assoc, pure_bind]
    apply (Agree.self (read i)).bind
    rintro k _ rfl
    -- the items behind may be read after what this one stands for
    apply (Agree.comm (is.mapM read) (f k) _).eq_trans
    apply (Agree.self (f k)).bind
    rintro first _ rfl
    rw [← bind_assoc]
    apply ih.bind
    rintro rest _ rfl
    exact .ok rfl

/-- Readings are gathered one by one. -/
theorem mapM_eq_gather (read : κ → Except ε α) (ks : List κ) :
    ks.mapM read = gather (fun k => (fun a => [a]) <$> read k) ks := by
  induction ks with
  | nil => rfl
  | cons k ks ih =>
    rw [List.mapM_cons, gather, ih]
    cases read k <;> rfl

/-- Two lists are the same up to their order, as far as a view of their items goes. -/
def SameBag (view : α → β) (as bs : List α) : Prop := (as.map view).Perm (bs.map view)

variable {view : α → β}

theorem SameBag.append {as as' bs bs' : List α} (h : SameBag view as as') (h' : SameBag view bs bs') :
    SameBag view (as ++ bs) (as' ++ bs') := by
  unfold SameBag
  rw [List.map_append, List.map_append]
  exact List.Perm.append h h'

theorem SameBag.trans {as bs cs : List α} (h : SameBag view as bs) (h' : SameBag view bs cs) :
    SameBag view as cs := List.Perm.trans h h'

theorem SameBag.of_perm {as bs : List α} (h : as.Perm bs) : SameBag view as bs := h.map view

/-- What two readings give is related as a whole if it is item by item. -/
theorem gather_congr {R : List α → List β → Prop} (hnil : R [] [])
    (happend : ∀ {as bs as' bs'}, R as bs → R as' bs' → R (as ++ as') (bs ++ bs'))
    {f : κ → Except ε (List α)} {g : κ → Except ε (List β)} :
    ∀ {ks : List κ}, (∀ k ∈ ks, Agree R (f k) (g k)) → Agree R (gather f ks) (gather g ks)
  | [], _ => .ok hnil
  | k :: ks, h => by
    apply (h k List.mem_cons_self).bind
    intro first first' hfirst
    apply (gather_congr hnil happend fun k' hk' => h k' (List.mem_cons_of_mem _ hk')).bind
    intro rest rest' hrest
    exact .ok (happend hfirst hrest)

/-- The order of the items does not matter, neither for what they give nor for whether they do. -/
theorem gather_perm (f : κ → Except ε (List α)) {ks ks' : List κ} (h : ks.Perm ks') :
    Agree List.Perm (gather f ks) (gather f ks') := by
  induction h with
  | nil => exact .ok (.refl _)
  | cons k _ ih =>
    apply (Agree.refl List.Perm.refl (f k)).bind
    intro first first' hfirst
    apply ih.bind
    intro rest rest' hrest
    exact .ok (hfirst.append hrest)
  | swap k k' ks =>
    simp only [gather, bind_assoc, ok_bind]
    -- the first two readings change places, the results only their order
    apply (Agree.comm (f k') (f k) _).eq_trans
    apply (Agree.self (f k)).bind
    rintro as _ rfl
    apply (Agree.self (f k')).bind
    rintro bs _ rfl
    apply (Agree.self (gather f ks)).bind
    rintro rest _ rfl
    apply Agree.ok
    rw [← List.append_assoc, ← List.append_assoc]
    exact List.perm_append_comm.append_right rest
  | trans _ _ ih ih' =>
    apply (ih.trans ih').mono
    rintro as cs ⟨bs, hab, hbc⟩
    exact hab.trans hbc

theorem mapM_perm (read : κ → Except ε α) {ks ks' : List κ} (h : ks.Perm ks') :
    Agree List.Perm (ks.mapM read) (ks'.mapM read) := by
  rw [mapM_eq_gather, mapM_eq_gather]
  exact gather_perm _ h

end Gathering

end SchemaSearch
