import SchemaSearch.Proofs.Outcome
import SchemaSearch.Search.DateBounds

/-!
# The bounds that keys set

Bounds are taken key by key, and it is known beforehand whether all can be taken: they can if the keys name
one field and each carries a moment (`DateBounds.foldlM_record_eq_ok_iff`).  Then each bound is that of its
last key.
-/

namespace SchemaSearch

namespace DateBounds

/-! ## Which keys can be taken -/

/-- The moment that a key carries. -/
def moment? (p : Params) (key : String) : Option Moment := (p.getText? key).bind Moment.read

/-- The bounds with that of one key, whatever is set already. -/
def set (p : Params) (b : DateBounds) (key : String) : DateBounds :=
  if Text.contains key startMark then { b with field := some (fieldOf key), start := moment? p key }
  else { b with field := some (fieldOf key), finish := moment? p key }

variable {p : Params}

theorem field_set (b : DateBounds) (key : String) : (b.set p key).field = some (fieldOf key) := by
  unfold set
  split <;> rfl

theorem record_eq (b : DateBounds) (key : String) :
    b.record p key = if b.field.any (· != fieldOf key) then .error (.date .mixedAttributes)
      else match moment? p key with
        | .none => .error (.date .badFormat)
        | some _ => .ok (b.set p key) := by
  unfold record set
  cases hmoment : moment? p key with
  | none =>
    rw [moment?] at hmoment
    simp only [hmoment]
  | some m =>
    rw [moment?] at hmoment
    simp only [hmoment]
    cases Text.contains key startMark <;> rfl

/-- A bound is taken if its key names the field of the others, and its value is a moment. -/
theorem record_eq_ok_iff {b b' : DateBounds} {key : String} :
    b.record p key = .ok b' ↔
      (∀ field ∈ b.field, field = fieldOf key) ∧ (moment? p key).isSome = true ∧ b.set p key = b' := by
  have hmixed : b.field.any (· != fieldOf key) = false ↔ ∀ field ∈ b.field, field = fieldOf key := by
    cases b.field with
    | none => simp
    | some field => simp
  rw [record_eq, ← hmixed]
  cases b.field.any (· != fieldOf key) with
  | true => simp
  | false =>
    cases moment? p key with
    | none => simp
    | some m => simp

/-- The bounds of some keys are taken if they name one field, and each carries a moment. -/
theorem foldlM_record_eq_ok_iff : ∀ {keys : List String} {b b' : DateBounds},
    keys.foldlM (fun b key => b.record p key) b = .ok b' ↔
      (∃ field, (∀ other ∈ b.field, other = field)
        ∧ ∀ key ∈ keys, fieldOf key = field ∧ (moment? p key).isSome = true)
      ∧ keys.foldl (fun b key => b.set p key) b = b'
  | [], b, b' => by
    rw [List.foldlM_nil, List.foldl_nil]
    constructor
    · intro h
      cases h
      refine ⟨⟨b.field.getD "", ?_, ?_⟩, rfl⟩
      · intro other hother
        rw [Option.mem_def.mp hother]
        rfl
      · exact List.forall_mem_nil _
    · rintro ⟨_, rfl⟩
      rfl
  | key :: keys, b, b' => by
    have hset := b.field_set (p := p) key
    rw [List.foldlM_cons, List.foldl_cons]
    constructor
    · intro h
      obtain ⟨next, hnext, h⟩ := bind_eq_ok h
      obtain ⟨hfield, hmoment, rfl⟩ := record_eq_ok_iff.mp hnext
      obtain ⟨⟨field, hother, hkeys⟩, hfold⟩ := foldlM_record_eq_ok_iff.mp h
      obtain rfl : fieldOf key = field := hother _ hset
      refine ⟨⟨fieldOf key, hfield, ?_⟩, hfold⟩
      intro other hmem
      rcases List.mem_cons.mp hmem with rfl | hmem
      · exact ⟨rfl, hmoment⟩
      · exact hkeys other hmem
    · rintro ⟨⟨field, hother, hkeys⟩, hfold⟩
      -- the first key sets the field that all later ones are held against
      obtain ⟨rfl, hmoment⟩ := hkeys key List.mem_cons_self
      have hrecord : b.record p key = .ok (b.set p key) := record_eq_ok_iff.mpr ⟨hother, hmoment, rfl⟩
      rw [hrecord, ok_bind]
      apply foldlM_record_eq_ok_iff.mpr
      refine ⟨⟨fieldOf key, ?_, ?_⟩, hfold⟩
      · intro other hmem
        rw [hset] at hmem
        exact (Option.some.inj hmem).symm
      · intro other hmem
        exact hkeys other (List.mem_cons_of_mem _ hmem)

/-! ## What they set -/

/-- Of several values that are set the last one stays. -/
theorem foldl_last {α : Type} (f : String → α) : ∀ (keys : List String) (a : α),
    keys.foldl (fun _ key => f key) a = (keys.getLast?.map f).getD a
  | [], _ => rfl
  | key :: keys, a => by
    rw [List.foldl_cons, foldl_last f keys, List.getLast?_cons]
    cases keys.getLast? <;> rfl

theorem start_foldl_set : ∀ (keys : List String) (b : DateBounds),
    (keys.foldl (fun b key => b.set p key) b).start
      = (keys.filter (Text.contains · startMark)).foldl (fun _ key => moment? p key) b.start
  | [], _ => rfl
  | key :: keys, b => by
    rw [List.foldl_cons, start_foldl_set keys, List.filter_cons, set]
    split
    · rfl
    · rfl

theorem finish_foldl_set : ∀ (keys : List String) (b : DateBounds),
    (keys.foldl (fun b key => b.set p key) b).finish
      = (keys.filter (!Text.contains · startMark)).foldl (fun _ key => moment? p key) b.finish
  | [], _ => rfl
  | key :: keys, b => by
    rw [List.foldl_cons, finish_foldl_set keys, List.filter_cons, set]
    cases Text.contains key startMark with
    | true => rfl
    | false => rfl

theorem field_foldl_set {field : String} : ∀ {keys : List String} {b : DateBounds},
    (∀ key ∈ keys, fieldOf key = field) →
      (keys.foldl (fun b key => b.set p key) b).field = if keys.isEmpty then b.field else some field
  | [], _, _ => rfl
  | key :: keys, b, h => by
    have hset : (b.set p key).field = some field := by
      rw [← h key List.mem_cons_self, set]
      split <;> rfl
    rw [List.foldl_cons, field_foldl_set fun other hother => h other (List.mem_cons_of_mem _ hother), hset]
    simp

theorem eq_of_parts {b c : DateBounds} (hfield : b.field = c.field) (hstart : b.start = c.start)
    (hfinish : b.finish = c.finish) : b = c := by
  obtain ⟨field, start, finish⟩ := b
  obtain ⟨field', start', finish'⟩ := c
  rw [mk.injEq]
  exact ⟨hfield, hstart, hfinish⟩

end DateBounds

end SchemaSearch
