import SchemaSearch.Json.Reader
import SchemaSearch.Proofs.Outcome

/-!
# Texts without brackets

A text is only read as a list or an object if it opens one.  The text of a number does not, so the text of
a number is read as a scalar, whatever its digits are.

Main statement: the text of a number or a boolean is read as a scalar (`isScalar_of_parse_scalarText`).
-/

namespace SchemaSearch

open Decimal

namespace Json

/-- Whether a value is neither a list nor an object. -/
def isScalar : Json → Bool
  | .list _ | .object _ => false
  | _ => true

/-- Whether a character opens a list or an object. -/
def opensNode (c : Char) : Bool := c = '[' || c = '\x7b'

/-! ## Reading -/

/-- A word is read as the value that it stands for. -/
theorem value_of_readWord {expected value : Json} : ∀ {word cs rest : List Char},
    readWord expected word cs = .ok (value, rest) → value = expected
  | [], cs, rest, h => by
    rw [readWord] at h
    cases h
    rfl
  | _ :: _, [], rest, h => by cases h
  | w :: ws, c :: cs, rest, h => by
    rw [readWord] at h
    split at h
    · exact value_of_readWord h
    · cases h

/-- A text that opens nothing is read as a scalar. -/
theorem isScalar_of_readValue {fuel depth : Nat} {cs rest : List Char} {value : Json}
    (hplain : cs.any opensNode = false) (h : readValue fuel depth cs = .ok (value, rest)) :
    value.isScalar = true := by
  cases fuel with
  | zero =>
    rw [readValue] at h
    cases h
  | succ fuel =>
    have hkept : ∀ c ∈ skipSpace cs, ¬ opensNode c = true := by
      intro c hc
      exact List.any_eq_false.mp hplain c ((List.dropWhile_sublist _).subset hc)
    rw [readValue] at h
    -- a case for each way in which a value may start
    split at h
    case h_1 => cases h
    case h_2 => rw [value_of_readWord h]; rfl
    case h_3 => rw [value_of_readWord h]; rfl
    case h_4 => rw [value_of_readWord h]; rfl
    case h_5 =>
      obtain ⟨⟨n, _⟩, _, h⟩ := bind_eq_ok h
      cases h
      rfl
    case h_6 =>
      obtain ⟨⟨s, _⟩, _, h⟩ := bind_eq_ok h
      cases h
      rfl
    case h_7 heq =>
      rw [heq] at hkept
      exact absurd rfl (hkept _ List.mem_cons_self)
    case h_8 heq =>
      rw [heq] at hkept
      exact absurd rfl (hkept _ List.mem_cons_self)
    case h_9 =>
      split at h
      · obtain ⟨⟨n, _⟩, _, h⟩ := bind_eq_ok h
        cases h
        rfl
      · cases h

theorem isScalar_of_parse {cs : List Char} {value : Json} (hplain : cs.any opensNode = false)
    (h : parse cs = .ok value) : value.isScalar = true := by
  obtain ⟨⟨read, rest⟩, hread, h⟩ := bind_eq_ok h
  have hread' := isScalar_of_readValue hplain hread
  simp only at h
  split at h
  · cases h
    exact hread'
  · cases h

end Json

/-! ## The characters of a number -/

namespace Decimal

/-- Whether a character may stand in the text of a number. -/
def isNumeric (c : Char) : Bool := c.isDigit || ['-', '+', '.', 'e'].contains c

theorem isNumeric_natText {n : Nat} : ∀ c ∈ (toString n).toList, isNumeric c = true := by
  intro c hc
  rw [Nat.toString_eq_repr, Nat.toList_repr] at hc
  rw [isNumeric, Nat.isDigit_of_mem_toDigits (by decide) (by decide) hc, Bool.true_or]

theorem isNumeric_intText (n : Int) : ∀ c ∈ (toString n).toList, isNumeric c = true := by
  intro c hc
  cases n with
  | ofNat n => exact isNumeric_natText c hc
  | negSucc n =>
    have hc : c ∈ '-' :: (toString (n + 1)).toList := by
      simpa [Int.toString_eq_repr, Int.repr] using hc
    rcases List.mem_cons.mp hc with rfl | hc
    · rfl
    · exact isNumeric_natText c hc

namespace Binary64

theorem mem_stripZeros {digits : List Char} {c : Char} (h : c ∈ stripZeros digits) :
    c ∈ digits ∨ c = '0' := by
  unfold stripZeros at h
  split at h
  · exact .inr (List.mem_singleton.mp h)
  · rename_i kept hkept
    left
    rw [List.mem_reverse] at h
    exact List.mem_reverse.mp ((List.dropWhile_sublist _).subset h)

variable {digits wholeTail : List Char}

theorem isNumeric_positional (hdigits : ∀ c ∈ digits, isNumeric c = true)
    (htail : ∀ c ∈ wholeTail, isNumeric c = true) (place : Int) :
    ∀ c ∈ positional wholeTail digits place, isNumeric c = true := by
  have hzeros : ∀ n, ∀ c ∈ List.replicate n '0', isNumeric c = true := by
    intro n c hc
    rw [List.eq_of_mem_replicate hc]
    rfl
  cases place with
  | ofNat k =>
    rw [positional, List.forall_mem_append, List.forall_mem_append]
    refine ⟨⟨fun c hc => hdigits c (List.mem_of_mem_take hc), hzeros _⟩, ?_⟩
    split
    · exact htail
    · rw [List.forall_mem_cons]
      exact ⟨rfl, fun c hc => hdigits c (List.mem_of_mem_drop hc)⟩
  | negSucc k =>
    rw [positional, List.forall_mem_append, List.forall_mem_append]
    refine ⟨⟨?_, hzeros k⟩, hdigits⟩
    exact List.all_eq_true.mp rfl

theorem isNumeric_exponential (hdigits : ∀ c ∈ digits, isNumeric c = true) (place : Int) :
    ∀ c ∈ exponential digits place, isNumeric c = true := by
  unfold exponential
  rw [List.forall_mem_append, List.forall_mem_append]
  refine ⟨⟨?_, ?_⟩, isNumeric_natText⟩
  · split
    · exact List.all_eq_true.mp rfl
    · exact hdigits
    · rw [List.forall_mem_cons] at hdigits
      rw [List.forall_mem_cons, List.forall_mem_cons]
      exact ⟨hdigits.1, rfl, hdigits.2⟩
  · split <;> exact List.all_eq_true.mp rfl

theorem isNumeric_toTextIn {format : RealFormat} (htail : ∀ c ∈ format.wholeTail, isNumeric c = true)
    (x : Binary64) : ∀ c ∈ (toTextIn format x).toList, isNumeric c = true := by
  have hsign : ∀ c ∈ (if x.negative then ['-'] else []), isNumeric c = true := by
    split <;> exact List.all_eq_true.mp rfl
  have hdigits : ∀ c ∈ stripZeros (toString x.shortest.digits).toList, isNumeric c = true := by
    intro c hc
    rcases mem_stripZeros hc with hc | rfl
    · exact isNumeric_natText c hc
    · rfl
  simp only [toTextIn]
  by_cases hzero : x.magnitude = 0
  · rw [if_pos hzero, String.toList_ofList, List.forall_mem_append, List.forall_mem_cons]
    exact ⟨hsign, rfl, htail⟩
  · rw [if_neg hzero, String.toList_ofList, List.forall_mem_append]
    refine ⟨hsign, ?_⟩
    split
    · exact isNumeric_positional hdigits htail _
    · exact isNumeric_exponential hdigits _

end Binary64

end Decimal

theorem Number.isNumeric_toText (n : Number) : ∀ c ∈ n.toText.toList, isNumeric c = true := by
  cases n with
  | whole n => exact isNumeric_intText n
  | real x => exact Binary64.isNumeric_toTextIn (List.all_eq_true.mp rfl) x

/-- The text of a number or a boolean is read as a scalar. -/
theorem Json.isScalar_of_parse_scalarText {value read : Json} {s : String} (hscalar : value.scalarText = some s)
    (htext : ∀ t, value ≠ .text t) (h : parse s.toList = .ok read) : read.isScalar = true := by
  apply isScalar_of_parse _ h
  cases value with
  | number n =>
    cases hscalar
    apply List.any_eq_false.mpr
    intro c hc hopens
    have hnumeric := n.isNumeric_toText c hc
    rw [opensNode, Bool.or_eq_true, decide_eq_true_iff, decide_eq_true_iff] at hopens
    rcases hopens with rfl | rfl
    · exact absurd hnumeric (by decide)
    · exact absurd hnumeric (by decide)
  | bool b =>
    cases hscalar
    cases b <;> rfl
  | text t => exact absurd rfl (htext t)
  | null => cases hscalar
  | list _ => cases hscalar
  | object _ => cases hscalar

end SchemaSearch
