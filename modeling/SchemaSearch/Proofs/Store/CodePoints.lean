import Mathlib.Data.List.TakeWhile
import SchemaSearch.Store.CodePoints

/-!
# Facts about code points

What of a text and of bytes is seen by a pattern.

Main statements: a text without NUL is seen as a whole, character by character (`ofText_of_not_mem`), and
ASCII is seen in bytes where it stands in front of the first zero (`prefix_ofBytes_iff`, `infix_ofBytes_iff`).
-/

namespace SchemaSearch.Store.CodePoint

theorem isForbidden_iff {n : Nat} : isForbidden n = true ↔ 0xD800 ≤ n ∧ n ≤ 0xDFFF ∨ n = 0xFFFE ∨ n = 0xFFFF := by
  simp [isForbidden, or_assoc]

/-! ## Case -/

theorem toUpper_of_letter {n : Nat} (h : 0x61 ≤ n ∧ n ≤ 0x7A) : toUpper n = n - 0x20 := if_pos h

theorem toUpper_of_not_letter {n : Nat} (h : ¬ (0x61 ≤ n ∧ n ≤ 0x7A)) : toUpper n = n := if_neg h

theorem toUpper_le (n : Nat) : toUpper n ≤ n := by
  by_cases h : 0x61 ≤ n ∧ n ≤ 0x7A
  · rw [toUpper_of_letter h]
    exact Nat.sub_le n 0x20
  · rw [toUpper_of_not_letter h]

theorem toUpper_toUpper (n : Nat) : toUpper (toUpper n) = toUpper n := by
  by_cases h : 0x61 ≤ n ∧ n ≤ 0x7A
  · rw [toUpper_of_letter h]
    exact toUpper_of_not_letter (by omega)
  · rw [toUpper_of_not_letter h, toUpper_of_not_letter h]

theorem map_toUpper_toUpper (points : List CodePoint) :
    (points.map toUpper).map toUpper = points.map toUpper := by
  rw [List.map_map]
  exact List.map_congr_left fun n _ => toUpper_toUpper n

/-! ## Numberings of characters -/

/-- A numbering of characters that is that of ASCII, and goes beyond it for all else. -/
structure KeepsAscii (point : Char → CodePoint) : Prop where
  ascii : ∀ c, c.toNat < 0x80 → point c = c.toNat
  beyond : ∀ c, 0x80 ≤ c.toNat → 0x80 ≤ point c

theorem keepsAscii_toNat : KeepsAscii Char.toNat := ⟨fun _ _ => rfl, fun _ h => h⟩

theorem keepsAscii_ofChar : KeepsAscii ofChar where
  ascii := by
    intro c hc
    refine if_neg ?_
    rw [isForbidden_iff]
    omega
  beyond := by
    intro c hc
    unfold ofChar
    split
    · decide
    · exact hc

/-- Only a character of ASCII has its number. -/
theorem KeepsAscii.point_eq_iff {point : Char → CodePoint} (h : KeepsAscii point) {d : Char}
    (hd : d.toNat < 0x80) (c : Char) : point c = d.toNat ↔ c = d := by
  rw [← Char.toNat_inj]
  by_cases hc : c.toNat < 0x80
  · rw [h.ascii c hc]
  · have hbeyond : 0x80 ≤ point c := h.beyond c (Nat.le_of_not_lt hc)
    exact iff_of_false (Nat.ne_of_gt (Nat.lt_of_lt_of_le hd hbeyond)) (by omega)

/-! ## Texts -/

theorem upToNul_append {points : List CodePoint} (h : 0 ∉ points) (rest : List CodePoint) :
    upToNul (points ++ rest) = points ++ upToNul rest := by
  refine List.takeWhile_append_of_pos fun n hn => decide_eq_true ?_
  rintro rfl
  exact h hn

theorem upToNul_of_not_mem {points : List CodePoint} (h : 0 ∉ points) : upToNul points = points := by
  have happend := upToNul_append h []
  rwa [List.append_nil, show upToNul [] = [] from rfl, List.append_nil] at happend

/-- A text without NUL is read as a whole. -/
theorem ofText_of_not_mem {s : String} (hs : '\x00' ∉ s.toList) : ofText s = s.toList.map ofChar := by
  refine upToNul_of_not_mem fun hmem => ?_
  obtain ⟨c, hc, hzero⟩ := List.mem_map.mp hmem
  rw [(keepsAscii_ofChar.point_eq_iff (d := '\x00') (by decide) c).mp hzero] at hc
  exact hs hc

/-! ## Bytes -/

/-- What is left of bytes where the case of ASCII does not matter: those in front of the first zero. -/
def foldedBytes (bytes : List UInt8) : List CodePoint :=
  (bytes.takeWhile (· ≠ 0)).map fun b => toUpper b.toNat

section Bytes

variable {led : Option Nat} {points : List CodePoint} {b : UInt8}

/-- A led code point is not in ASCII. -/
theorem le_settle (bits : Nat) : 0x80 ≤ settle bits := by
  unfold settle
  split
  · decide
  · rename_i hbits
    simp only [Bool.or_eq_true, decide_eq_true_eq, not_or] at hbits
    exact Nat.le_of_not_lt hbits.1

theorem zero_not_mem_led : 0 ∉ (led.map settle).toList := by
  cases led with
  | none => exact List.not_mem_nil
  | some bits =>
    intro hzero
    have hbits := le_settle bits
    rw [← List.mem_singleton.mp hzero] at hbits
    exact absurd hbits (by decide)

theorem readFrom_ascii (h : b.toNat < 0x80) (led : Option Nat) (bytes : List UInt8) :
    readFrom led (b :: bytes) = (led.map settle).toList ++ b.toNat :: readFrom none bytes := if_pos h

theorem readFrom_lead (h : 0xC0 ≤ b.toNat) (led : Option Nat) (bytes : List UInt8) :
    readFrom led (b :: bytes) = (led.map settle).toList ++ readFrom (some (leadBits b.toNat)) bytes :=
  (if_neg (by omega)).trans (if_pos h)

theorem readFrom_more (hlow : 0x80 ≤ b.toNat) (hhigh : b.toNat < 0xC0) (bits : Nat) (bytes : List UInt8) :
    readFrom (some bits) (b :: bytes) = readFrom (some (extend bits b.toNat)) bytes :=
  (if_neg (by omega)).trans (if_neg (by omega))

theorem readFrom_lone (hlow : 0x80 ≤ b.toNat) (hhigh : b.toNat < 0xC0) (bytes : List UInt8) :
    readFrom none (b :: bytes) = b.toNat :: readFrom none bytes :=
  (if_neg (by omega)).trans (if_neg (by omega))

/-- Reading stops at the first zero. -/
theorem upToNul_readFrom (led : Option Nat) (bytes : List UInt8) :
    upToNul (readFrom led bytes) = readFrom led (bytes.takeWhile (· ≠ 0)) := by
  induction bytes generalizing led with
  | nil => exact upToNul_of_not_mem zero_not_mem_led
  | cons b bytes ih =>
    by_cases hb : b = 0
    · rw [hb, readFrom_ascii (by decide), upToNul_append zero_not_mem_led]
      exact List.append_nil _
    · have hne : b.toNat ≠ 0 := fun hzero => hb (UInt8.toNat_inj.mp hzero)
      have hcons : ∀ rest, upToNul (b.toNat :: rest) = b.toNat :: upToNul rest := fun rest =>
        List.takeWhile_cons_of_pos (decide_eq_true hne)
      have htake : (b :: bytes).takeWhile (· ≠ 0) = b :: bytes.takeWhile (· ≠ 0) :=
        List.takeWhile_cons_of_pos (decide_eq_true hb)
      rw [htake]
      rcases Nat.lt_or_ge b.toNat 0x80 with hascii | hbeyond
      · rw [readFrom_ascii hascii, readFrom_ascii hascii, upToNul_append zero_not_mem_led, hcons, ih]
      · rcases Nat.lt_or_ge b.toNat 0xC0 with hmore | hlead
        · cases led with
          | none => rw [readFrom_lone hbeyond hmore, readFrom_lone hbeyond hmore, hcons, ih]
          | some bits => rw [readFrom_more hbeyond hmore, readFrom_more hbeyond hmore, ih]
        · rw [readFrom_lead hlead, readFrom_lead hlead, upToNul_append zero_not_mem_led, ih]

/-! ### Where ASCII stands in them -/

/-- No text in ASCII starts with a code point beyond. -/
theorem not_prefix_cons {p q : Nat} (hp : p < 0x80) (hq : 0x80 ≤ q) (rest : List CodePoint) :
    ¬ p :: points <+: toUpper q :: rest := by
  intro hstarts
  have heq : p = toUpper q := (List.cons_prefix_cons.mp hstarts).1
  rw [toUpper_of_not_letter (by omega)] at heq
  omega

/-- None starts with one that is led. -/
theorem not_prefix_readFrom_some {p : Nat} (hp : p < 0x80) (bits : Nat) (bytes : List UInt8) :
    ¬ p :: points <+: (readFrom (some bits) bytes).map toUpper := by
  induction bytes generalizing bits with
  | nil => exact not_prefix_cons hp (le_settle bits) []
  | cons b bytes ih =>
    rcases Nat.lt_or_ge b.toNat 0x80 with hascii | hbeyond
    · rw [readFrom_ascii hascii]
      exact not_prefix_cons hp (le_settle bits) _
    · rcases Nat.lt_or_ge b.toNat 0xC0 with hmore | hlead
      · rw [readFrom_more hbeyond hmore]
        exact ih _
      · rw [readFrom_lead hlead]
        exact not_prefix_cons hp (le_settle bits) _

/-- Code points start with ASCII if their bytes do. -/
theorem prefix_readFrom_iff (h : ∀ p ∈ points, p < 0x80) (bytes : List UInt8) :
    points <+: (readFrom none bytes).map toUpper ↔ points <+: bytes.map fun b => toUpper b.toNat := by
  induction bytes generalizing points with
  | nil => rfl
  | cons b bytes ih =>
    cases points with
    | nil => exact iff_of_true List.nil_prefix List.nil_prefix
    | cons p points =>
      rw [List.forall_mem_cons] at h
      rw [List.map_cons]
      rcases Nat.lt_or_ge b.toNat 0x80 with hascii | hbeyond
      · rw [readFrom_ascii hascii]
        show p :: points <+: toUpper b.toNat :: (readFrom none bytes).map toUpper ↔ _
        rw [List.cons_prefix_cons, List.cons_prefix_cons, ih h.2]
      · refine iff_of_false ?_ (not_prefix_cons h.1 hbeyond _)
        rcases Nat.lt_or_ge b.toNat 0xC0 with hmore | hlead
        · rw [readFrom_lone hbeyond hmore]
          exact not_prefix_cons h.1 hbeyond _
        · rw [readFrom_lead hlead]
          exact not_prefix_readFrom_some h.1 _ _

/-- A code point beyond ASCII is in no text in ASCII. -/
theorem infix_cons_of_beyond {q : Nat} (h : ∀ p ∈ points, p < 0x80) (hq : 0x80 ≤ q) (rest : List CodePoint) :
    points <:+: toUpper q :: rest ↔ points <:+: rest := by
  cases points with
  | nil => exact iff_of_true List.nil_infix List.nil_infix
  | cons p points =>
    rw [List.infix_cons_iff]
    exact or_iff_right (not_prefix_cons (h p List.mem_cons_self) hq rest)

/-- Code points contain ASCII if their bytes do. -/
theorem infix_readFrom_iff (h : ∀ p ∈ points, p < 0x80) (led : Option Nat) (bytes : List UInt8) :
    points <:+: (readFrom led bytes).map toUpper ↔ points <:+: bytes.map fun b => toUpper b.toNat := by
  have hled : ∀ (led : Option Nat) (rest : List CodePoint),
      points <:+: ((led.map settle).toList ++ rest).map toUpper ↔ points <:+: rest.map toUpper := by
    intro led rest
    cases led with
    | none => rfl
    | some bits => exact infix_cons_of_beyond h (le_settle bits) _
  induction bytes generalizing led with
  | nil =>
    have hnil := hled led []
    rwa [List.append_nil] at hnil
  | cons b bytes ih =>
    rw [List.map_cons]
    rcases Nat.lt_or_ge b.toNat 0x80 with hascii | hbeyond
    · have hstarts := prefix_readFrom_iff h (b :: bytes)
      rw [readFrom_ascii hascii] at hstarts
      rw [readFrom_ascii hascii, hled, List.map_cons, List.infix_cons_iff, List.infix_cons_iff]
      exact or_congr hstarts (ih none)
    · rw [infix_cons_of_beyond h hbeyond]
      rcases Nat.lt_or_ge b.toNat 0xC0 with hmore | hlead
      · cases led with
        | none =>
          rw [readFrom_lone hbeyond hmore, List.map_cons, infix_cons_of_beyond h hbeyond]
          exact ih none
        | some bits =>
          rw [readFrom_more hbeyond hmore]
          exact ih _
      · rw [readFrom_lead hlead, hled]
        exact ih _

theorem prefix_ofBytes_iff (h : ∀ p ∈ points, p < 0x80) (bytes : List UInt8) :
    points <+: (ofBytes bytes).map toUpper ↔ points <+: foldedBytes bytes := by
  rw [ofBytes, upToNul_readFrom]
  exact prefix_readFrom_iff h _

theorem infix_ofBytes_iff (h : ∀ p ∈ points, p < 0x80) (bytes : List UInt8) :
    points <:+: (ofBytes bytes).map toUpper ↔ points <:+: foldedBytes bytes := by
  rw [ofBytes, upToNul_readFrom]
  exact infix_readFrom_iff h none _

end Bytes

end SchemaSearch.Store.CodePoint
