import Mathlib.Data.List.Basic
import SchemaSearch.Proofs.Predicate.Comparison
import SchemaSearch.Proofs.Store.CodePoints
import SchemaSearch.Proofs.Store.Like
import SchemaSearch.Proofs.Text.Casing

/-!
# Patterns from client values

A client value is escaped, put in upper case and closed by `%`.  Upper case neither makes nor moves a
character that is wild in a pattern, so it comes to the same as escaping the upper case.

Main statements: whatever the value, its patterns ask of a text that the upper case of the value is a prefix
or an infix of it (`patternTest_literal`), and so it is for stored values (`isLike_startPattern`,
`isLike_containsPattern`).
-/

namespace SchemaSearch

open Query Store

/-! ## Characters that are wild -/

/-- Whether a character means something else than itself in a pattern. -/
def IsWildcard (c : Char) : Prop := c = '\\' ∨ c = '%' ∨ c = '_'

instance (c : Char) : Decidable (IsWildcard c) := inferInstanceAs (Decidable (c = '\\' ∨ c = '%' ∨ c = '_'))

/-- A character as a pattern has to show it. -/
def escapeChar (c : Char) : List Char := if IsWildcard c then ['\\', c] else [c]

theorem toList_escapeWildcards (s : String) : (escapeWildcards s).toList = s.toList.flatMap escapeChar :=
  String.toList_ofList

theorem containsPattern_eq (s : String) : containsPattern s = "%" ++ startPattern s := String.append_assoc

theorem upper_escapeChar (c : Char) : Text.upper (escapeChar c) = (Text.upperChar c).flatMap escapeChar := by
  by_cases hc : IsWildcard c
  · rcases hc with rfl | rfl | rfl <;> rfl
  · -- nothing in the upper case of `c` is wild, so there is nothing to escape
    have htame : ∀ d ∈ Text.upperChar c, escapeChar d = [d] := by
      intro d hd
      refine if_neg ?_
      rcases Text.mem_upperChar hd with rfl | hletter
      · exact hc
      · rintro (rfl | rfl | rfl) <;> revert hletter <;> decide
    rw [escapeChar, if_neg hc, Text.upper, List.flatMap_singleton, List.flatMap_congr htame]
    exact (List.flatMap_singleton' _).symm

/-- Upper case and escaping commute. -/
theorem upper_escape (cs : List Char) :
    Text.upper (cs.flatMap escapeChar) = (Text.upper cs).flatMap escapeChar := by
  rw [Text.upper, Text.upper, List.flatMap_assoc, List.flatMap_assoc]
  exact List.flatMap_congr fun c _ => upper_escapeChar c

/-! ## Their code points -/

namespace Store.CodePoint.KeepsAscii

variable {point : Char → CodePoint} (h : KeepsAscii point)

include h

/-- The code points that are wild are those of wildcards. -/
theorem isWild_iff (c : Char) : (point c).IsWild ↔ IsWildcard c :=
  or_congr (h.point_eq_iff (d := '\\') (by decide) c)
    (or_congr (h.point_eq_iff (d := '%') (by decide) c) (h.point_eq_iff (d := '_') (by decide) c))

theorem map_escapeChar (c : Char) : (escapeChar c).map point = (point c).escaped := by
  unfold escapeChar escaped
  simp only [h.isWild_iff c]
  split
  · rw [List.map_cons, List.map_singleton, h.ascii '\\' (by decide)]
    rfl
  · exact List.map_singleton

theorem map_escape (cs : List Char) : (cs.flatMap escapeChar).map point = (cs.map point).flatMap escaped := by
  rw [List.map_flatMap, List.flatMap_map]
  exact List.flatMap_congr fun c _ => h.map_escapeChar c

theorem map_percent : "%".toList.map point = [anyText] := congrArg ([·]) (h.ascii '%' (by decide))

/-- The code points of the pattern for a prefix. -/
theorem map_startPattern (s : String) : (startPattern s).toList.map point
    = ((Text.toUpper s).toList.map point).flatMap escaped ++ [anyText] := by
  rw [startPattern, String.toList_append, Text.toList_toUpper, Text.toList_toUpper, toList_escapeWildcards,
    upper_escape, List.map_append, h.map_escape, h.map_percent]

/-- The code points of the pattern for an infix. -/
theorem map_containsPattern (s : String) : (containsPattern s).toList.map point
    = anyText :: (((Text.toUpper s).toList.map point).flatMap escaped ++ [anyText]) := by
  rw [containsPattern_eq, String.toList_append, List.map_append, h.map_startPattern, h.map_percent,
    List.singleton_append]

end Store.CodePoint.KeepsAscii

/-! ## What they ask of a text -/

open CodePoint

/-- Whatever the value, the pattern for it takes the texts that start with its upper case, or contain it, in
either case of `A` to `Z`; and this is how the database matches. -/
theorem patternTest_literal (path : String) (operand : Operand) (s : String) (text : List CodePoint) :
    (∃ pattern, patternTest path operand (.startsWith s) = .ok (.matchesPattern operand pattern)
      ∧ (Pattern.Like (pattern.toList.map Char.toNat) text
        ↔ ((Text.toUpper s).toList.map Char.toNat).map CodePoint.toUpper <+: text.map CodePoint.toUpper))
    ∧ (∃ pattern, patternTest path operand (.contains s) = .ok (.matchesPattern operand pattern)
      ∧ (Pattern.Like (pattern.toList.map Char.toNat) text
        ↔ ((Text.toUpper s).toList.map Char.toNat).map CodePoint.toUpper <:+: text.map CodePoint.toUpper))
    ∧ ∀ pattern, Pattern.isLike text pattern = true ↔ Pattern.Like (CodePoint.ofText pattern) text := by
  refine ⟨⟨startPattern s, rfl, ?_⟩, ⟨containsPattern s, rfl, ?_⟩, fun pattern => Pattern.isLike_iff⟩
  · rw [keepsAscii_toNat.map_startPattern]
    exact Pattern.like_escaped_anyText
  · rw [keepsAscii_toNat.map_containsPattern]
    exact Pattern.like_anyText_escaped

/-- A percent sign asks for itself, and so does an escape at the end of a value. -/
example : Pattern.isLike (CodePoint.ofText "100%\\") (startPattern "100%\\") = true
    ∧ Pattern.isLike (CodePoint.ofText "1000") (startPattern "100%\\") = false := by decide

/-! ## Folded characters -/

/-- What is left of characters where the case of ASCII does not matter. -/
def folded (cs : List Char) : List CodePoint := cs.map fun c => (ofChar c).toUpper

section Folded

variable {c : Char} {cs : List Char}

theorem folded_eq (cs : List Char) : folded cs = (cs.map ofChar).map CodePoint.toUpper := by
  rw [List.map_map]
  rfl

theorem folded_append (cs rest : List Char) : folded (cs ++ rest) = folded cs ++ folded rest := List.map_append

theorem map_toUpper_ofText {s : String} (hs : '\x00' ∉ s.toList) :
    (CodePoint.ofText s).map CodePoint.toUpper = folded s.toList := by
  rw [ofText_of_not_mem hs, folded_eq]

theorem fold_toUpper (c : Char) : (ofChar c.toUpper).toUpper = (ofChar c).toUpper := by
  have hupper := Text.toNat_toUpper c
  split at hupper
  · rename_i hletter
    rw [keepsAscii_ofChar.ascii c (by omega), keepsAscii_ofChar.ascii c.toUpper (by omega), hupper,
      toUpper_of_letter hletter]
    exact toUpper_of_not_letter (by omega)
  · rw [Char.toNat_inj.mp hupper]

/-- As far as the two mappings agree, upper case is nothing to a pattern. -/
theorem folded_upperChar (hc : Text.isAsciiCased c = true) : folded (Text.upperChar c) = [(ofChar c).toUpper] := by
  rw [eq_of_beq hc]
  exact congrArg ([·]) (fold_toUpper c)

/-- Where they do not, it makes another character. -/
theorem head_folded_upperChar (hc : Text.isAsciiCased c = false) :
    ∃ p tail, folded (Text.upperChar c) = p :: tail ∧ p ≠ (ofChar c).toUpper := by
  obtain ⟨hbeyond, haway, first, tail, hupper, hother⟩ := Text.head_upperChar hc
  refine ⟨_, _, congrArg folded hupper, ?_⟩
  have hself : (ofChar c).toUpper = c.toNat := by
    have hchar : c.toNat < 0xD800 ∨ 0xDFFF < c.toNat := c.valid.imp_right And.left
    rw [ofChar, if_neg (by rw [isForbidden_iff]; omega)]
    exact toUpper_of_not_letter (by omega)
  rw [hself]
  show (ofChar first).toUpper ≠ c.toNat
  rw [← Char.toNat_inj.ne] at hother
  have hmem : first ∈ Text.upperChar c := by
    rw [hupper]
    exact List.mem_cons_self
  rcases Text.mem_upperChar hmem with heq | hletter | hfirst
  · exact absurd (congrArg Char.toNat heq) hother
  · rw [keepsAscii_ofChar.ascii first (by omega), toUpper_of_not_letter (by omega)]
    exact hother
  · -- a noncharacter among them would be read as U+FFFD, which is no letter
    unfold ofChar
    split
    · show (0xFFFD : Nat) ≠ c.toNat
      omega
    · rw [toUpper_of_not_letter (by omega)]
      exact hother

theorem folded_upper (h : ∀ c ∈ cs, Text.isAsciiCased c = true) : folded (Text.upper cs) = folded cs := by
  induction cs with
  | nil => rfl
  | cons c cs ih =>
    rw [List.forall_mem_cons] at h
    rw [Text.upper, List.flatMap_cons, folded_append, folded_upperChar h.1]
    exact congrArg (_ :: ·) (ih h.2)

end Folded

/-! ## What they ask of a stored value -/

section Stored

variable {s : String} {v : Value} {points : List CodePoint}

theorem nul_not_mem_startPattern (hs : '\x00' ∉ s.toList) : '\x00' ∉ (startPattern s).toList := by
  have hescaped : '\x00' ∉ s.toList.flatMap escapeChar := by
    intro hmem
    obtain ⟨c, hc, hnul⟩ := List.mem_flatMap.mp hmem
    unfold escapeChar at hnul
    split at hnul
    · rcases List.mem_cons.mp hnul with hslash | hself
      · cases hslash
      · rw [List.mem_singleton.mp hself] at hs
        exact hs hc
    · rw [List.mem_singleton.mp hnul] at hs
      exact hs hc
  rw [startPattern, String.toList_append, Text.toList_toUpper, toList_escapeWildcards, List.mem_append, not_or]
  exact ⟨Text.nul_not_mem_upper hescaped, by decide⟩

theorem nul_not_mem_containsPattern (hs : '\x00' ∉ s.toList) : '\x00' ∉ (containsPattern s).toList := by
  rw [containsPattern_eq, String.toList_append, List.mem_append, not_or]
  exact ⟨by decide, nul_not_mem_startPattern hs⟩

/-- A value matches the pattern for a prefix if its text starts with the upper case. -/
theorem isLike_startPattern (hs : '\x00' ∉ s.toList) (hv : v.codePoints = some points) :
    v.isLike (startPattern s) = true ↔ folded (Text.upper s.toList) <+: points.map CodePoint.toUpper := by
  rw [Value.isLike, hv, Option.any_some, Pattern.isLike_iff, ofText_of_not_mem (nul_not_mem_startPattern hs),
    keepsAscii_ofChar.map_startPattern, Text.toList_toUpper, Pattern.like_escaped_anyText, map_toUpper_toUpper,
    folded_eq]

/-- A value matches the pattern for an infix if its text contains the upper case. -/
theorem isLike_containsPattern (hs : '\x00' ∉ s.toList) (hv : v.codePoints = some points) :
    v.isLike (containsPattern s) = true ↔ folded (Text.upper s.toList) <:+: points.map CodePoint.toUpper := by
  rw [Value.isLike, hv, Option.any_some, Pattern.isLike_iff, ofText_of_not_mem (nul_not_mem_containsPattern hs),
    keepsAscii_ofChar.map_containsPattern, Text.toList_toUpper, Pattern.like_anyText_escaped, map_toUpper_toUpper,
    folded_eq]

end Stored

end SchemaSearch
