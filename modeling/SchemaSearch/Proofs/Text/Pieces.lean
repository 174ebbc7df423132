import Mathlib.Data.List.Infix
import SchemaSearch.Text.Pieces

/-!
# Parts and pieces

A pattern occurs in a text if and only if it is a part of it.  What replaces an occurrence is a part of the
outcome, and where it is longer than the pattern the outcome is longer than the text.

Main statements: a text in which a pattern is replaced by a longer text grows (`length_lt_replace`), what
occurs in the replacement occurs in the outcome (`contains_replace`), and texts are split as lists are
(`splitOn_eq`).
-/

namespace SchemaSearch.Text

/-! ## Occurrences -/

section Lists

variable {pattern replacement cs : List Char}

theorem occurs_iff_isInfix : occurs pattern cs = true ↔ pattern <:+: cs := by
  induction cs with
  | nil => rw [occurs, List.isEmpty_iff, List.infix_nil]
  | cons c cs ih => rw [occurs, Bool.or_eq_true, ih, List.isPrefixOf_iff_prefix, List.infix_cons_iff]

/-- A text loses no more than what is still to be dropped, if no match is replaced by less. -/
theorem length_le_replaceFrom (hpattern : pattern ≠ [])
    (hlonger : pattern.length ≤ replacement.length) (cs : List Char) :
    ∀ skip, cs.length ≤ (replaceFrom pattern replacement skip cs).length + skip := by
  have hpositive := List.length_pos_iff.mpr hpattern
  induction cs with
  | nil => exact fun skip => Nat.zero_le _
  | cons c cs ih =>
    rintro (_ | skip)
    · rw [replaceFrom]
      split
      · have hrest := ih (pattern.length - 1)
        rw [List.length_append, List.length_cons]
        omega
      · have hrest := ih 0
        rw [List.length_cons, List.length_cons]
        omega
    · have hrest := ih skip
      rw [replaceFrom, List.length_cons]
      omega

/-- A text grows where an occurrence is replaced by more. -/
theorem length_lt_replaceFrom (hpattern : pattern ≠ []) (hlonger : pattern.length < replacement.length)
    (h : occurs pattern cs = true) : cs.length < (replaceFrom pattern replacement 0 cs).length := by
  have hpositive := List.length_pos_iff.mpr hpattern
  induction cs with
  | nil => exact absurd (List.isEmpty_iff.mp h) hpattern
  | cons c cs ih =>
    rw [replaceFrom]
    split
    · have hrest := length_le_replaceFrom hpattern (Nat.le_of_lt hlonger) cs (pattern.length - 1)
      rw [List.length_append, List.length_cons]
      omega
    · rename_i hprefix
      rw [occurs, Bool.eq_false_iff.mpr hprefix, Bool.false_or] at h
      have hrest := ih h
      rw [List.length_cons, List.length_cons]
      omega

/-- The replacement is a part of the outcome. -/
theorem infix_replaceFrom (hpattern : pattern ≠ []) (h : occurs pattern cs = true) :
    replacement <:+: replaceFrom pattern replacement 0 cs := by
  induction cs with
  | nil => exact absurd (List.isEmpty_iff.mp h) hpattern
  | cons c cs ih =>
    rw [replaceFrom]
    split
    · exact (List.prefix_append _ _).isInfix
    · rename_i hprefix
      rw [occurs, Bool.eq_false_iff.mpr hprefix, Bool.false_or] at h
      exact List.infix_cons (ih h)

end Lists

section Texts

variable {s pattern replacement : String}

theorem contains_iff_isInfix : contains s pattern = true ↔ pattern.toList <:+: s.toList := occurs_iff_isInfix

/-- What occurs in the end of a text occurs in the text. -/
theorem contains_append (h : contains s pattern = true) (lead : String) :
    contains (lead ++ s) pattern = true := by
  rw [contains_iff_isInfix] at h ⊢
  rw [String.toList_append]
  exact h.trans (List.suffix_append _ _).isInfix

/-- A pattern with characters is replaced from the left. -/
theorem toList_replace (hpattern : pattern.toList ≠ []) :
    (replace s pattern replacement).toList
      = replaceFrom pattern.toList replacement.toList 0 s.toList := by
  rw [replace, String.toList_ofList, replaceAll, if_neg (fun h => hpattern (List.isEmpty_iff.mp h))]

/-- A text in which a pattern is replaced by a longer one grows. -/
theorem length_lt_replace (hpattern : pattern.toList ≠ [])
    (hlonger : pattern.toList.length < replacement.toList.length) (h : contains s pattern = true) :
    s.toList.length < (replace s pattern replacement).toList.length := by
  rw [toList_replace hpattern]
  exact length_lt_replaceFrom hpattern hlonger h

/-- What occurs in the replacement occurs in the outcome. -/
theorem contains_replace {part : String} (hpattern : pattern.toList ≠ []) (h : contains s pattern = true)
    (hpart : contains replacement part = true) : contains (replace s pattern replacement) part = true := by
  rw [contains_iff_isInfix] at hpart ⊢
  rw [toList_replace hpattern]
  exact hpart.trans (infix_replaceFrom hpattern h)

end Texts

/-! ## Splitting -/

/-- Texts are split as lists are. -/
theorem splitOn_eq (separator : Char) (cs : List Char) : splitOn separator cs = cs.splitOn separator := by
  induction cs with
  | nil => rfl
  | cons c cs ih =>
    rw [splitOn, ih, List.splitOn_cons_eq_if_modifyHead]
    cases hpieces : cs.splitOn separator with
    | nil => exact absurd hpieces (List.splitOn_ne_nil separator cs)
    | cons piece pieces => simp only [beq_iff_eq, List.modifyHead_cons, consFirst]

end SchemaSearch.Text
