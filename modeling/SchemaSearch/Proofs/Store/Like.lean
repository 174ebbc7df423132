import SchemaSearch.Store.Pattern

/-!
# Matching a pattern

The matching of `LIKE` as a relation between a pattern and a text, without pieces and without search: the
escape gives the code point behind it, `_` takes any one, `%` any number, and all else takes itself, letters
`A` to `Z` in either case.

Main statements: this is how the database matches (`isLike_iff`), and a text that was escaped takes just
itself (`like_escaped_append`), so that `%` behind it asks for a prefix and `%` around it for an infix
(`like_escaped_anyText`, `like_anyText_escaped`).
-/

namespace SchemaSearch.Store

namespace CodePoint

/-- The escape, a backslash. -/
abbrev escape : CodePoint := 0x5C

/-- The percent sign, for any text. -/
abbrev anyText : CodePoint := 0x25

/-- The underscore, for any one code point. -/
abbrev anyOne : CodePoint := 0x5F

/-- Whether a code point means something else than itself in a pattern. -/
def IsWild (n : CodePoint) : Prop := n = escape ∨ n = anyText ∨ n = anyOne

instance (n : CodePoint) : Decidable (IsWild n) :=
  inferInstanceAs (Decidable (n = escape ∨ n = anyText ∨ n = anyOne))

/-- A code point as a pattern has to show it. -/
def escaped (n : CodePoint) : List CodePoint := if IsWild n then [escape, n] else [n]

end CodePoint

namespace Pattern

open CodePoint

/-- A pattern takes a text. -/
inductive Like : List CodePoint → List CodePoint → Prop
  | done : Like [] []
  | given {p n : CodePoint} {pattern text : List CodePoint} :
      p.sameIgnoringCase n = true → Like pattern text → Like (escape :: p :: pattern) (n :: text)
  | itself {p n : CodePoint} {pattern text : List CodePoint} :
      ¬ p.IsWild → p.sameIgnoringCase n = true → Like pattern text → Like (p :: pattern) (n :: text)
  | one {n : CodePoint} {pattern text : List CodePoint} :
      Like pattern text → Like (anyOne :: pattern) (n :: text)
  | any {skipped pattern text : List CodePoint} :
      Like pattern text → Like (anyText :: pattern) (skipped ++ text)

/-! ## Its inversion -/

section Inversion

variable {p : CodePoint} {pattern text : List CodePoint}

theorem like_nil : Like [] text ↔ text = [] := by
  constructor
  · rintro ⟨⟩
    rfl
  · rintro rfl
    exact .done

theorem not_like_escape : ¬ Like [escape] text := by
  intro h
  cases h with
  | itself hwild _ _ => exact hwild (.inl rfl)

theorem like_escape : Like (escape :: p :: pattern) text ↔
    ∃ n rest, text = n :: rest ∧ p.sameIgnoringCase n = true ∧ Like pattern rest := by
  constructor
  · intro h
    cases h with
    | given hsame hrest => exact ⟨_, _, rfl, hsame, hrest⟩
    | itself hwild _ _ => exact absurd (.inl rfl) hwild
  · rintro ⟨n, rest, rfl, hsame, hrest⟩
    exact .given hsame hrest

theorem like_itself (hp : ¬ p.IsWild) : Like (p :: pattern) text ↔
    ∃ n rest, text = n :: rest ∧ p.sameIgnoringCase n = true ∧ Like pattern rest := by
  constructor
  · intro h
    cases h with
    | given _ _ => exact absurd (.inl rfl) hp
    | itself _ hsame hrest => exact ⟨_, _, rfl, hsame, hrest⟩
    | one _ => exact absurd (.inr (.inr rfl)) hp
    | any _ => exact absurd (.inr (.inl rfl)) hp
  · rintro ⟨n, rest, rfl, hsame, hrest⟩
    exact .itself hp hsame hrest

theorem like_anyOne : Like (anyOne :: pattern) text ↔ ∃ n rest, text = n :: rest ∧ Like pattern rest := by
  constructor
  · intro h
    cases h with
    | itself hwild _ _ => exact absurd (.inr (.inr rfl)) hwild
    | one hrest => exact ⟨_, _, rfl, hrest⟩
  · rintro ⟨n, rest, rfl, hrest⟩
    exact .one hrest

theorem like_anyText : Like (anyText :: pattern) text ↔ ∃ rest, rest <:+ text ∧ Like pattern rest := by
  constructor
  · intro h
    cases h with
    | itself hwild _ _ => exact absurd (.inr (.inl rfl)) hwild
    | any hrest => exact ⟨_, List.suffix_append _ _, hrest⟩
  · rintro ⟨rest, ⟨skipped, rfl⟩, hrest⟩
    exact .any hrest

end Inversion

/-! ## How the database matches -/

section Pieces

variable {p : CodePoint} {ps : List Piece} {pattern text : List CodePoint}

theorem mem_suffixes {rest : List CodePoint} : ∀ {text : List CodePoint}, rest ∈ suffixes text ↔ rest <:+ text
  | [] => by rw [suffixes, List.mem_singleton, List.suffix_nil]
  | n :: text => by rw [suffixes, List.mem_cons, mem_suffixes, List.suffix_cons_iff]

theorem fits_nil : fits [] text = true ↔ Like [] text := by
  rw [fits, List.isEmpty_iff, like_nil]

theorem fits_literal : fits (.literal p :: ps) text = true
    ↔ ∃ n rest, text = n :: rest ∧ p.sameIgnoringCase n = true ∧ fits ps rest = true := by
  cases text with
  | nil => simp [fits]
  | cons n rest => simp [fits, and_assoc]

theorem fits_anyOne : fits (.anyOne :: ps) text = true ↔ ∃ n rest, text = n :: rest ∧ fits ps rest = true := by
  cases text with
  | nil => simp [fits]
  | cons n rest => simp [fits, and_assoc]

theorem fits_anyText : fits (.anyText :: ps) text = true ↔ ∃ rest, rest <:+ text ∧ fits ps rest = true := by
  rw [fits, List.any_eq_true]
  simp only [mem_suffixes]

/-- The piece of a code point takes what the code point takes. -/
theorem fits_ofPoint (hp : p ≠ escape) (ih : ∀ text, fits ps text = true ↔ Like pattern text) :
    fits (.ofPoint p :: ps) text = true ↔ Like (p :: pattern) text := by
  unfold Piece.ofPoint
  split
  · rename_i htext
    rw [show p = anyText from htext, fits_anyText, like_anyText]
    simp only [ih]
  · rename_i htext
    split
    · rename_i hone
      rw [show p = anyOne from hone, fits_anyOne, like_anyOne]
      simp only [ih]
    · rename_i hone
      have hwild : ¬ p.IsWild := by
        rintro (h | h | h)
        · exact hp h
        · exact htext h
        · exact hone h
      rw [fits_literal, like_itself hwild]
      simp only [ih]

/-- Behind a code point that is no escape, the rest of the pattern takes a rest of the text. -/
theorem exists_like_tail (hp : p ≠ escape) (h : Like (p :: pattern) text) : ∃ rest, Like pattern rest := by
  cases h with
  | given _ _ => exact absurd rfl hp
  | itself _ _ hrest => exact ⟨_, hrest⟩
  | one hrest => exact ⟨_, hrest⟩
  | any hrest => exact ⟨_, hrest⟩

/-- The pieces of a pattern take what the pattern takes, and a pattern without pieces takes nothing. -/
theorem any_pieces?_iff : ∀ (pattern text : List CodePoint),
    (pieces? escape pattern).any (fits · text) = true ↔ Like pattern text
  | [], text => fits_nil
  | [p], text => by
    rw [pieces?]
    split
    · rename_i hp
      rw [hp]
      exact iff_of_false Bool.false_ne_true not_like_escape
    · rename_i hp
      exact fits_ofPoint hp fun rest => fits_nil
  | p :: q :: rest, text => by
    rw [pieces?]
    split
    · rename_i hp
      have ih := any_pieces?_iff rest
      rw [hp, like_escape]
      cases hrest : pieces? escape rest with
      | none =>
        rw [hrest] at ih
        refine iff_of_false Bool.false_ne_true ?_
        rintro ⟨n, tail, -, -, hlike⟩
        exact Bool.false_ne_true ((ih tail).mpr hlike)
      | some ps =>
        rw [hrest] at ih
        refine fits_literal.trans ?_
        simp only [← ih, Option.any_some]
    · rename_i hp
      have ih := any_pieces?_iff (q :: rest)
      cases hrest : pieces? escape (q :: rest) with
      | none =>
        rw [hrest] at ih
        refine iff_of_false Bool.false_ne_true ?_
        intro hlike
        obtain ⟨tail, htail⟩ := exists_like_tail hp hlike
        exact Bool.false_ne_true ((ih tail).mpr htail)
      | some ps =>
        rw [hrest] at ih
        exact fits_ofPoint hp ih

/-- The database matches as `Like` says. -/
theorem isLike_iff {text : List CodePoint} {pattern : String} :
    isLike text pattern = true ↔ Like (CodePoint.ofText pattern) text :=
  any_pieces?_iff _ _

end Pieces

/-! ## Escaped texts -/

section Escaped

variable {points pattern text : List CodePoint}

/-- An escaped code point takes itself. -/
theorem like_escaped (p : CodePoint) : Like (p.escaped ++ pattern) text ↔
    ∃ n rest, text = n :: rest ∧ p.sameIgnoringCase n = true ∧ Like pattern rest := by
  unfold CodePoint.escaped
  split
  · exact like_escape
  · rename_i hwild
    exact like_itself hwild

/-- Escaped code points take themselves, in either case. -/
theorem like_escaped_append : ∀ {points text : List CodePoint},
    Like (points.flatMap CodePoint.escaped ++ pattern) text ↔
      ∃ front rest, text = front ++ rest ∧ points.map CodePoint.toUpper = front.map CodePoint.toUpper
        ∧ Like pattern rest
  | [], text => by
    constructor
    · intro h
      exact ⟨[], text, rfl, rfl, h⟩
    · rintro ⟨front, rest, rfl, hfront, hrest⟩
      rw [List.map_eq_nil_iff.mp hfront.symm]
      exact hrest
  | p :: points, text => by
    rw [List.flatMap_cons, List.append_assoc, like_escaped]
    constructor
    · rintro ⟨n, tail, rfl, hsame, htail⟩
      obtain ⟨front, rest, rfl, hfront, hrest⟩ := like_escaped_append.mp htail
      refine ⟨n :: front, rest, rfl, ?_, hrest⟩
      rw [List.map_cons, List.map_cons, eq_of_beq hsame, hfront]
    · rintro ⟨front, rest, rfl, hfront, hrest⟩
      cases front with
      | nil => cases hfront
      | cons n front =>
        rw [List.map_cons, List.map_cons, List.cons.injEq] at hfront
        exact ⟨n, front ++ rest, rfl, beq_of_eq hfront.1, like_escaped_append.mpr ⟨front, rest, rfl, hfront.2, hrest⟩⟩

theorem like_any_text : Like [anyText] text := by
  rw [like_anyText]
  exact ⟨[], List.nil_suffix, .done⟩

/-- With `%` behind it an escaped text asks for a prefix. -/
theorem like_escaped_anyText : Like (points.flatMap CodePoint.escaped ++ [anyText]) text ↔
    points.map CodePoint.toUpper <+: text.map CodePoint.toUpper := by
  rw [like_escaped_append]
  constructor
  · rintro ⟨front, rest, rfl, hfront, -⟩
    rw [hfront, List.map_append]
    exact List.prefix_append _ _
  · rintro ⟨rest, hrest⟩
    obtain ⟨front, tail, rfl, hfront, -⟩ := List.map_eq_append_iff.mp hrest.symm
    exact ⟨front, tail, rfl, hfront.symm, like_any_text⟩

/-- With `%` around it an escaped text asks for an infix. -/
theorem like_anyText_escaped : Like (anyText :: (points.flatMap CodePoint.escaped ++ [anyText])) text ↔
    points.map CodePoint.toUpper <:+: text.map CodePoint.toUpper := by
  rw [like_anyText]
  simp only [like_escaped_anyText]
  constructor
  · rintro ⟨rest, hsuffix, hstarts⟩
    exact hstarts.isInfix.trans (hsuffix.map _).isInfix
  · rintro ⟨before, after, h⟩
    rw [List.append_assoc] at h
    obtain ⟨skipped, rest, rfl, -, hrest⟩ := List.map_eq_append_iff.mp h.symm
    refine ⟨rest, List.suffix_append _ _, ?_⟩
    rw [hrest]
    exact List.prefix_append _ _

end Escaped

end Pattern

end SchemaSearch.Store
