import SchemaSearch.Text.Upper

/-!
# Facts about upper case

What the full mapping may put in place of a character, and where it goes further than the upper case of
`a` to `z`.

Main statements: besides the character itself there are only letters `A` to `Z` and characters beyond ASCII
in its upper case (`mem_upperChar`), and where it goes further it starts with another character
(`head_upperChar`).
-/

namespace SchemaSearch.Text

/-- Whether the upper case of a character changes nothing but `a` to `z`. -/
def isAsciiCased (c : Char) : Bool := upperChar c == [c.toUpper]

theorem toList_toUpper (s : String) : (toUpper s).toList = upper s.toList := String.toList_ofList

/-! ## The tables -/

/-- Letters of a run move, and they land on letters `A` to `Z` or beyond ASCII. -/
theorem shift_upperRuns : ∀ run ∈ upperRuns, run.shift ≠ 0 ∧ (run.last < 0xFFFD ∨ 0xFFFF < run.first)
    ∧ (0x41 : Int) ≤ run.first + run.shift ∧ (run.last + run.shift ≤ 0x5A ∨ 0x80 ≤ run.first + run.shift)
    ∧ (run.last + run.shift < 0xD800 ∨ 0xE000 ≤ run.first + run.shift)
    ∧ run.last + run.shift < 0x110000 := by
  decide +kernel

/-- A letter that becomes several gives way to another letter, and all of them are such. -/
theorem codes_upperExpansions : ∀ entry ∈ upperExpansions,
    entry.1 < 0xFFFD ∧ (∃ code rest, entry.2 = code :: rest ∧ code ≠ entry.1)
    ∧ ∀ code ∈ entry.2, 0x41 ≤ code ∧ (code ≤ 0x5A ∨ 0x80 ≤ code) ∧ code < 0xD800 := by
  have hhead : ∀ entry ∈ upperExpansions, entry.1 < 0xFFFD ∧ entry.2.head?.any (· ≠ entry.1)
      ∧ ∀ code ∈ entry.2, 0x41 ≤ code ∧ (code ≤ 0x5A ∨ 0x80 ≤ code) ∧ code < 0xD800 := by
    decide +kernel
  intro entry hentry
  obtain ⟨hmax, hany, hcodes⟩ := hhead entry hentry
  refine ⟨hmax, ?_, hcodes⟩
  cases hentry : entry.2 with
  | nil => rw [hentry] at hany; cases hany
  | cons code rest =>
    rw [hentry] at hany
    exact ⟨code, rest, rfl, of_decide_eq_true hany⟩

/-- The code of the character of a code. -/
theorem toNat_ofNat {n : Nat} (h : n < 0xD800 ∨ 0xE000 ≤ n) (hmax : n < 0x110000) :
    (Char.ofNat n).toNat = n := by
  have hvalid : n.isValidChar := by
    rcases h with h | h
    · exact .inl h
    · exact .inr ⟨by omega, hmax⟩
  rw [Char.ofNat, dif_pos hvalid]
  rfl

/-! ## One character -/

/-- The upper case of ASCII moves the letters `a` to `z`. -/
theorem toNat_toUpper (c : Char) :
    c.toUpper.toNat = if 0x61 ≤ c.toNat ∧ c.toNat ≤ 0x7A then c.toNat - 0x20 else c.toNat := by
  unfold Char.toUpper
  split
  · rename_i hletter
    have hlow : 0x61 ≤ c.toNat := hletter.1
    have hhigh : c.toNat ≤ 0x7A := hletter.2
    have hsum : (c.val + ('A'.val - 'a'.val)).toNat = (c.toNat + 0xFFFFFFE0) % 2 ^ 32 := UInt32.toNat_add _ _
    rw [if_pos ⟨hlow, hhigh⟩]
    refine hsum.trans ?_
    omega
  · rename_i hnot
    exact (if_neg hnot).symm

/-- The lower case of ASCII moves the letters `A` to `Z` back. -/
theorem toNat_toLower (c : Char) :
    c.toLower.toNat = if 0x41 ≤ c.toNat ∧ c.toNat ≤ 0x5A then c.toNat + 0x20 else c.toNat := by
  unfold Char.toLower
  split
  · rename_i hletter
    have hlow : 0x41 ≤ c.toNat := hletter.1
    have hhigh : c.toNat ≤ 0x5A := hletter.2
    have hsum : (c.val + ('a'.val - 'A'.val)).toNat = (c.toNat + 0x20) % 2 ^ 32 := UInt32.toNat_add _ _
    rw [if_pos ⟨hlow, hhigh⟩]
    refine hsum.trans ?_
    omega
  · rename_i hnot
    exact (if_neg hnot).symm

theorem upperChar_of_lt {c : Char} (h : c.toNat < 0x80) : upperChar c = [c.toUpper] := if_pos h

theorem isAsciiCased_of_lt {c : Char} (h : c.toNat < 0x80) : isAsciiCased c = true := beq_of_eq (upperChar_of_lt h)

/-- Beyond ASCII a character stays, or it is a letter of the tables. -/
theorem upperChar_cases {c : Char} (h : 0x80 ≤ c.toNat) :
    upperChar c = [c]
    ∨ (∃ entry ∈ upperExpansions, entry.1 = c.toNat ∧ upperChar c = entry.2.map Char.ofNat)
    ∨ ∃ run ∈ upperRuns, run.first ≤ c.toNat ∧ c.toNat ≤ run.last
      ∧ upperChar c = [Char.ofNat (c.toNat + run.shift).toNat] := by
  have hascii : ¬ c.toNat < 0x80 := by omega
  rw [upperChar, if_neg hascii]
  split
  · rename_i letter codes hfound
    have hletter : (letter == c.toNat) = true :=
      List.find?_some (p := fun entry : Nat × List Nat => entry.1 == c.toNat) hfound
    exact .inr (.inl ⟨_, List.mem_of_find?_eq_some hfound, beq_iff_eq.mp hletter, rfl⟩)
  · split
    · rename_i run hfound
      have hcovers : run.covers c.toNat = true :=
        List.find?_some (p := fun run : CaseRun => run.covers c.toNat) hfound
      simp only [CaseRun.covers, Bool.and_eq_true, decide_eq_true_eq] at hcovers
      exact .inr (.inr ⟨run, List.mem_of_find?_eq_some hfound, hcovers.1.1, hcovers.1.2, rfl⟩)
    · exact .inl rfl

/-- What may stand in the upper case of a character besides itself. -/
theorem mem_upperChar {c d : Char} (h : d ∈ upperChar c) :
    d = c ∨ 0x41 ≤ d.toNat ∧ d.toNat ≤ 0x5A ∨ 0x80 ≤ d.toNat := by
  by_cases hascii : c.toNat < 0x80
  · rw [upperChar_of_lt hascii, List.mem_singleton] at h
    have hcode := toNat_toUpper c
    rw [← h] at hcode
    split at hcode
    · rename_i hletter
      omega
    · exact .inl (Char.toNat_inj.mp hcode)
  · rcases upperChar_cases (Nat.le_of_not_lt hascii) with hself | ⟨entry, hentry, -, hupper⟩
        | ⟨run, hrun, hfirst, hlast, hupper⟩
    · rw [hself, List.mem_singleton] at h
      exact .inl h
    · rw [hupper] at h
      obtain ⟨code, hcode, rfl⟩ := List.mem_map.mp h
      obtain ⟨hlow, hletter, hhigh⟩ := (codes_upperExpansions entry hentry).2.2 code hcode
      rw [toNat_ofNat (.inl hhigh) (by omega)]
      omega
    · rw [hupper, List.mem_singleton] at h
      obtain ⟨-, -, hlow, hletter, hchar, hmax⟩ := shift_upperRuns run hrun
      rw [h, toNat_ofNat (by omega) (by omega)]
      omega

/-- Upper case makes no NUL. -/
theorem nul_not_mem_upper {cs : List Char} (h : '\x00' ∉ cs) : '\x00' ∉ upper cs := by
  intro hmem
  obtain ⟨c, hc, hnul⟩ := List.mem_flatMap.mp hmem
  rcases mem_upperChar hnul with rfl | hletter
  · exact h hc
  · revert hletter
    decide

/-- An upper case that is not that of ASCII starts with another character. -/
theorem head_upperChar {c : Char} (h : isAsciiCased c = false) :
    0x80 ≤ c.toNat ∧ (c.toNat < 0xFFFD ∨ 0xFFFF < c.toNat)
    ∧ ∃ first rest, upperChar c = first :: rest ∧ first ≠ c := by
  have hupper : upperChar c ≠ [c.toUpper] := ne_of_beq_false h
  by_cases hascii : c.toNat < 0x80
  · exact absurd (upperChar_of_lt hascii) hupper
  · have hbeyond : 0x80 ≤ c.toNat := Nat.le_of_not_lt hascii
    refine ⟨hbeyond, ?_⟩
    rcases upperChar_cases hbeyond with hself | ⟨entry, hentry, hletter, hcodes⟩
        | ⟨run, hrun, hfirst, hlast, hmoved⟩
    · have hkept : c.toUpper = c := by
        rw [← Char.toNat_inj, toNat_toUpper, if_neg (by omega)]
      rw [hkept] at hupper
      exact absurd hself hupper
    · obtain ⟨hmax, ⟨code, rest, hcons, hother⟩, hall⟩ := codes_upperExpansions entry hentry
      have hcode := (hall code (by rw [hcons]; exact List.mem_cons_self)).2.2
      rw [hletter] at hmax hother
      rw [hcodes, hcons, List.map_cons]
      refine ⟨.inl hmax, _, _, rfl, ?_⟩
      rwa [Ne, ← Char.toNat_inj, toNat_ofNat (.inl hcode) (by omega)]
    · obtain ⟨hshift, haway, hlow, hletter, hchar, hmax⟩ := shift_upperRuns run hrun
      rw [hmoved]
      refine ⟨by omega, _, _, rfl, ?_⟩
      rw [Ne, ← Char.toNat_inj, toNat_ofNat (by omega) (by omega)]
      omega

end SchemaSearch.Text
