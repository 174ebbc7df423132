import SchemaSearch.Proofs.Moment.Parts

/-!
# Written moments

A moment of a year of four digits is written as a date, then hours and minutes, seconds with a fraction, and an
offset, as much of it as there is to tell.  Each of the readers that are tried takes the parts of a written
moment for what they are, or refuses the text for what comes next or is missing; so it does not matter which
of them comes first.

Main statement: whatever form a moment is written in, with any white space around it, it is read as that
moment, and no reader takes the text for another (`read_written`).
-/

namespace SchemaSearch.Moment

open Decimal

/-! ## Written moments -/

/-- Whether a moment exists, in a year of four digits. -/
structure IsWritable (m : Moment) : Prop where
  valid : m.isValid = true
  low : 0 ≤ m.year
  high : m.year ≤ 9999

/-- The hours and minutes. -/
def minutesText (m : Moment) : String := padded 2 m.hour ++ ":" ++ padded 2 m.minute

/-- The forms in which a moment is written: a date for its midnight; the date with hours and minutes, or with
the whole time of the day; and the Internet form, with the offset of the clocks that show it. -/
inductive IsWritten (m : Moment) : String → Prop
  | date (hhour : m.hour = 0) (hminute : m.minute = 0) (hsecond : m.second = 0) (hfraction : m.nanosecond = 0) :
    IsWritten m m.dateText
  | minutes {mark : Char} (hmark : mark = 'T' ∨ mark = ' ') (hsecond : m.second = 0)
      (hfraction : m.nanosecond = 0) :
    IsWritten m (m.dateText ++ String.singleton mark ++ m.minutesText)
  | clock {mark : Char} {fraction : String} (hmark : mark = 'T' ∨ mark = ' ')
      (hfraction : IsFraction m.nanosecond fraction) :
    IsWritten m (m.dateText ++ String.singleton mark ++ m.clockText ++ fraction)
  | internet {mark : Char} {fraction offset : String} {ahead : Int} (hmark : isTimeMark mark = true)
      (hfraction : IsFraction m.nanosecond fraction) (hoffset : IsOffset ahead offset) :
    IsWritten m (m.dateText ++ String.singleton mark ++ m.clockText ++ fraction ++ offset)

/-- The character that stands for a separator. -/
def Separator.char : Separator → Char
  | .letter => 'T'
  | .blanks => ' '

theorem Separator.isTimeMark_char (separator : Separator) : isTimeMark separator.char = true := by
  cases separator <;> rfl

section Written

variable {m : Moment} {mark : Char} {separator : Separator} {withSeconds : Bool}

theorem toList_dateText (hm : m.IsWritable) (rest : List Char) :
    m.dateText.toList ++ rest = (padded 4 m.year.natAbs).toList ++ '-' :: ((padded 2 m.month).toList
      ++ '-' :: ((padded 2 m.day).toList ++ rest)) := by
  simp [dateText, toList_yearText_of_fourDigits hm.low hm.high]

theorem IsWritable.natAbs_year (hm : m.IsWritable) :
    (m.year.natAbs : Int) = m.year ∧ m.year.natAbs < 10 ^ 4 := by
  obtain ⟨-, hlow, hhigh⟩ := hm
  omega

theorem looseDate_dateText (hm : m.IsWritable) (rest : List Char) :
    looseDate (m.dateText.toList ++ rest) = some ((m.year, m.month, m.day), rest) := by
  obtain ⟨hmonth, hday, -⟩ := bounds_of_isValid hm.valid
  obtain ⟨hyear, hwidth⟩ := hm.natAbs_year
  simp [toList_dateText hm, looseDate, looseYear_padded hwidth, looseNumber_padded _ hmonth,
    looseNumber_padded _ hday, Moment.mark, hyear]

/-- The hour comes behind the character of its separator, and behind no other one. -/
theorem bind_read_separator (hmark : isTimeMark mark = true) {hour : Nat} (hhour : hour < 10 ^ 2)
    (rest : List Char) :
    (separator.read (mark :: ((padded 2 hour).toList ++ rest))).bind (looseNumber 2)
      = if mark = separator.char then some (hour, rest) else none := by
  have htaken : looseNumber 2 ((padded 2 hour).toList ++ rest) = some (hour, rest) :=
    looseNumber_padded (by decide) hhour
  have hmarks : (mark = 'T' ∨ mark = 't') ∨ mark = ' ' := by simpa [isTimeMark] using hmark
  cases separator with
  | letter =>
    rw [Separator.read, Moment.mark, Separator.char]
    by_cases hletter : mark = 'T'
    · rw [if_pos hletter, if_pos hletter, Option.bind_some, htaken]
    · rw [if_neg hletter, if_neg hletter, Option.bind_none]
  | blanks =>
    rw [Separator.read, Option.bind_some, Separator.char]
    rcases hmarks with hletter | rfl
    · have hshown : Text.isBlank mark = false ∧ isDigit mark = false ∧ mark ≠ ' ' := by
        rcases hletter with rfl | rfl <;> decide
      obtain ⟨hblank, hdigit, hne⟩ := hshown
      rw [Text.trimStart_eq_self_of_head (by simpa using hblank), looseNumber_eq_none hblank hdigit, if_neg hne]
    · have hblanks : ∀ c ∈ [' '], Text.isBlank c = true := List.forall_mem_singleton.mpr (by decide)
      rw [← List.singleton_append, Text.trimStart_append hblanks, trimStart_padded (by decide) hhour, htaken,
        if_pos rfl]

/-! ## What each reader makes of them -/

theorem toList_minutesText (m : Moment) (rest : List Char) :
    m.minutesText.toList ++ rest
      = (padded 2 m.hour).toList ++ ':' :: ((padded 2 m.minute).toList ++ rest) := by
  simp [minutesText]

theorem toList_clockText (m : Moment) (rest : List Char) :
    m.clockText.toList ++ rest = (padded 2 m.hour).toList ++ ':' :: ((padded 2 m.minute).toList
      ++ ':' :: ((padded 2 m.second).toList ++ rest)) := by
  simp [clockText]

section Exact

/-- The Internet form needs seconds, and takes all that stands before the offset. -/
theorem exactMoment_clock (hm : m.IsWritable) (hmark : isTimeMark mark = true) {text : String} {rest : List Char}
    (hfraction : IsFraction m.nanosecond text) (hrest : ∀ c ∈ rest.head?, isDigit c = false ∧ c ≠ '.') :
    exactMoment (m.dateText.toList ++ mark :: (m.clockText.toList ++ (text.toList ++ rest))) = some (m, rest) := by
  obtain ⟨hmonth, hday, hhour, hminute, hsecond, -⟩ := bounds_of_isValid hm.valid
  obtain ⟨hyear, hwidth⟩ := hm.natAbs_year
  rw [toList_dateText hm, toList_clockText]
  simp only [exactMoment, ↓bind_number_padded _ _ hwidth, ↓bind_number_padded _ _ hmonth,
    ↓bind_number_padded _ _ hday, ↓bind_number_padded _ _ hhour, ↓bind_number_padded _ _ hminute,
    ↓bind_number_padded _ _ hsecond, ↓bind_mark, ↓bind_timeMark hmark, fraction_append hfraction hrest, hyear,
    Option.bind_eq_bind, Option.bind_some, Nat.le_refl, Nat.zero_lt_succ]

/-- Without seconds there is no Internet form. -/
theorem exactMoment_minutes (hm : m.IsWritable) (hmark : isTimeMark mark = true) :
    exactMoment (m.dateText.toList ++ mark :: (m.minutesText.toList ++ [])) = none := by
  obtain ⟨hmonth, hday, hhour, hminute, -⟩ := bounds_of_isValid hm.valid
  obtain ⟨-, hwidth⟩ := hm.natAbs_year
  rw [toList_dateText hm, toList_minutesText]
  simp only [exactMoment, ↓bind_number_padded _ _ hwidth, ↓bind_number_padded _ _ hmonth,
    ↓bind_number_padded _ _ hday, ↓bind_number_padded _ _ hhour, ↓bind_number_padded _ _ hminute, ↓bind_mark,
    ↓bind_timeMark hmark, Nat.le_refl, Nat.zero_lt_succ]
  rfl

theorem exactMoment_date (hm : m.IsWritable) : exactMoment (m.dateText.toList ++ []) = none := by
  obtain ⟨hmonth, hday, -⟩ := bounds_of_isValid hm.valid
  obtain ⟨-, hwidth⟩ := hm.natAbs_year
  rw [toList_dateText hm]
  simp only [exactMoment, ↓bind_number_padded _ _ hwidth, ↓bind_number_padded _ _ hmonth,
    ↓bind_number_padded _ _ hday, ↓bind_mark, Nat.le_refl, Nat.zero_lt_succ]
  rfl

/-- The Internet form shows the moment whatever the offset. -/
theorem readShown_internet (hm : m.IsWritable) (hmark : isTimeMark mark = true) {text zone : String} {ahead : Int}
    (hfraction : IsFraction m.nanosecond text) (hoffset : IsOffset ahead zone) :
    readShown (m.dateText.toList ++ mark :: (m.clockText.toList ++ (text.toList ++ zone.toList))) = some m := by
  have hread := offset_eq_some hoffset
  obtain ⟨hlow, hhigh⟩ := offset_bounds hread
  rw [readShown, readInternet, exactMoment_clock hm hmark hfraction hoffset.head]
  simp only [Option.bind_eq_bind, Option.bind_some, hread, hm.valid, if_true, Option.map_some]
  rw [shown_ofShown (isOnCalendar_of_isValid hm.valid) hlow hhigh]

end Exact

section Loose

/-- A date with hours and minutes is taken with its own separator, when seconds are not asked for. -/
theorem readLoose_minutes (separator : Separator) (withSeconds : Bool) (hm : m.IsWritable)
    (hmark : isTimeMark mark = true) (hsecond : m.second = 0) (hfraction : m.nanosecond = 0) :
    readLoose separator withSeconds (m.dateText.toList ++ mark :: (m.minutesText.toList ++ []))
      = if mark = separator.char ∧ withSeconds = false then some m else none := by
  obtain ⟨-, -, hhour, hminute, -⟩ := bounds_of_isValid hm.valid
  have hwhole : (⟨m.year, m.month, m.day, m.hour, m.minute, 0, 0⟩ : Moment) = m := by
    cases m
    cases hsecond
    cases hfraction
    rfl
  have hend : looseNumber 2 (padded 2 m.minute).toList = some (m.minute, []) := by
    rw [← List.append_nil (padded 2 m.minute).toList, looseNumber_padded (by decide) hminute]
  rw [readLoose, looseDate_dateText hm, toList_minutesText]
  simp only [Option.bind_eq_bind, Option.bind_some, ← Option.bind_assoc, bind_read_separator hmark hhour]
  by_cases hown : mark = separator.char
  · cases withSeconds <;>
      simp [hown, hend, Moment.mark, hwhole, hm.valid]
  · simp [hown]

/-- A date with the whole time is taken with its own separator, when seconds are asked for and no offset
follows. -/
theorem readLoose_clock (separator : Separator) (withSeconds : Bool) (hm : m.IsWritable)
    (hmark : isTimeMark mark = true) {text : String} {rest : List Char} (hfraction : IsFraction m.nanosecond text)
    (hrest : ∀ c ∈ rest.head?, isDigit c = false ∧ c ≠ '.') :
    readLoose separator withSeconds
        (m.dateText.toList ++ mark :: (m.clockText.toList ++ (text.toList ++ rest)))
      = if mark = separator.char ∧ withSeconds = true ∧ rest = [] then some m else none := by
  obtain ⟨-, -, hhour, hminute, hsecond, -⟩ := bounds_of_isValid hm.valid
  rw [readLoose, looseDate_dateText hm, toList_clockText]
  simp only [Option.bind_eq_bind, Option.bind_some, ← Option.bind_assoc, bind_read_separator hmark hhour]
  by_cases hown : mark = separator.char
  · cases withSeconds <;>
      simp [hown, looseNumber_padded _ hminute, looseNumber_padded _ hsecond, fraction_append hfraction hrest,
        Moment.mark, hm.valid]
  · simp [hown]

/-- A date alone has no time. -/
theorem readLoose_date (hm : m.IsWritable) :
    readLoose separator withSeconds (m.dateText.toList ++ []) = none := by
  rw [readLoose, looseDate_dateText hm]
  cases separator <;> rfl

/-- A bare date is its midnight, and nothing follows it. -/
theorem readDate_dateText (hm : m.IsWritable) (rest : List Char) :
    readDate (m.dateText.toList ++ rest)
      = if rest = [] then some ⟨m.year, m.month, m.day, 0, 0, 0, 0⟩ else none := by
  have hvalid : (⟨m.year, m.month, m.day, 0, 0, 0, 0⟩ : Moment).isValid = true := by
    have h := hm.valid
    simp only [isValid, Bool.and_eq_true, decide_eq_true_eq] at h ⊢
    omega
  rw [readDate, looseDate_dateText hm]
  simp [hvalid]

end Loose

/-! ## Whatever the form -/

/-- Whether some reader takes a text for a moment, and no reader for another one. -/
structure IsTaken (m : Moment) (cs : List Char) : Prop where
  agree : ∀ form ∈ forms, form cs = none ∨ form cs = some m
  taken : ∃ form ∈ forms, form cs = some m

/-- When the readers agree it does not matter which comes first. -/
theorem IsTaken.findSome?_eq {cs : List Char} (h : m.IsTaken cs) : forms.findSome? (· cs) = some m := by
  obtain ⟨form, hmem, hform⟩ := h.taken
  cases hfound : forms.findSome? (· cs) with
  | none =>
    rw [List.findSome?_eq_none_iff] at hfound
    rw [hfound form hmem] at hform
    cases hform
  | some other =>
    obtain ⟨first, hfirst, hother⟩ := List.exists_of_findSome?_eq_some hfound
    rcases h.agree first hfirst with hnone | hsome
    · rw [hnone] at hother
      cases hother
    · rw [← hother, hsome]

theorem forall_mem_forms {P : (List Char → Option Moment) → Prop} (hshown : P readShown)
    (hloose : ∀ separator withSeconds, P (readLoose separator withSeconds)) (hdate : P readDate) :
    ∀ form ∈ forms, P form := by
  simp only [forms, List.forall_mem_cons, hshown, hloose, hdate, List.not_mem_nil, false_implies, implies_true,
    and_true]

theorem readLoose_mem_forms : readLoose separator withSeconds ∈ forms := by
  cases separator <;> cases withSeconds <;> simp [forms]

/-- Nothing but an offset makes a text one of the Internet form. -/
theorem readShown_eq_none {cs : List Char} (h : ∀ parts ∈ exactMoment cs, offset parts.2 = none) :
    readShown cs = none := by
  rw [readShown, readInternet]
  cases hparts : exactMoment cs with
  | none => rfl
  | some parts =>
    obtain ⟨shown, rest⟩ := parts
    have hoffset : offset rest = none := h (shown, rest) hparts
    simp only [Option.bind_eq_bind, Option.bind_some, hoffset, Option.bind_none, Option.map_none]

section Taken

variable {text zone : String} {ahead : Int}

theorem isTaken_date (hm : m.IsWritable) (hhour : m.hour = 0) (hminute : m.minute = 0) (hsecond : m.second = 0)
    (hfraction : m.nanosecond = 0) : m.IsTaken (m.dateText.toList ++ []) := by
  have hmidnight : readDate (m.dateText.toList ++ []) = some m := by
    rw [readDate_dateText hm, if_pos rfl]
    cases m
    simp_all
  have hinternet : readShown (m.dateText.toList ++ []) = none :=
    readShown_eq_none (by rw [exactMoment_date hm]; simp)
  exact ⟨forall_mem_forms (.inl hinternet) (fun _ _ => .inl (readLoose_date hm)) (.inr hmidnight),
    readDate, by simp [forms], hmidnight⟩

theorem isTaken_minutes (hm : m.IsWritable) (hmark : ∃ separator : Separator, mark = separator.char)
    (hsecond : m.second = 0) (hfraction : m.nanosecond = 0) :
    m.IsTaken (m.dateText.toList ++ mark :: (m.minutesText.toList ++ [])) := by
  obtain ⟨separator, rfl⟩ := hmark
  have hloose := fun other withSeconds =>
    readLoose_minutes other withSeconds hm separator.isTimeMark_char hsecond hfraction
  have hinternet : readShown (m.dateText.toList ++ separator.char :: (m.minutesText.toList ++ [])) = none :=
    readShown_eq_none (by rw [exactMoment_minutes hm separator.isTimeMark_char]; simp)
  refine ⟨forall_mem_forms (.inl hinternet) (fun other withSeconds => ?_) (.inl ?_),
    readLoose separator false, readLoose_mem_forms, ?_⟩
  · rw [hloose]
    exact (ite_eq_or_eq ..).symm
  · rw [readDate_dateText hm, if_neg (List.cons_ne_nil _ _)]
  · rw [hloose, if_pos ⟨rfl, rfl⟩]

theorem isTaken_clock (hm : m.IsWritable) (hmark : ∃ separator : Separator, mark = separator.char)
    (hfraction : IsFraction m.nanosecond text) :
    m.IsTaken (m.dateText.toList ++ mark :: (m.clockText.toList ++ (text.toList ++ []))) := by
  obtain ⟨separator, rfl⟩ := hmark
  have hnothing : ∀ c ∈ ([] : List Char).head?, isDigit c = false ∧ c ≠ '.' := by simp
  have hloose := fun other withSeconds =>
    readLoose_clock other withSeconds hm separator.isTimeMark_char hfraction hnothing
  refine ⟨forall_mem_forms (.inl (readShown_eq_none ?_)) (fun other withSeconds => ?_) (.inl ?_),
    readLoose separator true, readLoose_mem_forms, ?_⟩
  · rw [exactMoment_clock hm separator.isTimeMark_char hfraction hnothing]
    rintro parts ⟨⟩
    rfl
  · rw [hloose]
    exact (ite_eq_or_eq ..).symm
  · rw [readDate_dateText hm, if_neg (List.cons_ne_nil _ _)]
  · rw [hloose, if_pos ⟨rfl, rfl, rfl⟩]

theorem isTaken_internet (hm : m.IsWritable) (hmark : isTimeMark mark = true)
    (hfraction : IsFraction m.nanosecond text) (hoffset : IsOffset ahead zone) :
    m.IsTaken (m.dateText.toList ++ mark :: (m.clockText.toList ++ (text.toList ++ zone.toList))) := by
  have hshown := readShown_internet hm hmark hfraction hoffset
  refine ⟨forall_mem_forms (.inr hshown) (fun other withSeconds => ?_) (.inl ?_), readShown, by simp [forms],
    hshown⟩
  · rw [readLoose_clock other withSeconds hm hmark hfraction hoffset.head]
    exact (ite_eq_or_eq ..).symm
  · rw [readDate_dateText hm, if_neg (List.cons_ne_nil _ _)]

/-- Whatever form a moment is written in. -/
theorem isTaken_of_isWritten (hm : m.IsWritable) (h : m.IsWritten text) : m.IsTaken text.toList := by
  have hseparator : ∀ mark : Char, mark = 'T' ∨ mark = ' ' → ∃ separator : Separator, mark = separator.char := by
    rintro mark (rfl | rfl)
    · exact ⟨.letter, rfl⟩
    · exact ⟨.blanks, rfl⟩
  cases h with
  | date hhour hminute hsecond hfraction => simpa using isTaken_date hm hhour hminute hsecond hfraction
  | minutes hmark hsecond hfraction => simpa using isTaken_minutes hm (hseparator _ hmark) hsecond hfraction
  | clock hmark hfraction => simpa using isTaken_clock hm (hseparator _ hmark) hfraction
  | internet hmark hfraction hoffset => simpa using isTaken_internet hm hmark hfraction hoffset

/-! ## White space around a written moment -/

theorem isBlank_of_mem_dateText (hm : m.IsWritable) : ∀ c ∈ m.dateText.toList, Text.isBlank c = false := by
  have hminus : Text.isBlank '-' = false := by decide
  rw [← List.append_nil m.dateText.toList, toList_dateText hm]
  simp only [List.forall_mem_append, List.forall_mem_cons, hminus, true_and]
  exact ⟨isBlank_of_mem_padded, isBlank_of_mem_padded, isBlank_of_mem_padded, by simp⟩

theorem isBlank_of_mem_minutesText : ∀ c ∈ m.minutesText.toList, Text.isBlank c = false := by
  have hcolon : Text.isBlank ':' = false := by decide
  rw [← List.append_nil m.minutesText.toList, toList_minutesText]
  simp only [List.forall_mem_append, List.forall_mem_cons, hcolon, true_and]
  exact ⟨isBlank_of_mem_padded, isBlank_of_mem_padded, by simp⟩

theorem isBlank_of_mem_clockText : ∀ c ∈ m.clockText.toList, Text.isBlank c = false := by
  have hcolon : Text.isBlank ':' = false := by decide
  rw [← List.append_nil m.clockText.toList, toList_clockText]
  simp only [List.forall_mem_append, List.forall_mem_cons, hcolon, true_and]
  exact ⟨isBlank_of_mem_padded, isBlank_of_mem_padded, isBlank_of_mem_padded, by simp⟩

/-- White space can only stand between the date and the time. -/
theorem trim_dateText_append (hm : m.IsWritable) {time : List Char} (hne : time ≠ [])
    (htime : ∀ c ∈ time, Text.isBlank c = false) :
    Text.trim (m.dateText.toList ++ mark :: time) = m.dateText.toList ++ mark :: time := by
  have hfirst : ∀ c ∈ (m.dateText.toList ++ mark :: time).head?, Text.isBlank c = false := by
    intro c hc
    obtain ⟨first, digits, htext, hdigit⟩ := exists_padded (by decide) hm.natAbs_year.2
    rw [toList_dateText hm, htext] at hc
    cases hc
    exact isBlank_of_isDigit hdigit
  rw [List.append_cons] at hfirst ⊢
  exact Text.trim_append_eq_self hfirst hne htime

theorem trim_eq_self_of_isWritten (hm : m.IsWritable) (h : m.IsWritten text) :
    Text.trim text.toList = text.toList := by
  have hclock : m.clockText.toList ≠ [] := by
    rw [← List.append_nil m.clockText.toList, toList_clockText]
    simp
  cases h with
  | date => exact Text.trim_eq_self (isBlank_of_mem_dateText hm)
  | minutes =>
    have hminutes : m.minutesText.toList ≠ [] := by simp [minutesText]
    simpa using trim_dateText_append hm hminutes isBlank_of_mem_minutesText
  | clock _ hfraction =>
    simpa using trim_dateText_append hm (List.append_ne_nil_of_left_ne_nil hclock _)
      (List.forall_mem_append.mpr ⟨isBlank_of_mem_clockText, isBlank_of_mem_fraction hfraction⟩)
  | internet _ hfraction hoffset =>
    simpa using trim_dateText_append hm (List.append_ne_nil_of_left_ne_nil hclock _)
      (List.forall_mem_append.mpr ⟨isBlank_of_mem_clockText, List.forall_mem_append.mpr
        ⟨isBlank_of_mem_fraction hfraction, isBlank_of_mem_offset hoffset⟩⟩)

end Taken

end Written

/-- A moment of a year of four digits is read from every form in which it is written, with any white space
around it; none of the forms that are tried takes the text for another moment. -/
theorem read_written {m : Moment} (hm : m.IsWritable) {text : String} (h : m.IsWritten text)
    {before after : List Char} (hbefore : ∀ c ∈ before, Text.isBlank c = true)
    (hafter : ∀ c ∈ after, Text.isBlank c = true) :
    read (String.ofList before ++ text ++ String.ofList after) = some m
      ∧ ∀ form ∈ forms, form text.toList = none ∨ form text.toList = some m := by
  have htaken := isTaken_of_isWritten hm h
  refine ⟨?_, htaken.agree⟩
  have htrimmed : Text.trim (String.ofList before ++ text ++ String.ofList after).toList = text.toList := by
    rw [String.toList_append, String.toList_append, String.toList_ofList, String.toList_ofList,
      Text.trim_surrounded hbefore hafter, trim_eq_self_of_isWritten hm h]
  rw [read, htrimmed]
  exact htaken.findSome?_eq

/-- The leap second at the end of a year, half over. -/
def leapSecond : Moment := ⟨2016, 12, 31, 23, 59, 60, 500000000⟩

/-- In universal time it is the next year already where clocks are almost a day behind. -/
theorem read_written_leapSecond : read "\t2016-12-31T23:59:60.5-23:59 " = some leapSecond := by
  have hdigits : DenotesNat ['5'] 5 := readNat_eq_some_iff.mp rfl
  have hfraction : IsFraction leapSecond.nanosecond ".5" := .point hdigits (by decide)
  have hoffset : IsOffset (-(60 * 23 + 59)) "-23:59" := .behind (by decide) (by decide)
  have hmark : isTimeMark 'T' = true := rfl
  have hwritten := IsWritten.internet (m := leapSecond) hmark hfraction hoffset
  have hbefore : ∀ c ∈ ['\t'], Text.isBlank c = true := List.forall_mem_singleton.mpr (by decide)
  have hafter : ∀ c ∈ [' '], Text.isBlank c = true := List.forall_mem_singleton.mpr (by decide)
  exact (read_written ⟨by decide, by decide, by decide⟩ hwritten hbefore hafter).1

end SchemaSearch.Moment
