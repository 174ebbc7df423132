import SchemaSearch.Moment.Basic

/-!
# Time zones

The clocks of a place are ahead of universal time by whole minutes, less than a day either way.  Going from
the one to the other turns the clock, and the calendar by a day where the clock passes midnight; seconds stay
as they are, those of a leap second too.
-/

namespace SchemaSearch

namespace Moment

/-! ## Turning the calendar and the clock -/

/-- The same time on the next day. -/
def onNextDay (m : Moment) : Moment :=
  if m.day < daysInMonth m.year m.month then { m with day := m.day + 1 }
  else if m.month < 12 then { m with month := m.month + 1, day := 1 }
  else { m with year := m.year + 1, month := 1, day := 1 }

/-- The same time on the day before. -/
def onDayBefore (m : Moment) : Moment :=
  if 1 < m.day then { m with day := m.day - 1 }
  else if 1 < m.month then { m with month := m.month - 1, day := daysInMonth m.year (m.month - 1) }
  else { m with year := m.year - 1, month := 12, day := daysInMonth (m.year - 1) 12 }

/-- The minutes since midnight. -/
def clock (m : Moment) : Int := 60 * m.hour + m.minute

/-- The moment of the same day with other hours and minutes, counted from some midnight. -/
def atClock (m : Moment) (minutes : Int) : Moment :=
  { m with hour := (minutes % 1440 / 60).toNat, minute := (minutes % 60).toNat }

/-- What clocks show that are ahead by less than a day. -/
def ahead (m : Moment) (minutes : Int) : Moment :=
  let turned := m.clock + minutes
  if turned < 0 then m.onDayBefore.atClock turned
  else if turned < 1440 then m.atClock turned
  else m.onNextDay.atClock turned

end Moment

/-! ## Zones -/

/-- A moment as the clocks of some place show it. -/
structure Zoned where
  /-- The moment in universal time. -/
  universal : Moment
  /-- By how many minutes the clocks of the place are ahead. -/
  offset : Int
  deriving DecidableEq, Repr

namespace Zoned

/-- The moment when clocks that are ahead by an offset show another. -/
def ofShown (shown : Moment) (offset : Int) : Zoned := ⟨shown.ahead (-offset), offset⟩

/-- What the clocks of the place show. -/
def shown (z : Zoned) : Moment := z.universal.ahead z.offset

end Zoned

namespace Moment

variable {m : Moment}

/-! ## There and back -/

/-- Whether the day is one of its month, and the time one of a day. -/
structure IsOnCalendar (m : Moment) : Prop where
  day : 1 ≤ m.day ∧ m.day ≤ daysInMonth m.year m.month
  hour : m.hour < 24
  minute : m.minute < 60

theorem isOnCalendar_of_isValid (h : m.isValid = true) : m.IsOnCalendar := by
  simp only [isValid, Bool.and_eq_true, decide_eq_true_eq] at h
  obtain ⟨⟨⟨⟨⟨⟨-, hday⟩, hdays⟩, hhour⟩, hminute⟩, -⟩, -⟩ := h
  exact ⟨⟨hday, hdays⟩, hhour, hminute⟩

/-- A month that has days is one of twelve. -/
theorem IsOnCalendar.month (h : m.IsOnCalendar) : 1 ≤ m.month ∧ m.month ≤ 12 := by
  obtain ⟨hday, hdays⟩ := h.day
  unfold daysInMonth at hdays
  split at hdays <;> omega

/-- The day before the next day is the day where one started. -/
theorem onDayBefore_onNextDay (h : m.IsOnCalendar) : m.onNextDay.onDayBefore = m := by
  have hmonth := h.month
  obtain ⟨hday, hdays⟩ := h.day
  obtain ⟨year, month, day, hour, minute, second, nanosecond⟩ := m
  dsimp only at hmonth hday hdays
  unfold onNextDay
  dsimp only
  split
  · -- within a month
    rw [onDayBefore, if_pos (by dsimp only; omega)]
    rfl
  · have hlast : daysInMonth year month = day := by omega
    split
    · -- to the first of the next month
      rw [onDayBefore, if_neg (by dsimp only; omega), if_pos (by dsimp only; omega)]
      simp [hlast]
    · -- to the first of the next year
      obtain rfl : month = 12 := by omega
      rw [onDayBefore, if_neg (by dsimp only; omega), if_neg (by dsimp only; omega)]
      simp [hlast]

/-- The day after the day before is the day where one started. -/
theorem onNextDay_onDayBefore (h : m.IsOnCalendar) : m.onDayBefore.onNextDay = m := by
  have hmonth := h.month
  obtain ⟨hday, hdays⟩ := h.day
  obtain ⟨year, month, day, hour, minute, second, nanosecond⟩ := m
  dsimp only at hmonth hday hdays
  unfold onDayBefore
  dsimp only
  split
  · rw [onNextDay, if_pos (by dsimp only; omega)]
    simp [Nat.sub_add_cancel hday]
  · obtain rfl : day = 1 := by omega
    split
    · rw [onNextDay, if_neg (by dsimp only; omega), if_pos (by dsimp only; omega)]
      simp [Nat.sub_add_cancel hmonth.1]
    · obtain rfl : month = 1 := by omega
      rw [onNextDay, if_neg (by dsimp only; omega), if_neg (by dsimp only; omega)]
      simp

theorem onNextDay_atClock (m : Moment) (minutes : Int) :
    (m.atClock minutes).onNextDay = m.onNextDay.atClock minutes := by
  simp only [onNextDay, apply_ite (atClock · minutes)]
  rfl

theorem onDayBefore_atClock (m : Moment) (minutes : Int) :
    (m.atClock minutes).onDayBefore = m.onDayBefore.atClock minutes := by
  simp only [onDayBefore, apply_ite (atClock · minutes)]
  rfl

theorem clock_atClock (m : Moment) (minutes : Int) : (m.atClock minutes).clock = minutes % 1440 := by
  simp only [clock, atClock]
  omega

/-- Hours and minutes are those of the clock, whichever midnight it counts from. -/
theorem atClock_eq_self (h : m.IsOnCalendar) {minutes : Int} (hclock : minutes % 1440 = m.clock) :
    m.atClock minutes = m := by
  obtain ⟨-, hhour, hminute⟩ := h
  obtain ⟨year, month, day, hour, minute, second, nanosecond⟩ := m
  simp only [clock] at hclock hhour hminute
  have hhours : (minutes % 1440 / 60).toNat = hour := by omega
  have hminutes : (minutes % 60).toNat = minute := by omega
  rw [atClock, hhours, hminutes]

/-- Clocks that are ahead by an offset show what the moment was made of, whichever day it is in universal
time. -/
theorem shown_ofShown (h : m.IsOnCalendar) {offset : Int} (hlow : -1440 < offset) (hhigh : offset < 1440) :
    (Zoned.ofShown m offset).shown = m := by
  have hclock : 0 ≤ m.clock ∧ m.clock < 1440 := by
    obtain ⟨-, hhour, hminute⟩ := h
    unfold clock
    omega
  rw [Zoned.shown, Zoned.ofShown]
  unfold ahead
  dsimp only
  split
  · rw [clock_atClock, if_neg (by omega), if_neg (by omega), onNextDay_atClock, onNextDay_onDayBefore h]
    exact atClock_eq_self h (by omega)
  · split
    · rw [clock_atClock, if_neg (by omega), if_pos (by omega)]
      exact atClock_eq_self h (by omega)
    · rw [clock_atClock, if_pos (by omega), onDayBefore_atClock, onDayBefore_onNextDay h]
      exact atClock_eq_self h (by omega)

end Moment

end SchemaSearch
