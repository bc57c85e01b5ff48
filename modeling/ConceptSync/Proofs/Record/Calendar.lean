import Mathlib.Data.List.Basic
import Mathlib.Algebra.Order.Ring.Int
import Mathlib.Tactic.SplitIfs
import ConceptSync.Record.Timestamp

set_option autoImplicit false
set_option relaxedAutoImplicit false

/-!
Points of time as numbers of minutes. Moving a time by less than a day moves its number by as much,
across the ends of days, months and years, and no two times on the calendar have the same number.
-/

namespace ConceptSync

namespace Timestamp

/-- A date that the calendar has and a time that the clock shows, in any year. -/
structure OnCalendar (t : Timestamp) : Prop where
  one_le_month : 1 ≤ t.month
  month_le : t.month ≤ 12
  one_le_day : 1 ≤ t.day
  day_le : t.day ≤ daysInMonth t.year t.month
  hour_le : t.hour ≤ 23
  minute_le : t.minute ≤ 59

theorem onCalendar_of_isValid {t : Timestamp} (h : t.isValid = true) : t.OnCalendar := by
  obtain ⟨-, -, hmonth, hmonth', hday, hday', hhour, hminute, -, -⟩ := of_decide_eq_true h
  exact ⟨hmonth, hmonth', hday, hday', hhour, hminute⟩

def daysBeforeYear (year : Int) : Int :=
  365 * (year - 1) + (year - 1) / 4 - (year - 1) / 100 + (year - 1) / 400

def daysBeforeMonth (year : Int) : Nat → Nat
  | 0 => 0
  | 1 => 0
  | month + 1 => daysBeforeMonth year month + daysInMonth year month

def dayNumber (t : Timestamp) : Int :=
  daysBeforeYear t.year + daysBeforeMonth t.year t.month + t.day

def minutes (t : Timestamp) : Int := t.dayNumber * 1440 + t.hour * 60 + t.minute

private theorem daysBeforeMonth_succ (year : Int) {month : Nat} (h : 1 ≤ month) :
    daysBeforeMonth year (month + 1) = daysBeforeMonth year month + daysInMonth year month := by
  obtain ⟨n, rfl⟩ : ∃ n, month = n + 1 := ⟨month - 1, by omega⟩
  rfl

private theorem daysInMonth_pos (year : Int) (month : Nat) : 28 ≤ daysInMonth year month := by
  unfold daysInMonth
  split_ifs <;> omega

private theorem daysBeforeMonth_mono (year : Int) {month later : Nat} (hpos : 1 ≤ month)
    (h : month < later) :
    daysBeforeMonth year month + daysInMonth year month ≤ daysBeforeMonth year later := by
  induction later with
  | zero => omega
  | succ later ih =>
    rw [daysBeforeMonth_succ year (by omega)]
    by_cases heq : month = later
    · rw [heq]
    · have hearlier := ih (by omega)
      omega

private theorem isLeapYear_iff {year : Int} :
    isLeapYear year = true ↔ year % 4 = 0 ∧ (year % 100 ≠ 0 ∨ year % 400 = 0) := by
  simp [isLeapYear]

private theorem daysBeforeYear_succ (year : Int) :
    daysBeforeYear (year + 1) = daysBeforeYear year + daysBeforeMonth year 13 := by
  have hmonths : daysBeforeMonth year 13 = if isLeapYear year = true then 366 else 365 := by
    cases hleap : isLeapYear year <;> simp [daysBeforeMonth, daysInMonth, hleap]
  rw [hmonths]
  unfold daysBeforeYear
  split
  · next hleap =>
    rw [isLeapYear_iff] at hleap
    omega
  · next hleap =>
    rw [isLeapYear_iff] at hleap
    omega

private theorem daysBeforeYear_mono {year later : Int} (h : year < later) :
    daysBeforeYear (year + 1) ≤ daysBeforeYear later := by
  unfold daysBeforeYear
  omega

/-! ### Moving -/

variable {t u : Timestamp}

private theorem nextDay_spec (h : t.OnCalendar) :
    t.nextDay.OnCalendar ∧ t.nextDay.dayNumber = t.dayNumber + 1 := by
  obtain ⟨hmonth, hmonth', hday, hday', hhour, hminute⟩ := h
  unfold nextDay
  split
  · next hlt => exact ⟨⟨hmonth, hmonth', by simp, hlt, hhour, hminute⟩, by simp [dayNumber]; omega⟩
  · split
    · next hlast hlt =>
      have hdays := daysInMonth_pos t.year (t.month + 1)
      have hnext := daysBeforeMonth_succ t.year hmonth
      refine ⟨⟨by simp, hlt, by simp, by simp; omega, hhour, hminute⟩, ?_⟩
      simp only [dayNumber, hnext]
      omega
    · next hlast hend =>
      have hdays := daysInMonth_pos (t.year + 1) 1
      have hnext := daysBeforeYear_succ t.year
      have hmonths : daysBeforeMonth t.year 13 = daysBeforeMonth t.year 12 + daysInMonth t.year 12 :=
        rfl
      have hdecember : t.month = 12 := by omega
      refine ⟨⟨by simp, by simp, by simp, by simp; omega, hhour, hminute⟩, ?_⟩
      have hfirst : daysBeforeMonth (t.year + 1) 1 = 0 := rfl
      rw [hdecember] at hday' hlast
      simp only [dayNumber, hfirst, hdecember]
      omega

private theorem previousDay_spec (h : t.OnCalendar) :
    t.previousDay.OnCalendar ∧ t.previousDay.dayNumber = t.dayNumber - 1 := by
  obtain ⟨hmonth, hmonth', hday, hday', hhour, hminute⟩ := h
  unfold previousDay
  split
  · next hlt =>
    exact ⟨⟨hmonth, hmonth', by simp; omega, by simp; omega, hhour, hminute⟩,
      by simp [dayNumber]; omega⟩
  · split
    · next hfirst hlt =>
      have hdays := daysInMonth_pos t.year (t.month - 1)
      have hnext := daysBeforeMonth_succ t.year (show 1 ≤ t.month - 1 by omega)
      rw [Nat.sub_add_cancel hmonth] at hnext
      refine ⟨⟨by simp; omega, by simp; omega, by simp; omega, by simp, hhour, hminute⟩, ?_⟩
      simp only [dayNumber, hnext]
      omega
    · next hfirst hstart =>
      have hdays : daysInMonth (t.year - 1) 12 = 31 := rfl
      have hnext := daysBeforeYear_succ (t.year - 1)
      have hmonths : daysBeforeMonth (t.year - 1) 13 =
          daysBeforeMonth (t.year - 1) 12 + daysInMonth (t.year - 1) 12 := rfl
      have hjanuary : t.month = 1 := by omega
      have hnone : daysBeforeMonth t.year 1 = 0 := rfl
      rw [Int.sub_add_cancel] at hnext
      refine ⟨⟨by simp, by simp, by simp, by simp [hdays], hhour, hminute⟩, ?_⟩
      simp only [dayNumber, hjanuary, hnone]
      omega

private theorem nextDay_clock (t : Timestamp) :
    t.nextDay.hour = t.hour ∧ t.nextDay.minute = t.minute ∧
    t.nextDay.second = t.second ∧ t.nextDay.nanos = t.nanos := by
  unfold nextDay
  split_ifs <;> exact ⟨rfl, rfl, rfl, rfl⟩

private theorem previousDay_clock (t : Timestamp) : t.previousDay.hour = t.hour ∧
    t.previousDay.minute = t.minute ∧ t.previousDay.second = t.second ∧
    t.previousDay.nanos = t.nanos := by
  unfold previousDay
  split_ifs <;> exact ⟨rfl, rfl, rfl, rfl⟩

theorem addMinutes_spec (h : t.OnCalendar) {n : Int} (hlow : -1440 < n) (hhigh : n < 1440) :
    (t.addMinutes n).OnCalendar ∧ (t.addMinutes n).minutes = t.minutes + n ∧
      (t.addMinutes n).second = t.second ∧ (t.addMinutes n).nanos = t.nanos := by
  have hhour := h.hour_le
  have hminute := h.minute_le
  generalize htotal : ((t.hour * 60 + t.minute : Nat) : Int) + n = total
  generalize hclock : (total % 1440).toNat = clock
  generalize hmoved : ({ t with hour := clock / 60, minute := clock % 60 } : Timestamp) = moved
  have hcalendar : moved.OnCalendar := by
    rw [← hmoved]
    exact ⟨h.one_le_month, h.month_le, h.one_le_day, h.day_le, by simp; omega, by simp; omega⟩
  obtain ⟨hday, hmovedHour, hmovedMinute, hsecond, hnanos⟩ : moved.dayNumber = t.dayNumber ∧
      moved.hour = clock / 60 ∧ moved.minute = clock % 60 ∧ moved.second = t.second ∧
        moved.nanos = t.nanos := by
    rw [← hmoved]
    exact ⟨rfl, rfl, rfl, rfl, rfl⟩
  have heq : t.addMinutes n = if total < 0 then moved.previousDay
      else if 1440 ≤ total then moved.nextDay else moved := by
    rw [← hmoved, ← hclock, ← htotal]
    rfl
  rw [heq]
  unfold minutes
  split
  · obtain ⟨hprevious, hnumber⟩ := previousDay_spec hcalendar
    obtain ⟨hh, hm, hs, hn⟩ := previousDay_clock moved
    refine ⟨hprevious, ?_, hs.trans hsecond, hn.trans hnanos⟩
    rw [hnumber, hh, hm]
    omega
  · split
    · obtain ⟨hnext, hnumber⟩ := nextDay_spec hcalendar
      obtain ⟨hh, hm, hs, hn⟩ := nextDay_clock moved
      refine ⟨hnext, ?_, hs.trans hsecond, hn.trans hnanos⟩
      rw [hnumber, hh, hm]
      omega
    · refine ⟨hcalendar, ?_, hsecond, hnanos⟩
      rw [hday, hmovedHour, hmovedMinute]
      omega

/-! ### Numbers of different times -/

private theorem dayNumber_bounds (h : t.OnCalendar) : daysBeforeYear t.year < t.dayNumber ∧
    t.dayNumber ≤ daysBeforeYear (t.year + 1) := by
  have hmonths := daysBeforeMonth_mono t.year h.one_le_month
    (show t.month < 13 from Nat.lt_succ_of_le h.month_le)
  have hday := h.one_le_day
  have hday' := h.day_le
  rw [daysBeforeYear_succ, dayNumber]
  omega

theorem eq_of_minutes (ht : t.OnCalendar) (hu : u.OnCalendar) (h : t.minutes = u.minutes)
    (hsecond : t.second = u.second) (hnanos : t.nanos = u.nanos) : t = u := by
  have htHour := ht.hour_le
  have htMinute := ht.minute_le
  have huHour := hu.hour_le
  have huMinute := hu.minute_le
  obtain ⟨hnumber, hhour, hminute⟩ :
      t.dayNumber = u.dayNumber ∧ t.hour = u.hour ∧ t.minute = u.minute := by
    unfold minutes at h
    omega
  have htBounds := dayNumber_bounds ht
  have huBounds := dayNumber_bounds hu
  have hyear : t.year = u.year := by
    rcases lt_trichotomy t.year u.year with hlt | heq | hgt
    · have hmono := daysBeforeYear_mono hlt
      omega
    · exact heq
    · have hmono := daysBeforeYear_mono hgt
      omega
  have htDay := ht.one_le_day
  have htDay' := ht.day_le
  have huDay := hu.one_le_day
  have huDay' := hu.day_le
  unfold dayNumber at hnumber
  rw [hyear] at hnumber htDay'
  have hmonth : t.month = u.month := by
    rcases lt_trichotomy t.month u.month with hlt | heq | hgt
    · have hmono := daysBeforeMonth_mono u.year ht.one_le_month hlt
      omega
    · exact heq
    · have hmono := daysBeforeMonth_mono u.year hu.one_le_month hgt
      omega
  have hday : t.day = u.day := by
    rw [hmonth] at hnumber
    omega
  cases t
  cases u
  simp_all

end Timestamp

end ConceptSync
