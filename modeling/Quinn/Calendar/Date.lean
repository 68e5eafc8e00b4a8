import Mathlib.Order.Monotone.Basic

/-! The proleptic Gregorian calendar of Python's `datetime.date`, from the year 1 to the year 9999. -/

namespace Quinn.Calendar

def IsLeap (year : Nat) : Prop := year % 4 = 0 ∧ (year % 100 ≠ 0 ∨ year % 400 = 0)

instance (year : Nat) : Decidable (IsLeap year) := inferInstanceAs (Decidable (_ ∧ _))

theorem isLeap_iff {year : Nat} : IsLeap year ↔ 4 ∣ year ∧ (¬100 ∣ year ∨ 400 ∣ year) := by
  simp only [IsLeap, Nat.dvd_iff_mod_eq_zero, ne_eq]

def daysInMonth (year : Nat) : Nat → Nat
  | 2 => if IsLeap year then 29 else 28
  | 4 | 6 | 9 | 11 => 30
  | _ => 31

theorem one_le_daysInMonth (year month : Nat) : 1 ≤ daysInMonth year month := by
  unfold daysInMonth
  split
  · split <;> decide
  all_goals decide

theorem daysInMonth_le (year month : Nat) : daysInMonth year month ≤ 31 := by
  unfold daysInMonth
  split
  · split <;> decide
  all_goals decide

def minYear : Nat := 1

def maxYear : Nat := 9999

structure IsDay (year month day : Nat) : Prop where
  year_mem : minYear ≤ year ∧ year ≤ maxYear
  month_mem : 1 ≤ month ∧ month ≤ 12
  day_mem : 1 ≤ day ∧ day ≤ daysInMonth year month

theorem isDay_iff {year month day : Nat} : IsDay year month day ↔
    (minYear ≤ year ∧ year ≤ maxYear) ∧ (1 ≤ month ∧ month ≤ 12) ∧ 1 ≤ day ∧ day ≤ daysInMonth year month :=
  ⟨fun h => ⟨h.year_mem, h.month_mem, h.day_mem⟩, fun h => ⟨h.1, h.2.1, h.2.2⟩⟩

instance (year month day : Nat) : Decidable (IsDay year month day) := decidable_of_iff' _ isDay_iff

@[ext] structure Date where
  year : Nat
  month : Nat
  day : Nat
  isDay : IsDay year month day
  deriving DecidableEq

def daysBeforeYear (year : Nat) : Nat :=
  365 * (year - 1) + (year - 1) / 4 - (year - 1) / 100 + (year - 1) / 400

def daysThrough (year : Nat) : Nat → Nat
  | 0 => 0
  | month + 1 => daysThrough year month + daysInMonth year (month + 1)

theorem daysThrough_year (year : Nat) : daysThrough year 12 = if IsLeap year then 366 else 365 := by
  by_cases hleap : IsLeap year <;> simp [daysThrough, daysInMonth, hleap]

theorem daysThrough_mono (year : Nat) : Monotone (daysThrough year) :=
  monotone_nat_of_le_succ fun _ => Nat.le_add_right _ _

theorem daysBeforeYear_succ {year : Nat} (h : 1 ≤ year) :
    daysBeforeYear (year + 1) = daysBeforeYear year + daysThrough year 12 := by
  obtain ⟨y, rfl⟩ := Nat.exists_eq_add_of_le' h
  -- a year of four hundred is one of a hundred, which is one of four
  have h100 : 100 ∣ y + 1 → 4 ∣ y + 1 := (Nat.dvd_trans (by decide))
  have h400 : 400 ∣ y + 1 → 100 ∣ y + 1 := (Nat.dvd_trans (by decide))
  have hle : y / 100 ≤ y / 4 := Nat.div_le_div_left (by decide) (by decide)
  simp only [daysThrough_year, daysBeforeYear, Nat.add_sub_cancel, Nat.succ_div, isLeap_iff]
  by_cases h4 : 4 ∣ y + 1
  · by_cases hhundred : 100 ∣ y + 1
    · by_cases hfour : 400 ∣ y + 1
      · simp only [h4, hhundred, hfour, if_true, not_true, or_true, and_self]
        omega
      · simp only [h4, hhundred, hfour, if_true, if_false, not_true, or_self, and_false]
        omega
    · simp only [h4, hhundred, mt h400 hhundred, if_true, if_false, not_false_eq_true, true_or, and_self]
      omega
  · simp only [h4, mt h100 h4, mt h400 (mt h100 h4), if_false, false_and]
    omega

theorem daysBeforeYear_mono {year year' : Nat} (h : 1 ≤ year) (hle : year ≤ year') :
    daysBeforeYear year ≤ daysBeforeYear year' := by
  induction hle with
  | refl => exact le_rfl
  | step hle ih =>
    rw [Nat.succ_eq_add_one, daysBeforeYear_succ (h.trans hle)]
    exact ih.trans (Nat.le_add_right _ _)

namespace Date

def ordinal (d : Date) : Nat := daysBeforeYear d.year + daysThrough d.year (d.month - 1) + d.day

instance : LT Date where
  lt d d' := d.year < d'.year ∨ d.year = d'.year ∧ (d.month < d'.month ∨ d.month = d'.month ∧ d.day < d'.day)

theorem lt_def {d d' : Date} : d < d' ↔
    d.year < d'.year ∨ d.year = d'.year ∧ (d.month < d'.month ∨ d.month = d'.month ∧ d.day < d'.day) := Iff.rfl

instance (d d' : Date) : Decidable (d < d') := inferInstanceAs (Decidable (_ ∨ _))

variable {d d' : Date}

theorem day_le (d : Date) : daysThrough d.year (d.month - 1) + d.day ≤ daysThrough d.year d.month := by
  obtain ⟨m, hm⟩ := Nat.exists_eq_add_of_le' d.isDay.month_mem.1
  have hday := d.isDay.day_mem.2
  rw [hm] at hday ⊢
  exact Nat.add_le_add_left hday _

theorem ordinal_lt_of_lt (h : d < d') : d.ordinal < d'.ordinal := by
  have hday := d.day_le
  have hpos := d'.isDay.day_mem.1
  unfold ordinal
  obtain hyear | ⟨hyear, hmonth | ⟨hmonth, hlt⟩⟩ := lt_def.1 h
  · have hend := daysThrough_mono d.year d.isDay.month_mem.2
    have hnext := daysBeforeYear_succ d.isDay.year_mem.1
    have hle := daysBeforeYear_mono (Nat.le_add_left 1 d.year) hyear
    omega
  · have hle := daysThrough_mono d.year (Nat.le_sub_one_of_lt hmonth)
    rw [← hyear]
    omega
  · rw [← hyear, ← hmonth]
    omega

theorem lt_of_ordinal_lt (h : d.ordinal < d'.ordinal) : d < d' := by
  by_contra hnot
  have hcases : d' < d ∨ d' = d := by
    rw [lt_def] at hnot ⊢
    rw [Date.ext_iff]
    omega
  obtain hlt | rfl := hcases
  · exact (ordinal_lt_of_lt hlt).not_gt h
  · exact h.false

theorem ordinal_injective : Function.Injective ordinal := by
  intro d d' h
  by_contra hne
  have hcases : d < d' ∨ d' < d := by
    rw [Date.ext_iff] at hne
    rw [lt_def, lt_def]
    omega
  obtain hlt | hlt := hcases
  · exact (ordinal_lt_of_lt hlt).ne h
  · exact (ordinal_lt_of_lt hlt).ne' h

def last : Date := ⟨maxYear, 12, 31, by decide⟩

theorem ordinal_le (d : Date) : d.ordinal ≤ last.ordinal := by
  by_contra hlt
  have hpast := lt_of_ordinal_lt (not_le.1 hlt)
  obtain ⟨hyear, hmonth, hday⟩ := d.isDay
  obtain hyear' | ⟨-, hmonth' | ⟨hmonth', hday'⟩⟩ := lt_def.1 hpast
  · exact hyear.2.not_gt hyear'
  · exact hmonth.2.not_gt hmonth'
  · rw [← hmonth'] at hday
    exact hday.2.not_gt hday'

/-- The next day, if it is not past the last one. -/
def tomorrow (d : Date) : Option Date :=
  if h : IsDay d.year d.month (d.day + 1) then some ⟨_, _, _, h⟩
  else if h : IsDay d.year (d.month + 1) 1 then some ⟨_, _, _, h⟩
  else if h : IsDay (d.year + 1) 1 1 then some ⟨_, _, _, h⟩
  else none

def addDays : Nat → Date → Option Date
  | 0, d => some d
  | n + 1, d => d.tomorrow.bind (addDays n)

theorem ordinal_tomorrow (h : d.tomorrow = some d') : d'.ordinal = d.ordinal + 1 := by
  obtain ⟨hyear, hmonth, hday⟩ := d.isDay
  obtain ⟨m, hm⟩ := Nat.exists_eq_add_of_le' hmonth.1
  unfold tomorrow at h
  split_ifs at h with hnext hnextMonth hnextYear
  · cases h
    rfl
  · cases h
    have hlast : d.day = daysInMonth d.year d.month := by
      by_contra hne
      exact hnext ⟨hyear, hmonth, Nat.le_add_left _ _, Nat.lt_of_le_of_ne hday.2 hne⟩
    simp only [ordinal, hm, Nat.add_sub_cancel, daysThrough] at hlast ⊢
    omega
  · cases h
    have hlast : d.day = daysInMonth d.year d.month := by
      by_contra hne
      exact hnext ⟨hyear, hmonth, Nat.le_add_left _ _, Nat.lt_of_le_of_ne hday.2 hne⟩
    have hend : d.month = 12 := by
      by_contra hne
      exact hnextMonth ⟨hyear, ⟨Nat.le_add_left _ _, Nat.lt_of_le_of_ne hmonth.2 hne⟩, le_rfl, one_le_daysInMonth _ _⟩
    have hthrough : daysThrough d.year 12 = daysThrough d.year 11 + daysInMonth d.year 12 := rfl
    rw [ordinal, ordinal, daysBeforeYear_succ hyear.1, hthrough, hlast, hend]
    simp only [Nat.sub_self, daysThrough]
    omega

theorem eq_last_of_tomorrow (h : d.tomorrow = none) : d = last := by
  obtain ⟨hyear, hmonth, hday⟩ := d.isDay
  unfold tomorrow at h
  split_ifs at h with hnext hnextMonth hnextYear
  have hlast : d.year = maxYear := by
    by_contra hne
    exact hnextYear ⟨⟨Nat.le_add_left _ _, Nat.lt_of_le_of_ne hyear.2 hne⟩, by decide, le_rfl, one_le_daysInMonth _ _⟩
  have hend : d.month = 12 := by
    by_contra hne
    exact hnextMonth ⟨hyear, ⟨Nat.le_add_left _ _, Nat.lt_of_le_of_ne hmonth.2 hne⟩, le_rfl, one_le_daysInMonth _ _⟩
  refine Date.ext hlast hend ?_
  by_contra hne
  refine hnext ⟨hyear, hmonth, Nat.le_add_left _ _, ?_⟩
  rw [hend] at hday ⊢
  exact Nat.lt_of_le_of_ne hday.2 hne

theorem ordinal_addDays {n : Nat} (h : addDays n d = some d') : d'.ordinal = d.ordinal + n := by
  induction n generalizing d with
  | zero =>
    cases h
    rfl
  | succ n ih =>
    obtain ⟨d₁, hnext, hrest⟩ := Option.bind_eq_some_iff.1 h
    rw [ih hrest, ordinal_tomorrow hnext, Nat.add_right_comm, Nat.add_assoc]

theorem exists_addDays_iff (n : Nat) (d : Date) :
    (∃ d', addDays n d = some d') ↔ d.ordinal + n ≤ last.ordinal := by
  induction n generalizing d with
  | zero => simpa [addDays] using d.ordinal_le
  | succ n ih =>
    cases hnext : d.tomorrow with
    | none =>
      obtain rfl := eq_last_of_tomorrow hnext
      simp [addDays, hnext]
    | some d₁ =>
      simp only [addDays, hnext, Option.bind_some, ih, ordinal_tomorrow hnext, Nat.add_assoc, Nat.add_comm 1]

end Date

end Quinn.Calendar
