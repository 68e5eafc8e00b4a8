import Quinn.Calendar.Date
import Quinn.Text.Basic

/-! `_parse_due_date` of `commands/org/okr/_helpers.py`: due dates that are told from today on.  What
`date.fromisoformat` makes of a text is taken from outside. -/

namespace Quinn.Okr

open Calendar Text

inductive DueUnit
  | d | w | m | y
  deriving DecidableEq

def DueUnit.char : DueUnit → Char
  | d => 'd'
  | w => 'w'
  | m => 'm'
  | y => 'y'

def dueUnit (c : Char) : Option DueUnit := [DueUnit.d, .w, .m, .y].find? (·.char = c)

inductive DateError
  | valueError | overflowError
  deriving DecidableEq

def isDigit (c : Char) : Bool := (digit c).isSome

def value (digits : List Char) : Nat := digits.foldl (fun n c => 10 * n + (digit c).getD 0) 0

def toInt (digits : List Char) : Except DateError Nat :=
  if digits.length ≤ maxStrDigits then .ok (value digits) else .error .valueError

def intMax : Nat := 2147483647

def newDate (year month day : Nat) : Except DateError Date :=
  if ¬(year ≤ intMax ∧ month ≤ intMax ∧ day ≤ intMax) then .error .overflowError
  else if h : IsDay year month day then .ok ⟨year, month, day, h⟩
  else .error .valueError

def maxDays : Nat := 999999999

def addTimedelta (today : Date) (num : Nat) : Except DateError Date :=
  if num ≤ maxDays then
    match today.addDays num with
    | some date => .ok date
    | none => .error .overflowError
  else .error .overflowError

def relative (today : Date) (num : Nat) : DueUnit → Except DateError Date
  | .d => addTimedelta today num
  | .w => addTimedelta today (7 * num)
  | .m => newDate today.year (today.month + num) today.day
  | .y => newDate (today.year + num) today.month today.day

/-- `re.match(r"\+(\d+)([dwmy])", due)`, whatever follows the unit. -/
def matchRelative : List Char → Option (List Char × DueUnit)
  | '+' :: rest =>
    match rest.takeWhile isDigit, rest.dropWhile isDigit with
    | [], _ => none
    | _ :: _, [] => none
    | c :: digits, unit :: _ => (dueUnit unit).map fun unit => (c :: digits, unit)
  | _ => none

def parseDueDate (fromisoformat : String → Option Date) (today : Date) (due : Option String) :
    Except DateError (Option Date) :=
  match due with
  | none => .ok none
  | some due =>
    if due = "" then .ok none
    else if due.toList.head? = some '+' then
      match matchRelative due.toList with
      | some (digits, unit) => do
        let num ← toInt digits
        let date ← relative today num unit
        return some date
      | none => .ok none
    else .ok (fromisoformat due)

def IsLater (today : Date) (num : Nat) (date : Date) : DueUnit → Prop
  | .d => date.ordinal = today.ordinal + num
  | .w => date.ordinal = today.ordinal + 7 * num
  | .m => 12 * date.year + date.month = 12 * today.year + today.month + num ∧
      date.day = min today.day (daysInMonth date.year date.month)
  | .y => date.year = today.year + num ∧ date.month = today.month ∧
      date.day = min today.day (daysInMonth date.year date.month)

theorem IsLater.lt {today date date' : Date} {num num' : Nat} {unit : DueUnit} (h : IsLater today num date unit)
    (h' : IsLater today num' date' unit) (hlt : num' < num) : date' < date := by
  have hmonth := date.isDay.month_mem
  have hmonth' := date'.isDay.month_mem
  cases unit with
  | d =>
    refine Date.lt_of_ordinal_lt ?_
    rw [show date.ordinal = _ from h, show date'.ordinal = _ from h']
    omega
  | w =>
    refine Date.lt_of_ordinal_lt ?_
    rw [show date.ordinal = _ from h, show date'.ordinal = _ from h']
    omega
  | m =>
    obtain ⟨hmonths, -⟩ := h
    obtain ⟨hmonths', -⟩ := h'
    rw [Date.lt_def]
    omega
  | y =>
    obtain ⟨hyear, -⟩ := h
    obtain ⟨hyear', -⟩ := h'
    rw [Date.lt_def]
    omega

structure Numeral where
  digits : List Char
  ne_nil : digits ≠ []
  isDigit : ∀ c ∈ digits, isDigit c = true

def Numeral.val (num : Numeral) : Nat := value num.digits

def Numeral.due (num : Numeral) (unit : DueUnit) : String :=
  String.ofList ('+' :: (num.digits ++ [unit.char]))

/-- A date is returned, the right one, and later than what a smaller number gives. -/
def CalendarCorrect (fromisoformat : String → Option Date) (today : Date) (num : Numeral) (unit : DueUnit) : Prop :=
  ∃ date, parseDueDate fromisoformat today (some (num.due unit)) = .ok (some date) ∧
    IsLater today num.val date unit ∧
    ∀ (num' : Numeral) (date' : Date), num'.val < num.val →
      parseDueDate fromisoformat today (some (num'.due unit)) = .ok (some date') → date' < date

theorem matchRelative_due (num : Numeral) (unit : DueUnit) :
    matchRelative (num.due unit).toList = some (num.digits, unit) := by
  have hunit : isDigit unit.char = false := by cases unit <;> decide
  have htake : (num.digits ++ [unit.char]).takeWhile isDigit = num.digits := by
    rw [List.takeWhile_append_of_pos num.isDigit, List.takeWhile_cons_of_neg (by simp [hunit]), List.append_nil]
  have hdrop : (num.digits ++ [unit.char]).dropWhile isDigit = [unit.char] := by
    rw [List.dropWhile_append_of_pos num.isDigit, List.dropWhile_cons_of_neg (by simp [hunit])]
  rw [Numeral.due, String.toList_ofList, matchRelative, htake, hdrop]
  cases hdigits : num.digits with
  | nil => exact (num.ne_nil hdigits).elim
  | cons c digits => cases unit <;> rfl

theorem parseDueDate_due (fromisoformat : String → Option Date) (today : Date) (num : Numeral) (unit : DueUnit) :
    parseDueDate fromisoformat today (some (num.due unit)) =
      (toInt num.digits).bind fun n => (relative today n unit).map some := by
  have hne : num.due unit ≠ "" := by
    intro h
    have hlist := congrArg String.toList h
    simp [Numeral.due] at hlist
  have hplus : (num.due unit).toList.head? = some '+' := by simp [Numeral.due]
  simp only [parseDueDate, hne, hplus, if_false, if_true, matchRelative_due]
  rfl

def InReach (today : Date) (num : Nat) : DueUnit → Prop
  | .d => today.ordinal + num ≤ Date.last.ordinal
  | .w => today.ordinal + 7 * num ≤ Date.last.ordinal
  | .m => today.month + num ≤ 12 ∧ today.day ≤ daysInMonth today.year (today.month + num)
  | .y => today.year + num ≤ maxYear ∧ today.day ≤ daysInMonth (today.year + num) today.month

instance (today : Date) (num : Nat) (unit : DueUnit) : Decidable (InReach today num unit) := by
  cases unit <;> unfold InReach <;> infer_instance

theorem addTimedelta_eq_ok {today date : Date} {num : Nat} : addTimedelta today num = .ok date ↔
    today.ordinal + num ≤ Date.last.ordinal ∧ date.ordinal = today.ordinal + num := by
  have hlast : Date.last.ordinal ≤ maxDays := by decide
  unfold addTimedelta
  constructor
  · intro h
    split at h
    · cases hdate : today.addDays num with
      | none =>
        rw [hdate] at h
        cases h
      | some date' =>
        rw [hdate] at h
        cases h
        exact ⟨(Date.exists_addDays_iff num today).1 ⟨date, hdate⟩, Date.ordinal_addDays hdate⟩
    · cases h
  · rintro ⟨hle, hord⟩
    obtain ⟨date', hdate⟩ := (Date.exists_addDays_iff num today).2 hle
    have hsame : date' = date := Date.ordinal_injective ((Date.ordinal_addDays hdate).trans hord.symm)
    rw [if_pos (by omega), hdate, hsame]

theorem newDate_eq_ok {year month day : Nat} {date : Date} : newDate year month day = .ok date ↔
    date.year = year ∧ date.month = month ∧ date.day = day := by
  unfold newDate
  constructor
  · intro h
    split_ifs at h
    cases h
    exact ⟨rfl, rfl, rfl⟩
  · rintro ⟨rfl, rfl, rfl⟩
    obtain ⟨hyear, hmonth, hday⟩ := date.isDay
    have hmax : daysInMonth date.year date.month ≤ 31 := daysInMonth_le _ _
    have hyears : maxYear ≤ intMax := by decide
    have hint : 31 ≤ intMax := by decide
    rw [if_neg (by omega), dif_pos date.isDay]

theorem relative_eq_ok {today date : Date} {num : Nat} {unit : DueUnit} :
    relative today num unit = .ok date ↔ InReach today num unit ∧ IsLater today num date unit := by
  obtain ⟨hyear, hmonth, hday⟩ := today.isDay
  have hmonth' := date.isDay.month_mem
  have hyear' := date.isDay.year_mem
  have hday' := date.isDay.day_mem
  cases unit with
  | d => exact addTimedelta_eq_ok
  | w => exact addTimedelta_eq_ok
  | m =>
    rw [relative, newDate_eq_ok]
    constructor
    · rintro ⟨hy, hm, hd⟩
      rw [hy, hm, hd] at hday'
      refine ⟨⟨by omega, hday'.2⟩, by omega, ?_⟩
      rw [hy, hm, hd, min_eq_left hday'.2]
    · rintro ⟨⟨hle, hfits⟩, hmonths, hd⟩
      have hy : date.year = today.year := by omega
      have hm : date.month = today.month + num := by omega
      rw [hy, hm, min_eq_left hfits] at hd
      exact ⟨hy, hm, hd⟩
  | y =>
    rw [relative, newDate_eq_ok]
    constructor
    · rintro ⟨hy, hm, hd⟩
      rw [hy, hm, hd] at hday'
      refine ⟨⟨by omega, hday'.2⟩, hy, hm, ?_⟩
      rw [hy, hm, hd, min_eq_left hday'.2]
    · rintro ⟨⟨hle, hfits⟩, hy, hm, hd⟩
      rw [hy, hm, min_eq_left hfits] at hd
      exact ⟨hy, hm, hd⟩

theorem exists_isLater {today : Date} {num : Nat} {unit : DueUnit} (h : InReach today num unit) :
    ∃ date, IsLater today num date unit := by
  obtain ⟨hyear, hmonth, hday⟩ := today.isDay
  cases unit with
  | d =>
    obtain ⟨date, hdate⟩ := (Date.exists_addDays_iff num today).2 h
    exact ⟨date, Date.ordinal_addDays hdate⟩
  | w =>
    obtain ⟨date, hdate⟩ := (Date.exists_addDays_iff (7 * num) today).2 h
    exact ⟨date, Date.ordinal_addDays hdate⟩
  | m =>
    refine ⟨⟨today.year, today.month + num, today.day, hyear, ?_, hday.1, h.2⟩, ?_, (min_eq_left h.2).symm⟩
    · exact ⟨hmonth.1.trans (Nat.le_add_right _ _), h.1⟩
    · exact (Nat.add_assoc _ _ _).symm
  | y =>
    refine ⟨⟨today.year + num, today.month, today.day, ?_, hmonth, hday.1, h.2⟩, rfl, rfl, (min_eq_left h.2).symm⟩
    exact ⟨hyear.1.trans (Nat.le_add_right _ _), h.1⟩

theorem parseDueDate_due_eq_ok {fromisoformat : String → Option Date} {today date : Date} {num : Numeral}
    {unit : DueUnit} :
    parseDueDate fromisoformat today (some (num.due unit)) = .ok (some date) ↔
      num.digits.length ≤ maxStrDigits ∧ InReach today num.val unit ∧ IsLater today num.val date unit := by
  rw [parseDueDate_due, toInt]
  split
  · next hlen =>
    simp only [Except.bind, hlen, true_and, ← relative_eq_ok, Numeral.val]
    cases relative today (value num.digits) unit <;> simp [Except.map]
  · next hlen => simp [Except.bind, hlen]

/-- In months the due date has to lie in this year, and no day is ever clipped. -/
theorem calendarCorrect_iff (fromisoformat : String → Option Date) (today : Date) (num : Numeral)
    (unit : DueUnit) :
    CalendarCorrect fromisoformat today num unit ↔
      num.digits.length ≤ maxStrDigits ∧ InReach today num.val unit := by
  constructor
  · rintro ⟨date, hparse, -⟩
    obtain ⟨hlen, hreach, -⟩ := parseDueDate_due_eq_ok.1 hparse
    exact ⟨hlen, hreach⟩
  · rintro ⟨hlen, hreach⟩
    obtain ⟨date, hlater⟩ := exists_isLater hreach
    refine ⟨date, parseDueDate_due_eq_ok.2 ⟨hlen, hreach, hlater⟩, hlater, ?_⟩
    intro num' date' hlt hparse
    exact hlater.lt (parseDueDate_due_eq_ok.1 hparse).2.2 hlt

def three : Numeral := ⟨['3'], by decide, List.forall_mem_singleton.2 rfl⟩

/-- In October there is no month three months later. -/
theorem october_not_calendarCorrect :
    ¬CalendarCorrect (fun _ => none) ⟨2024, 10, 15, by decide⟩ three .m := by
  rintro ⟨date, hparse, -⟩
  have hraises : parseDueDate (fun _ => none) ⟨2024, 10, 15, by decide⟩ (some (three.due .m)) =
      .error .valueError := by decide
  rw [hraises] at hparse
  cases hparse

end Quinn.Okr
