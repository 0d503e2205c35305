import Mathlib.Data.Nat.Find
import Mathlib.Tactic.Ring
import Mathlib.Tactic.SplitIfs

/-!
# Instants and their ISO 8601 texts

The Gregorian calendar from the year 0 on. Years and months are spans of days that follow
one another, so the year of a day and the month of a day of a year are found by the same
search for the last span that has begun. An instant counts milliseconds from the start of
1970; its text has fields of fixed width, and reading the text gives the instant back as
long as the year has four digits.
-/
namespace FieldNote.CalendarText

/-- The last of the spans up to `bound` that has begun at `n`. -/
def locate (start : ℕ → ℕ) (bound n : ℕ) : ℕ := Nat.findGreatest (fun i => start i ≤ n) bound

section Locate

variable {start : ℕ → ℕ} {bound n : ℕ}

theorem locate_le : locate start bound n ≤ bound := Nat.findGreatest_le bound

theorem start_locate (h : start 0 ≤ n) : start (locate start bound n) ≤ n :=
  Nat.findGreatest_spec (P := fun i => start i ≤ n) (Nat.zero_le bound) h

theorem lt_start_locate (h : n < start (bound + 1)) : n < start (locate start bound n + 1) := by
  by_cases hlt : locate start bound n + 1 ≤ bound
  · have hlast : ¬ start (locate start bound n + 1) ≤ n :=
      Nat.findGreatest_is_greatest (P := fun i => start i ≤ n) (Nat.lt_succ_self _) hlt
    omega
  · have heq : locate start bound n = bound := by
      have hle : locate start bound n ≤ bound := locate_le
      omega
    rwa [heq]

end Locate

def isLeap (year : ℕ) : Bool := year % 4 = 0 && (year % 100 ≠ 0 || year % 400 = 0)

/-- The days from the start of the year 0 to the start of a year. -/
def daysBeforeYear (year : ℕ) : ℕ :=
  365 * year + (year + 3) / 4 + (year + 399) / 400 - (year + 99) / 100

/-- Months count from 0. -/
def monthLength (leap : Bool) (month : ℕ) : ℕ :=
  if month = 1 then (if leap then 29 else 28)
  else if month = 3 ∨ month = 5 ∨ month = 8 ∨ month = 10 then 30 else 31

def daysBeforeMonth (leap : Bool) : ℕ → ℕ
  | 0 => 0
  | month + 1 => daysBeforeMonth leap month + monthLength leap month

theorem daysBeforeYear_succ (year : ℕ) :
    daysBeforeYear (year + 1) = daysBeforeYear year + (if isLeap year then 366 else 365) := by
  have hleap : isLeap year = true ↔ year % 4 = 0 ∧ (year % 100 ≠ 0 ∨ year % 400 = 0) := by
    simp [isLeap]
  -- each of the three roundings up grows in the years that it divides
  have hfour : (year + 1 + 3) / 4 = (year + 3) / 4 + if year % 4 = 0 then 1 else 0 := by
    split_ifs <;> omega
  have hcentury : (year + 1 + 99) / 100 = (year + 99) / 100 + if year % 100 = 0 then 1 else 0 := by
    split_ifs <;> omega
  have hcycle : (year + 1 + 399) / 400 = (year + 399) / 400 + if year % 400 = 0 then 1 else 0 := by
    split_ifs <;> omega
  have hleaps : (if isLeap year then 366 else 365) + (if year % 100 = 0 then 1 else 0) =
      365 + (if year % 4 = 0 then 1 else 0) + if year % 400 = 0 then 1 else 0 := by
    simp only [hleap]
    split_ifs <;> omega
  have hbelow : (year + 99) / 100 ≤ 365 * year + (year + 3) / 4 := by omega
  unfold daysBeforeYear
  rw [hfour, hcentury, hcycle]
  generalize (if isLeap year then 366 else 365) = days at hleaps ⊢
  generalize (year + 3) / 4 = fours at hbelow ⊢
  generalize (year + 99) / 100 = centuries at hbelow ⊢
  generalize (year + 399) / 400 = cycles
  omega

theorem daysBeforeMonth_twelve (leap : Bool) :
    daysBeforeMonth leap 12 = if leap then 366 else 365 := by
  cases leap <;> rfl

/-- A day of the calendar; month and day count from 0. -/
structure Date where
  year : ℕ
  month : ℕ
  day : ℕ
  month_lt : month < 12
  day_lt : day < monthLength (isLeap year) month

namespace Date

/-- The days from the start of the year 0. -/
def number (date : Date) : ℕ :=
  daysBeforeYear date.year + daysBeforeMonth (isLeap date.year) date.month + date.day

def yearOf (n : ℕ) : ℕ := locate daysBeforeYear (n / 365) n

theorem yearOf_begun (n : ℕ) : daysBeforeYear (yearOf n) ≤ n := start_locate (Nat.zero_le n)

theorem lt_next_year (n : ℕ) : n < daysBeforeYear (yearOf n + 1) := by
  apply lt_start_locate
  unfold daysBeforeYear
  omega

def monthOf (leap : Bool) (day : ℕ) : ℕ := locate (daysBeforeMonth leap) 11 day

/-- The day with a number. -/
def ofNumber (n : ℕ) : Date where
  year := yearOf n
  month := monthOf (isLeap (yearOf n)) (n - daysBeforeYear (yearOf n))
  day := n - daysBeforeYear (yearOf n) - daysBeforeMonth (isLeap (yearOf n))
    (monthOf (isLeap (yearOf n)) (n - daysBeforeYear (yearOf n)))
  month_lt := Nat.lt_succ_of_le locate_le
  day_lt := by
    have hbegun := yearOf_begun n
    have hnext := lt_next_year n
    rw [daysBeforeYear_succ, ← daysBeforeMonth_twelve] at hnext
    have hmonth : daysBeforeMonth (isLeap (yearOf n)) (monthOf (isLeap (yearOf n))
        (n - daysBeforeYear (yearOf n))) ≤ n - daysBeforeYear (yearOf n) :=
      start_locate (Nat.zero_le _)
    have hlast : n - daysBeforeYear (yearOf n) < daysBeforeMonth (isLeap (yearOf n))
        (monthOf (isLeap (yearOf n)) (n - daysBeforeYear (yearOf n)) + 1) :=
      lt_start_locate (show _ < daysBeforeMonth (isLeap (yearOf n)) 12 by omega)
    rw [daysBeforeMonth] at hlast
    omega

theorem number_ofNumber (n : ℕ) : (ofNumber n).number = n := by
  have hyear := yearOf_begun n
  have hmonth : daysBeforeMonth (isLeap (yearOf n)) (monthOf (isLeap (yearOf n))
      (n - daysBeforeYear (yearOf n))) ≤ n - daysBeforeYear (yearOf n) :=
    start_locate (Nat.zero_le _)
  simp only [number, ofNumber]
  omega

theorem ofNumber_day_lt (n : ℕ) : (ofNumber n).day < 31 := by
  have hday := (ofNumber n).day_lt
  have hlength (leap : Bool) (month : ℕ) : monthLength leap month ≤ 31 := by
    unfold monthLength
    split_ifs <;> omega
  have := hlength (isLeap (ofNumber n).year) (ofNumber n).month
  omega

/-- The first day that no year of four digits has. -/
theorem year_lt {n : ℕ} (h : n < 3652425) : (ofNumber n).year < 10000 := by
  have hbegun := yearOf_begun n
  have hyear : (ofNumber n).year = yearOf n := rfl
  unfold daysBeforeYear at hbegun
  omega

end Date

def digitChar (d : ℕ) : Char := Char.ofNat (48 + d)

/-- The last `k` decimal digits of a number. -/
def digits : ℕ → ℕ → List Char
  | 0, _ => []
  | k + 1, n => digits k (n / 10) ++ [digitChar (n % 10)]

def digitValue (c : Char) : Option ℕ :=
  if 48 ≤ c.toNat ∧ c.toNat < 58 then some (c.toNat - 48) else none

/-- Reads `k` digits behind those of `acc`. -/
def readDigits : ℕ → ℕ → List Char → Option (ℕ × List Char)
  | 0, acc, cs => some (acc, cs)
  | _ + 1, _, [] => none
  | k + 1, acc, c :: cs => (digitValue c).bind fun d => readDigits k (10 * acc + d) cs

def expect (c : Char) : List Char → Option (List Char)
  | [] => none
  | d :: cs => if d = c then some cs else none

theorem digitValue_digitChar {d : ℕ} (h : d < 10) : digitValue (digitChar d) = some d := by
  revert d
  decide

theorem readDigits_append (k j acc : ℕ) (cs rest : List Char) {n : ℕ}
    (h : readDigits k acc cs = some (n, [])) :
    readDigits (k + j) acc (cs ++ rest) = readDigits j n rest := by
  induction k generalizing acc cs with
  | zero =>
      cases h
      simp
  | succ k ih =>
      cases cs with
      | nil => cases h
      | cons c cs =>
          obtain ⟨d, hd, h⟩ := Option.bind_eq_some_iff.mp h
          simpa [Nat.succ_add, readDigits, hd] using ih (10 * acc + d) cs h

theorem readDigits_digits_aux (k n acc : ℕ) (h : n < 10 ^ k) :
    readDigits k acc (digits k n) = some (10 ^ k * acc + n, []) := by
  induction k generalizing n with
  | zero =>
      have hn : n = 0 := by simpa using h
      simp [readDigits, digits, hn]
  | succ k ih =>
      have hfirst := ih (n / 10) (by omega)
      rw [digits, readDigits_append k 1 acc _ _ hfirst]
      have hlast : digitValue (digitChar (n % 10)) = some (n % 10) :=
        digitValue_digitChar (Nat.mod_lt _ (by decide))
      have hsum : 10 * (10 ^ k * acc + n / 10) + n % 10 = 10 ^ (k + 1) * acc + n :=
        calc 10 * (10 ^ k * acc + n / 10) + n % 10
            = 10 ^ (k + 1) * acc + (10 * (n / 10) + n % 10) := by ring
          _ = 10 ^ (k + 1) * acc + n := by rw [Nat.div_add_mod]
      simp [readDigits, hlast, hsum]

/-- A number written with enough digits is read back. -/
theorem readDigits_digits {k n : ℕ} (h : n < 10 ^ k) (rest : List Char) :
    readDigits k 0 (digits k n ++ rest) = some (n, rest) := by
  have hread := readDigits_digits_aux k n 0 h
  simpa [readDigits] using readDigits_append k 0 0 _ rest hread

@[simp] theorem expect_cons (c : Char) (cs : List Char) : expect c (c :: cs) = some cs := by
  simp [expect]

/-- The day number of the start of 1970. -/
def epochDay : ℕ := 719528

def dayMillis : ℕ := 86400000

/-- Years from 10000 on carry a sign and six digits. -/
def printDate (date : Date) : List Char :=
  (if date.year < 10000 then digits 4 date.year else '+' :: digits 6 date.year) ++
    '-' :: digits 2 (date.month + 1) ++ '-' :: digits 2 (date.day + 1)

/-- The hours, minutes and seconds of a time of day. -/
def printClock (rest : ℕ) : List Char :=
  digits 2 (rest / 3600000) ++ ':' :: digits 2 (rest / 60000 % 60) ++
    ':' :: digits 2 (rest / 1000 % 60)

/-- The text of an instant. -/
def print (t : ℕ) : List Char :=
  printDate (Date.ofNumber (epochDay + t / dayMillis)) ++ 'T' :: printClock (t % dayMillis) ++
    '.' :: digits 3 (t % dayMillis % 1000) ++ ['Z']

def readDate (cs : List Char) : Option (Date × List Char) := do
  let (year, cs) ← readDigits 4 0 cs
  let (month, cs) ← (expect '-' cs).bind (readDigits 2 0)
  let (day, cs) ← (expect '-' cs).bind (readDigits 2 0)
  if h : 1 ≤ month ∧ 1 ≤ day ∧ month - 1 < 12 ∧
      day - 1 < monthLength (isLeap year) (month - 1) then
    some (⟨year, month - 1, day - 1, h.2.2.1, h.2.2.2⟩, cs)
  else none

def readClock (cs : List Char) : Option (ℕ × List Char) := do
  let (hour, cs) ← readDigits 2 0 cs
  let (minute, cs) ← (expect ':' cs).bind (readDigits 2 0)
  let (second, cs) ← (expect ':' cs).bind (readDigits 2 0)
  if hour < 24 ∧ minute < 60 ∧ second < 60 then
    some (hour * 3600000 + minute * 60000 + second * 1000, cs)
  else none

/-- The milliseconds of a fraction of three digits, where the format has one. -/
def readFraction (fractional : Bool) (cs : List Char) : Option (ℕ × List Char) :=
  if fractional then (expect '.' cs).bind (readDigits 3 0) else some (0, cs)

/-- Reads a date and a time of day in UTC. -/
def read (fractional : Bool) (cs : List Char) : Option ℤ := do
  let (date, cs) ← readDate cs
  let (clock, cs) ← (expect 'T' cs).bind readClock
  let (millis, cs) ← readFraction fractional cs
  if cs = ['Z'] then some (((date.number : ℤ) - epochDay) * dayMillis + clock + millis)
  else none

theorem readDate_printDate {date : Date} (hyear : date.year < 10000) (hday : date.day < 31)
    (tail : List Char) : readDate (printDate date ++ tail) = some (date, tail) := by
  have hmonth := date.month_lt
  have hyears (tail : List Char) : readDigits 4 0 (digits 4 date.year ++ tail) =
      some (date.year, tail) := readDigits_digits hyear tail
  have hmonths (tail : List Char) : readDigits 2 0 (digits 2 (date.month + 1) ++ tail) =
      some (date.month + 1, tail) := readDigits_digits (by omega) tail
  have hdays (tail : List Char) : readDigits 2 0 (digits 2 (date.day + 1) ++ tail) =
      some (date.day + 1, tail) := readDigits_digits (by omega) tail
  simp [readDate, printDate, hyear, hyears, hmonths, hdays, hmonth, date.day_lt]

theorem readClock_printClock {rest : ℕ} (h : rest < dayMillis) (tail : List Char) :
    readClock (printClock rest ++ tail) = some (rest - rest % 1000, tail) := by
  unfold dayMillis at h
  have hhours (tail : List Char) : readDigits 2 0 (digits 2 (rest / 3600000) ++ tail) =
      some (rest / 3600000, tail) := readDigits_digits (by omega) tail
  have hminutes (tail : List Char) : readDigits 2 0 (digits 2 (rest / 60000 % 60) ++ tail) =
      some (rest / 60000 % 60, tail) := readDigits_digits (by omega) tail
  have hseconds (tail : List Char) : readDigits 2 0 (digits 2 (rest / 1000 % 60) ++ tail) =
      some (rest / 1000 % 60, tail) := readDigits_digits (by omega) tail
  have hrange : rest / 3600000 < 24 ∧ rest / 60000 % 60 < 60 ∧ rest / 1000 % 60 < 60 := by omega
  have hsum : rest / 3600000 * 3600000 + rest / 60000 % 60 * 60000 +
      rest / 1000 % 60 * 1000 = rest - rest % 1000 := by omega
  simp [readClock, printClock, hhours, hminutes, hseconds, hrange, hsum]

/-- The instants up to the end of the year 9999. -/
def Representable (t : ℕ) : Prop := t < 253402300800000

instance (t : ℕ) : Decidable (Representable t) := inferInstanceAs (Decidable (_ < _))

theorem year_of_representable {t : ℕ} (h : Representable t) :
    (Date.ofNumber (epochDay + t / dayMillis)).year < 10000 := by
  apply Date.year_lt
  unfold Representable at h
  unfold epochDay dayMillis
  omega

/-- The text of an instant reads as the instant. -/
theorem read_print {t : ℕ} (h : Representable t) : read true (print t) = some (t : ℤ) := by
  have hrest : t % dayMillis < dayMillis := Nat.mod_lt _ (by decide)
  have hmillis (tail : List Char) : readDigits 3 0 (digits 3 (t % dayMillis % 1000) ++ tail) =
      some (t % dayMillis % 1000, tail) := readDigits_digits (Nat.mod_lt _ (by decide)) tail
  have hdate := readDate_printDate (year_of_representable h) (Date.ofNumber_day_lt _)
  have hnumber := Date.number_ofNumber (epochDay + t / dayMillis)
  have hsplit := Nat.div_add_mod t dayMillis
  have hvalue : (((epochDay + t / dayMillis : ℕ) : ℤ) - epochDay) * dayMillis +
      ((t % dayMillis - t % dayMillis % 1000 : ℕ) : ℤ) + ((t % dayMillis % 1000 : ℕ) : ℤ) =
        t := by
    unfold epochDay dayMillis at *
    omega
  simp only [read, print, List.append_assoc, List.cons_append, hdate, readFraction,
    Option.bind_eq_bind, Option.bind_some, expect_cons, readClock_printClock hrest, hmillis,
    if_true, hnumber, hvalue]

end FieldNote.CalendarText
