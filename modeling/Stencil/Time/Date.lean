import Stencil.Text.Basic

/-!
# Days of the calendar

A day is given by year, month and day of the month, in the calendar of today for all years from 1 to
9999. Days have numbers, so that they can be compared and counted on.
-/

namespace Stencil

namespace Calendar

/-- The last year of the calendar. -/
def lastYear : Nat := 9999

/-- Whether a year has a day more. -/
def isLeap (year : Nat) : Bool := year % 4 == 0 && (year % 100 != 0 || year % 400 == 0)

/-- The number of days of a month. -/
def daysIn (year month : Nat) : Nat :=
  if month = 2 then (if isLeap year then 29 else 28)
  else if month = 4 ∨ month = 6 ∨ month = 9 ∨ month = 11 then 30
  else 31

/-- The number of days before a year. -/
def daysBefore (year : Nat) : Nat :=
  (year - 1) * 365 + (year - 1) / 4 - (year - 1) / 100 + (year - 1) / 400

end Calendar

/-- A day of the calendar. -/
structure Date where
  year : Nat
  month : Nat
  day : Nat
  year_mem : 1 ≤ year ∧ year ≤ Calendar.lastYear
  month_mem : 1 ≤ month ∧ month ≤ 12
  day_mem : 1 ≤ day ∧ day ≤ Calendar.daysIn year month
  deriving DecidableEq

namespace Date

/-- Why numbers are no date; the first number that is wrong counts. -/
inductive Fault where
  | year (n : Nat)
  | month
  | day
  deriving DecidableEq, Repr

/-- The date with the given numbers. -/
def ofNumbers (year month day : Nat) : Except Fault Date :=
  if hy : 1 ≤ year ∧ year ≤ Calendar.lastYear then
    if hm : 1 ≤ month ∧ month ≤ 12 then
      if hd : 1 ≤ day ∧ day ≤ Calendar.daysIn year month then .ok ⟨year, month, day, hy, hm, hd⟩
      else .error .day
    else .error .month
  else .error (.year year)

/-- The first day of the calendar. -/
def first : Date := ⟨1, 1, 1, by decide, by decide, by decide⟩

/-- The last day of the calendar. -/
def last : Date := ⟨9999, 12, 31, by decide, by decide, by decide⟩

/-- The number of a day, the first one being 1. -/
def number (d : Date) : Nat :=
  Calendar.daysBefore d.year + ((List.range (d.month - 1)).map fun m =>
    Calendar.daysIn d.year (m + 1)).foldl (· + ·) 0 + d.day

/-- The next day, which the last one does not have. -/
def next? (d : Date) : Option Date :=
  let following :=
    if d.day < Calendar.daysIn d.year d.month then ofNumbers d.year d.month (d.day + 1)
    else if d.month < 12 then ofNumbers d.year (d.month + 1) 1
    else ofNumbers (d.year + 1) 1 1
  following.toOption

/-- The order of two days. -/
def order (a b : Date) : Ordering := compare a.number b.number

/-- A number with leading zeros up to a width. -/
def padded (width n : Nat) : Text :=
  let digits := Text.ofNat n
  List.replicate (width - digits.length) '0' ++ digits

/-- A date as year, month and day with dashes between them. -/
def write (d : Date) : Text :=
  padded 4 d.year ++ '-' :: (padded 2 d.month ++ '-' :: padded 2 d.day)

/-- The wording of a fault. -/
def Fault.message : Fault → String
  | .year n => s!"year {n} is out of range"
  | .month => "month must be in 1..12"
  | .day => "day is out of range for month"

end Date
end Stencil
