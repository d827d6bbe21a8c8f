/-
# DurableRuns.Time.Instant -- points in time, to the nanosecond

An `Instant` is a date of the proleptic Gregorian calendar and a time of day, both in UTC.
Only dates and times that exist can be built; second 60 is kept for leap seconds.

`Instant.ofLocal?` turns a local date and time with an offset of whole minutes into UTC.  An
offset is shorter than a day, so the date moves by one day at most.
-/
namespace DurableRuns

set_option autoImplicit false

namespace Calendar

/-- The year has a 29th of February. -/
def isLeap (year : Int) : Bool := year % 4 = 0 && (year % 100 ≠ 0 || year % 400 = 0)

/-- The number of days in a month. -/
def daysIn (year : Int) (month : Nat) : Nat :=
  match month with
  | 2 => if isLeap year then 29 else 28
  | 4 | 6 | 9 | 11 => 30
  | _ => 31

/-- A date as year, month and day. -/
structure Date where
  year : Int
  month : Nat
  day : Nat
deriving DecidableEq, Repr

/-- The years an instant can lie in. -/
def inRange (year : Int) : Bool := -262143 ≤ year && year ≤ 262142

/-- The date exists and lies in the range of years. -/
def Date.exists (d : Date) : Bool :=
  inRange d.year && 1 ≤ d.month && d.month ≤ 12 && 1 ≤ d.day && d.day ≤ daysIn d.year d.month

/-- The day before. -/
def Date.pred (d : Date) : Date :=
  if 1 < d.day then { d with day := d.day - 1 }
  else if 1 < d.month then ⟨d.year, d.month - 1, daysIn d.year (d.month - 1)⟩
  else ⟨d.year - 1, 12, 31⟩

/-- The day after. -/
def Date.succ (d : Date) : Date :=
  if d.day < daysIn d.year d.month then { d with day := d.day + 1 }
  else if d.month < 12 then ⟨d.year, d.month + 1, 1⟩
  else ⟨d.year + 1, 1, 1⟩

end Calendar

/-- A point in time: a date and a time of day in UTC. -/
structure Instant where
  date : Calendar.Date
  /-- Minutes since the start of the day. -/
  minute : Nat
  second : Nat
  nano : Nat
  date_exists : date.exists = true
  minute_lt : minute < 1440
  second_le : second ≤ 60
  nano_lt : nano < 1000000000
deriving DecidableEq, Repr

namespace Instant

/-- The instant with the given parts, if they exist. -/
def make? (date : Calendar.Date) (minute second nano : Nat) : Option Instant :=
  if h : date.exists = true ∧ minute < 1440 ∧ second ≤ 60 ∧ nano < 1000000000 then
    some ⟨date, minute, second, nano, h.1, h.2.1, h.2.2.1, h.2.2.2⟩
  else none

/-- The instant of a local date and time that is `offset` minutes ahead of UTC. -/
def ofLocal? (date : Calendar.Date) (minute second nano : Nat) (offset : Int) :
    Option Instant :=
  if !date.exists || 1440 ≤ minute then none
  else
    let shifted : Int := minute - offset
    if shifted < 0 then make? date.pred (shifted + 1440).toNat second nano
    else if shifted < 1440 then make? date shifted.toNat second nano
    else make? date.succ (shifted - 1440).toNat second nano

theorem make?_self (t : Instant) : make? t.date t.minute t.second t.nano = some t := by
  simp [make?, t.date_exists, t.minute_lt, t.second_le, t.nano_lt]

/-- Without an offset local time is UTC. -/
theorem ofLocal?_self (t : Instant) :
    ofLocal? t.date t.minute t.second t.nano 0 = some t := by
  have early := t.minute_lt
  have notLate : ¬ 1440 ≤ t.minute := by omega
  have notBefore : ¬ (t.minute : Int) < 0 := by omega
  have notAfter : (t.minute : Int) < 1440 := by omega
  simp [ofLocal?, t.date_exists, notLate, notBefore, notAfter, make?_self]

end Instant
end DurableRuns
