/-
The proleptic Gregorian calendar: the date of a day that is counted from the first of January
1970, and back. The calendar repeats every 400 years; within such an era, years are taken to begin
in March, so that a leap day is the last of its year.
-/

namespace LineRing

/-- A date; months and days count from one. -/
structure Date where
  year : Int
  month : Nat
  day : Nat
  deriving DecidableEq, Repr

namespace Date

/-- The days of an era of 400 years. -/
def daysOfEra : Nat := 146097

/-- The days from the first of March of year 0 to the first of January 1970. -/
def epochDay : Nat := 719468

/-- The year of an era in which a day of that era falls. -/
def yearOfEra (day : Nat) : Nat := (day - day / 1460 + day / 36524 - day / 146096) / 365

/-- The days of an era before the first of March of one of its years. -/
def daysBeforeYear (year : Nat) : Nat := 365 * year + year / 4 - year / 100

/-- The days of a year before a month, March being month 0. -/
def daysBeforeMonth (month : Nat) : Nat := (153 * month + 2) / 5

/-- The date of a day. -/
def ofDay (day : Int) : Date :=
  let shifted := day + epochDay
  let era := shifted / daysOfEra
  let inEra := (shifted % daysOfEra).toNat
  let year := yearOfEra inEra
  let inYear := inEra - daysBeforeYear year
  let month := (5 * inYear + 2) / 153
  -- January and February belong to the year that ends with them
  { year := era * 400 + year + if month < 10 then 0 else 1
    month := if month < 10 then month + 3 else month - 9
    day := inYear - daysBeforeMonth month + 1 }

end Date

end LineRing
