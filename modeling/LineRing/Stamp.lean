/-
Timestamps: lines that tell an instant in a zone, for the log to keep like any other command.
-/
import LineRing.Calendar
import LineRing.Text.Numeral
import LineRing.Text.Utf8

namespace LineRing

/-- An instant: seconds since the first of January 1970, and a fraction in nanoseconds. A fraction
of a second or more stands for a leap second. -/
structure Instant where
  seconds : Int
  nanos : Nat := 0
  deriving DecidableEq, Repr

namespace Instant

def secondsOfDay : Nat := 86400

def nanosOfSecond : Nat := 1000000000

/-- The years that an instant may lie in. -/
def firstYear : Int := -262143

def lastYear : Int := 262142

/-- The date of an instant, in universal time. -/
def date (t : Instant) : Date := Date.ofDay (t.seconds / secondsOfDay)

/-- Whether there is such an instant: its year is in range, and only the last second of a minute
has a leap second after it. -/
def isValid (t : Instant) : Bool :=
  firstYear ≤ t.date.year && t.date.year ≤ lastYear && t.nanos < 2 * nanosOfSecond &&
    (t.nanos < nanosOfSecond || t.seconds % 60 == 59)

end Instant

namespace Stamp

/-- A number with leading zeros up to a width. -/
def padded (width n : Nat) : List Char :=
  let digits := Numeral.digits n
  List.replicate (width - digits.length) '0' ++ digits

/-- A year: four digits at least, with a sign where it is not from 0 to 9999. -/
def year (y : Int) : List Char :=
  if y < 0 then '-' :: padded 4 y.natAbs
  else if y ≤ 9999 then padded 4 y.natAbs
  else '+' :: padded 4 y.natAbs

/-- A zone is less than a day off universal time. -/
def isZone (zone : Int) : Bool := zone.natAbs < Instant.secondsOfDay

/-- The line for an instant, in a zone so many seconds east. A leap second counts as one more than
the second before it. -/
def line (t : Instant) (zone : Int) : List Char :=
  let here := t.seconds + zone
  let date := Date.ofDay (here / Instant.secondsOfDay)
  let clock := (here % Instant.secondsOfDay).toNat
  let fields := [year date.year, padded 2 date.month, padded 2 date.day, padded 2 (clock / 3600),
    padded 2 (clock / 60 % 60), padded 2 (clock % 60 + t.nanos / Instant.nanosOfSecond)]
  "timestamp: ".toList ++ [',', ' '].intercalate fields ++ ['\n']

/-- The line for an instant in a zone, where there are such an instant and such a zone. -/
def line? (t : Instant) (zone : Int) : Option (List Char) :=
  if t.isValid && isZone zone then some (line t zone) else none

/-- The entry for an instant in a zone. -/
def entry (t : Instant) (zone : Int) : List UInt8 := Utf8.encode (line t zone)

end Stamp

end LineRing
