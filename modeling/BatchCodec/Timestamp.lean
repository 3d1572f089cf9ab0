/-!
Points in time and their text in universal time.

Seconds are counted from the beginning of 1970; the calendar is the Gregorian one, carried on in both
directions. The text has as few decimal places of a second, in groups of three, as are exact.

The program writes the local time with its offset. The time zone is taken to be universal time, so that
the offset is always `+00:00`.

Functions of the program: the time of `report_json` (`Timestamp.text`).
-/

namespace BatchCodec

/-- A point in time: seconds since the beginning of 1970, and nanoseconds of the current second. -/
structure Timestamp where
  seconds : Int
  nanos : Nat
  deriving DecidableEq, Repr

structure Day where
  year : Int
  month : Nat
  day : Nat
  deriving DecidableEq, Repr

/-- The day with a number, counted from the first of January 1970. Years are taken to begin in March,
so that a leap day ends its year, and are grouped by 400, after which the calendar repeats. -/
def Day.ofNumber (number : Int) : Day :=
  let shifted := number + 719468
  let era := shifted.fdiv 146097
  let dayOfEra := (shifted - era * 146097).toNat
  let yearOfEra := (dayOfEra - dayOfEra / 1460 + dayOfEra / 36524 - dayOfEra / 146096) / 365
  let dayOfYear := dayOfEra - (365 * yearOfEra + yearOfEra / 4 - yearOfEra / 100)
  let month := (5 * dayOfYear + 2) / 153
  let day := dayOfYear - (153 * month + 2) / 5 + 1
  let marchYear := era * 400 + yearOfEra
  if month < 10 then ⟨marchYear, month + 3, day⟩ else ⟨marchYear + 1, month - 9, day⟩

namespace Timestamp

def padded (width n : Nat) : String :=
  let digits := Nat.toDigits 10 n
  String.ofList (List.replicate (width - digits.length) '0' ++ digits)

/-- A year: four digits, or a sign and at least four digits outside the years 0 to 9999. -/
def yearText (year : Int) : String :=
  if 0 ≤ year ∧ year ≤ 9999 then padded 4 year.toNat
  else (if year < 0 then "-" else "+") ++ padded 4 year.natAbs

/-- The decimal places of a second: none, three, six or nine. -/
def fractionText (nanos : Nat) : String :=
  if nanos = 0 then ""
  else if nanos % 1000000 = 0 then "." ++ padded 3 (nanos / 1000000)
  else if nanos % 1000 = 0 then "." ++ padded 6 (nanos / 1000)
  else "." ++ padded 9 nanos

def text (t : Timestamp) : String :=
  let number := t.seconds.fdiv 86400
  let second := (t.seconds - number * 86400).toNat
  let day := Day.ofNumber number
  yearText day.year ++ "-" ++ padded 2 day.month ++ "-" ++ padded 2 day.day ++ "T" ++
    padded 2 (second / 3600) ++ ":" ++ padded 2 (second / 60 % 60) ++ ":" ++
    padded 2 (second % 60) ++ fractionText t.nanos ++ "+00:00"

end Timestamp

end BatchCodec
