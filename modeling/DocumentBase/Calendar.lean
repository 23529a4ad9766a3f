/-!
# Instants and their texts

An instant counts milliseconds from the start of 1970, in the proleptic Gregorian calendar
and universal time.  It can be written with the letter `T` and a `Z`, as in JSON, or with
blanks and a zero offset, as in labels; both leave out the zeros at the end of the fraction,
and a label keeps at least one digit of it.
-/

namespace DocumentBase

/-- Milliseconds since the start of 1970. -/
abbrev Instant := Int

structure CivilTime where
  year : Int
  month : Nat
  day : Nat
  hour : Nat
  minute : Nat
  second : Nat
  millisecond : Nat
deriving DecidableEq, Repr

namespace Instant

def millisPerDay : Int := 86400000

/-- The date of a day counted from the start of 1970.  Years are taken to begin in March, so
that the leap day is the last of its year, and are grouped into eras of 400 years. -/
def civilDate (days : Int) : Int × Nat × Nat :=
  let shifted := days + 719468
  let era := Int.fdiv shifted 146097
  let dayOfEra := (shifted - era * 146097).toNat
  let yearOfEra :=
    (dayOfEra - dayOfEra / 1460 + dayOfEra / 36524 - dayOfEra / 146096) / 365
  let dayOfYear := dayOfEra - (365 * yearOfEra + yearOfEra / 4 - yearOfEra / 100)
  let monthFromMarch := (5 * dayOfYear + 2) / 153
  let day := dayOfYear - (153 * monthFromMarch + 2) / 5 + 1
  let month := if monthFromMarch < 10 then monthFromMarch + 3 else monthFromMarch - 9
  let year := (yearOfEra : Int) + era * 400 + (if month ≤ 2 then 1 else 0)
  (year, month, day)

def civil (instant : Instant) : CivilTime :=
  let days := Int.fdiv instant millisPerDay
  let rest := (instant - days * millisPerDay).toNat
  let (year, month, day) := civilDate days
  { year, month, day
    hour := rest / 3600000
    minute := rest / 60000 % 60
    second := rest / 1000 % 60
    millisecond := rest % 1000 }

def dayOfDate (year : Int) (month day : Nat) : Int :=
  let yearFromMarch := if month ≤ 2 then year - 1 else year
  let era := Int.fdiv yearFromMarch 400
  let yearOfEra := (yearFromMarch - era * 400).toNat
  let dayOfYear := (153 * (if 2 < month then month - 3 else month + 9) + 2) / 5 + day - 1
  let dayOfEra := yearOfEra * 365 + yearOfEra / 4 - yearOfEra / 100 + dayOfYear
  era * 146097 + dayOfEra - 719468

/-- The first instant of the year -9999. -/
def firstCivil : Instant := -377705116800000

/-- The last instant of the year 9999. -/
def lastCivil : Instant := 253402300799999

/-- Whether the date has a year of at most four digits. -/
def isCivil (instant : Instant) : Bool :=
  firstCivil ≤ instant && instant ≤ lastCivil

end Instant

/-- Decimal digits of `n`, with zeros in front up to `width`. -/
def padded (width n : Nat) : String :=
  let digits := toString n
  String.ofList (List.replicate (width - digits.length) '0') ++ digits

/-- The three digits of a millisecond without the zeros at their end. -/
def fractionDigits (millisecond : Nat) : String :=
  String.ofList ((padded 3 millisecond).toList.reverse.dropWhile (· == '0')).reverse

namespace CivilTime

def yearText (t : CivilTime) : String :=
  (if t.year < 0 then "-" else "") ++ padded 4 t.year.natAbs

def dateText (t : CivilTime) : String :=
  t.yearText ++ "-" ++ padded 2 t.month ++ "-" ++ padded 2 t.day

def minutesText (t : CivilTime) : String :=
  padded 2 t.minute ++ ":" ++ padded 2 t.second

/-- As in `2020-01-01T00:00:00.12Z`. -/
def internetText (t : CivilTime) : String :=
  let fraction := fractionDigits t.millisecond
  t.dateText ++ "T" ++ padded 2 t.hour ++ ":" ++ t.minutesText
    ++ (if fraction.isEmpty then "" else "." ++ fraction) ++ "Z"

/-- As in `2020-01-01 0:00:00.12 +00:00:00`. -/
def labelText (t : CivilTime) : String :=
  let fraction := fractionDigits t.millisecond
  t.dateText ++ " " ++ toString t.hour ++ ":" ++ t.minutesText
    ++ "." ++ (if fraction.isEmpty then "0" else fraction) ++ " +00:00:00"

end CivilTime

namespace Instant

/-- The text of an instant in a label; beyond the years of four digits it is the bare count. -/
def label (instant : Instant) : String :=
  if instant.isCivil then instant.civil.labelText else toString (instant : Int)

/-- The text of an instant in JSON.  Later than the year 9999 it is the last nanosecond
of that year. -/
def internetText (instant : Instant) : String :=
  if instant ≤ lastCivil then instant.civil.internetText
  else "9999-12-31T23:59:59.999999999Z"

end Instant

end DocumentBase
