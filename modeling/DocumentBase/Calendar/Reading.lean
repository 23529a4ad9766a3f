import DocumentBase.Calendar
import DocumentBase.Number.Reading

/-!
# Reading instants

The text of an instant as JSON writes it: date and time with the letter `T`, a fraction of a
second if there is one, and `Z` or an offset.
-/

namespace DocumentBase.Instant

def takeDigits? (count : Nat) (text : List Char) : Option (Nat × List Char) :=
  if (text.take count).length = count then
    (decimalDigits? (text.take count)).map fun n => (n, text.drop count)
  else none

def expect? (wanted : Char → Bool) : List Char → Option (List Char)
  | c :: rest => if wanted c then some rest else none
  | [] => none

/-- A fraction of a second as whole milliseconds, and the rest of the text. -/
def fraction? : List Char → Option (Nat × List Char)
  | '.' :: rest =>
    let (digits, after) := rest.span Char.isDigit
    (decimalDigits? digits).map fun _ =>
      (((decimalDigits? ((digits ++ ['0', '0', '0']).take 3)).getD 0), after)
  | text => some (0, text)

/-- The offset at the end of the text, in minutes. -/
def offset? (text : List Char) : Option Int :=
  match text with
  | ['Z'] | ['z'] => some 0
  | sign :: rest =>
    if sign = '+' || sign = '-' then do
      let (hours, rest) ← takeDigits? 2 rest
      let rest ← expect? (· = ':') rest
      let (minutes, rest) ← takeDigits? 2 rest
      if rest.isEmpty && hours ≤ 23 && minutes ≤ 59 then
        let total : Int := 60 * hours + minutes
        some (if sign = '-' then -total else total)
      else none
    else none
  | [] => none

/-- Whether the calendar has the date: it is the date of its own day. -/
def isDate (year : Int) (month day : Nat) : Bool :=
  1 ≤ month && month ≤ 12 && 1 ≤ day && civilDate (dayOfDate year month day) = (year, month, day)

def ofInternetText? (text : String) : Option Instant := do
  let (year, rest) ← takeDigits? 4 text.toList
  let rest ← expect? (· = '-') rest
  let (month, rest) ← takeDigits? 2 rest
  let rest ← expect? (· = '-') rest
  let (day, rest) ← takeDigits? 2 rest
  let rest ← expect? (fun c => c = 'T' || c = 't') rest
  let (hour, rest) ← takeDigits? 2 rest
  let rest ← expect? (· = ':') rest
  let (minute, rest) ← takeDigits? 2 rest
  let rest ← expect? (· = ':') rest
  let (second, rest) ← takeDigits? 2 rest
  let (millisecond, rest) ← fraction? rest
  let offset ← offset? rest
  if isDate year month day && hour ≤ 23 && minute ≤ 59 && second ≤ 59 then
    let seconds : Int := ((hour * 60 + minute : Nat) - offset) * 60 + second
    some (dayOfDate year month day * millisPerDay + seconds * 1000 + millisecond)
  else none

end DocumentBase.Instant
