import StatusRelay.Text.Blank
import StatusRelay.Text.Digits

/-!
# Instants

An instant is a count of seconds since the start of 1970 in UTC and a fraction in nanoseconds. A
leap second is the second before it with a fraction of a whole second or more.

The text of an instant is that of RFC 3339, read leniently: blanks may stand before every number,
dash, colon and the offset; the year may carry a sign and then any number of digits; the other
numbers have one or two; digits of the fraction past the ninth are ignored; the offset is `Z`,
`UTC` or a signed number of hours and minutes. Years run from -262143 to 262142. Instants are
written in UTC.
-/
namespace StatusRelay

structure Instant where
  seconds : Int
  nanos : Nat := 0
  deriving DecidableEq, Repr, Inhabited

namespace Instant

open Text

def epoch : Instant := ⟨0, 0⟩

/-- Days from 1970-01-01 to a date of the Gregorian calendar, counted in eras of 400 years that
start in March. -/
def dayNumber (year : Int) (month day : Nat) : Int :=
  let y : Int := if month ≤ 2 then year - 1 else year
  let era := Int.fdiv y 400
  let yearOfEra := y - era * 400
  let monthFromMarch := (month + 9) % 12
  let dayOfYear : Int := ((153 * monthFromMarch + 2) / 5 + day - 1 : Nat)
  let dayOfEra := yearOfEra * 365 + Int.fdiv yearOfEra 4 - Int.fdiv yearOfEra 100 + dayOfYear
  era * 146097 + dayOfEra - 719468

/-- The date of a day number. -/
def civil (days : Int) : Int × Nat × Nat :=
  let z := days + 719468
  let era := Int.fdiv z 146097
  let dayOfEra := (z - era * 146097).toNat
  let yearOfEra := (dayOfEra - dayOfEra / 1460 + dayOfEra / 36524 - dayOfEra / 146096) / 365
  let dayOfYear := dayOfEra - (365 * yearOfEra + yearOfEra / 4 - yearOfEra / 100)
  let monthFromMarch := (5 * dayOfYear + 2) / 153
  let day := dayOfYear - (153 * monthFromMarch + 2) / 5 + 1
  let month := if monthFromMarch < 10 then monthFromMarch + 3 else monthFromMarch - 9
  let year : Int := yearOfEra + era * 400
  (if month ≤ 2 then year + 1 else year, month, day)

def isLeapYear (year : Int) : Bool :=
  year.emod 4 == 0 && (year.emod 100 != 0 || year.emod 400 == 0)

def daysInMonth (year : Int) (month : Nat) : Nat :=
  match month with
  | 2 => if isLeapYear year then 29 else 28
  | 4 | 6 | 9 | 11 => 30
  | _ => 31

def firstYear : Int := -262143

def lastYear : Int := 262142

/-! ## Reading -/

/-- Between one and `width` digits. -/
def readNumber? (width : Nat) (cs : List Char) : Option (Nat × List Char) :=
  let digits := (cs.take width).takeWhile isDigit
  if digits.isEmpty then none else some (digitsValue digits, cs.drop digits.length)

def readField? (cs : List Char) : Option (Nat × List Char) := readNumber? 2 (trimStart cs)

/-- A year of up to four digits, or of any number of digits after a sign. -/
def readYear? (cs : List Char) : Option (Int × List Char) :=
  match trimStart cs with
  | '-' :: rest => (readNumber? rest.length rest).map fun (n, rest) => (-(n : Int), rest)
  | '+' :: rest => (readNumber? rest.length rest).map fun (n, rest) => ((n : Int), rest)
  | rest => (readNumber? 4 rest).map fun (n, rest) => ((n : Int), rest)

def readMark? (mark : Char) (cs : List Char) : Option (List Char) :=
  match trimStart cs with
  | c :: rest => if c = mark then some rest else none
  | [] => none

def readSeparator? : List Char → Option (List Char)
  | c :: rest => if c = 't' ∨ c = 'T' ∨ c = ' ' then some rest else none
  | [] => none

/-- The fraction of a second in nanoseconds. -/
def readFraction? (cs : List Char) : Option (Nat × List Char) :=
  match cs with
  | '.' :: rest =>
      let digits := rest.takeWhile isDigit
      if digits.isEmpty then none
      else
        let kept := digits.take 9
        some (digitsValue kept * Nat.pow 10 (9 - kept.length), rest.dropWhile isDigit)
  | _ => some (0, cs)

def isColonOrBlank (c : Char) : Bool := c == ':' || isBlank c

/-- Hours and minutes of an offset as seconds. -/
def readOffsetDigits? (cs : List Char) : Option (Nat × List Char) :=
  match cs with
  | h :: i :: rest =>
      if isDigit h && isDigit i then
        match rest.dropWhile isColonOrBlank with
        | m :: n :: rest =>
            if isDigit m && isDigit n && decide (m < '6') then
              some (digitsValue [h, i] * 3600 + digitsValue [m, n] * 60, rest)
            else none
        | _ => none
      else none
  | _ => none

/-- The offset from UTC in seconds. -/
def readOffset? (cs : List Char) : Option (Int × List Char) :=
  match cs with
  | 'Z' :: rest => some (0, rest)
  | 'z' :: rest => some (0, rest)
  | '+' :: rest => (readOffsetDigits? rest).map fun (n, rest) => ((n : Int), rest)
  | '-' :: rest => (readOffsetDigits? rest).map fun (n, rest) => (-(n : Int), rest)
  | '\u2212' :: rest => (readOffsetDigits? rest).map fun (n, rest) => (-(n : Int), rest)
  | u :: t :: c :: rest =>
      if u.toLower = 'u' ∧ t.toLower = 't' ∧ c.toLower = 'c' then some (0, rest) else none
  | _ => none

/-- The instant of a date, a time of day and an offset, where there is such a date and time. -/
def ofParts? (year : Int) (month day hour minute second nanos : Nat) (offset : Int) :
    Option Instant :=
  if firstYear ≤ year ∧ year ≤ lastYear ∧ 1 ≤ month ∧ month ≤ 12 ∧ 1 ≤ day ∧
      day ≤ daysInMonth year month ∧ hour ≤ 23 ∧ minute ≤ 59 ∧ second ≤ 60 ∧
      offset.natAbs < 86400 then
    let ofDay : Nat := hour * 3600 + minute * 60 + min second 59
    let seconds := dayNumber year month day * 86400 + ofDay - offset
    let first := dayNumber firstYear 1 1 * 86400
    let last := dayNumber lastYear 12 31 * 86400 + 86399
    if first ≤ seconds ∧ seconds ≤ last then
      some ⟨seconds, if second = 60 then nanos + 1000000000 else nanos⟩
    else none
  else none

/-- The instant that a text names. -/
def parse? (text : String) : Option Instant := do
  let cs := text.toList
  let (year, cs) ← readYear? cs
  let cs ← readMark? '-' cs
  let (month, cs) ← readField? cs
  let cs ← readMark? '-' cs
  let (day, cs) ← readField? cs
  let cs ← readSeparator? cs
  let (hour, cs) ← readField? cs
  let cs ← readMark? ':' cs
  let (minute, cs) ← readField? cs
  let cs ← readMark? ':' cs
  let (second, cs) ← readField? cs
  let (nanos, cs) ← readFraction? cs
  let (offset, cs) ← readOffset? (trimStart cs)
  if (trimStart cs).isEmpty then ofParts? year month day hour minute second nanos offset else none

/-! ## Writing -/

def yearText (year : Int) : List Char :=
  if 0 ≤ year ∧ year ≤ 9999 then padded 4 year.toNat
  else (if year < 0 then '-' else '+') :: padded 4 year.natAbs

/-- No fraction, or 3, 6 or 9 digits, the fewest that are exact. -/
def fractionText (nanos : Nat) : List Char :=
  if nanos = 0 then []
  else if nanos % 1000000 = 0 then '.' :: padded 3 (nanos / 1000000)
  else if nanos % 1000 = 0 then '.' :: padded 6 (nanos / 1000)
  else '.' :: padded 9 nanos

/-- The text to the second, with a fraction or without it. -/
def textWith (fraction : Nat → List Char) (t : Instant) : String :=
  let days := Int.fdiv t.seconds 86400
  let ofDay := (t.seconds - days * 86400).toNat
  let (year, month, day) := civil days
  let leap := 1000000000 ≤ t.nanos
  let second := ofDay % 60 + (if leap then 1 else 0)
  let nanos := if leap then t.nanos - 1000000000 else t.nanos
  String.ofList <|
    yearText year ++ '-' :: padded 2 month ++ '-' :: padded 2 day ++ 'T' :: padded 2 (ofDay / 3600) ++
      ':' :: padded 2 (ofDay / 60 % 60) ++ ':' :: padded 2 second ++ fraction nanos ++ ['Z']

/-- The text with its exact fraction. -/
def text (t : Instant) : String := textWith fractionText t

/-- The text to the whole second. -/
def textToSecond (t : Instant) : String := textWith (fun _ => []) t

end Instant
end StatusRelay
