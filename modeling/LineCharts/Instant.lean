/-
Moments in time and their text form.

* `Instant` counts seconds from the start of 1970 and nanoseconds into the second; in a leap
  second the nanoseconds go on beyond one second.
* `Instant.read` reads a date, a time of day and an offset, as in
  `2024-05-01T12:00:00.5+02:00`.

Design notes. The text is read from left to right as bytes: a part takes its bytes from the
front and leaves the rest. The first fault is the one reported. Date and time of day take
nineteen bytes with their marks, and a text with fewer is too short whatever it holds. The
date has to be in the calendar before its end is looked at; the time of day is checked behind
its fraction, and the offset behind the end of the text.
-/

namespace LineCharts

/-- A moment in time. -/
structure Instant where
  /-- Seconds from the start of 1970, in the days of the Gregorian calendar. -/
  seconds : Int
  nanoseconds : Nat
deriving DecidableEq

namespace Instant

/-- Why a text denotes no moment. -/
inductive ReadError where
  | tooShort
  | invalid
  | outOfRange
  | trailing
deriving DecidableEq

/-- What is said about a text that denotes no moment. -/
def ReadError.message : ReadError → String
  | .tooShort => "premature end of input"
  | .invalid => "input contains invalid characters"
  | .outOfRange => "input is out of range"
  | .trailing => "trailing input"

/-- The byte is a decimal digit. -/
def isDigit (b : UInt8) : Bool := 0x30 ≤ b && b ≤ 0x39

/-- The number that digits denote. -/
def ofDigits (bs : List UInt8) : Nat := bs.foldl (fun n b => 10 * n + (b.toNat - 0x30)) 0

/-- A number of exactly `width` digits. -/
def number (width : Nat) (bs : List UInt8) : Except ReadError (Nat × List UInt8) :=
  let front := bs.take width
  if bs.length < width then .error .tooShort
  else if front.all isDigit then .ok (ofDigits front, bs.drop width)
  else .error .invalid

/-- One of the marks `marks`. -/
def mark (marks : List UInt8) : List UInt8 → Except ReadError (List UInt8)
  | [] => .error .tooShort
  | b :: rest => if marks.contains b then .ok rest else .error .invalid

/-- The fraction of a second behind its point, in nanoseconds; digits behind the
ninth count for nothing. -/
def fraction (bs : List UInt8) : Except ReadError (Nat × List UInt8) :=
  match bs with
  | [] => .error .tooShort
  | b :: _ =>
    if isDigit b then
      let digits := (bs.takeWhile isDigit).take 9
      .ok (ofDigits digits * Nat.pow 10 (9 - digits.length), bs.dropWhile isDigit)
    else .error .invalid

/-- The sign of an offset; a minus sign may be a hyphen or U+2212. -/
def sign : List UInt8 → Except ReadError (Int × List UInt8)
  | [] => .error .tooShort
  | 0x2b :: rest => .ok (1, rest)
  | 0x2d :: rest => .ok (-1, rest)
  | 0xe2 :: 0x88 :: 0x92 :: rest => .ok (-1, rest)
  | _ => .error .invalid

/-- The offset from universal time in seconds: `Z`, or hours and minutes with a sign. The
hours may be any two digits here. -/
def offset (bs : List UInt8) : Except ReadError (Int × List UInt8) :=
  match bs with
  | 0x5a :: rest => .ok (0, rest)
  | 0x7a :: rest => .ok (0, rest)
  | _ => do
    let (sign, bs) ← sign bs
    let (hours, bs) ← number 2 bs
    let bs ← mark [0x3a] bs
    let (minutes, bs) ← number 2 bs
    if minutes ≤ 59 then return (sign * (hours * 3600 + minutes * 60), bs)
    else throw .outOfRange

/-! ### The calendar -/

/-- Whether a year has a 29th of February. -/
def isLeapYear (year : Nat) : Bool := year % 4 = 0 && (year % 100 != 0 || year % 400 = 0)

/-- The number of days of a month, which counts from 1. -/
def daysInMonth (year month : Nat) : Nat :=
  if month = 2 then (if isLeapYear year then 29 else 28)
  else if month = 4 || month = 6 || month = 9 || month = 11 then 30 else 31

/-- The days from the first day of year 0 to the first day of a year. -/
def daysToYear (year : Nat) : Nat :=
  365 * year + (year + 3) / 4 - (year + 99) / 100 + (year + 399) / 400

/-- The days of a year before a month. -/
def daysToMonth (year month : Nat) : Nat :=
  (List.range (month - 1)).foldl (fun days m => days + daysInMonth year (m + 1)) 0

/-- The days from the first day of year 0 to a date. -/
def dayNumber (year month day : Nat) : Nat :=
  daysToYear year + daysToMonth year month + (day - 1)

/-- The day on which 1970 starts. -/
def epochDay : Nat := dayNumber 1970 1 1

/-- The bytes of a date and a time of day without a fraction. -/
def shortestLength : Nat := 19

/-- The moment that a text denotes. A leap second is the second before it, with at least a
whole second of nanoseconds. -/
def read (text : String) : Except ReadError Instant := do
  let bs := text.toUTF8.toList
  if bs.length < shortestLength then throw .tooShort
  let (year, bs) ← number 4 bs
  let bs ← mark [0x2d] bs
  let (month, bs) ← number 2 bs
  let bs ← mark [0x2d] bs
  let (day, bs) ← number 2 bs
  if month < 1 || 12 < month || day < 1 || daysInMonth year month < day then throw .outOfRange
  let bs ← mark [0x54, 0x74, 0x20] bs
  let (hour, bs) ← number 2 bs
  let bs ← mark [0x3a] bs
  let (minute, bs) ← number 2 bs
  let bs ← mark [0x3a] bs
  let (second, bs) ← number 2 bs
  let (nanoseconds, bs) ← match bs with
    | 0x2e :: rest => fraction rest
    | _ => .ok (0, bs)
  if 23 < hour || 59 < minute || 60 < second then throw .outOfRange
  let (offset, bs) ← offset bs
  if !bs.isEmpty then throw .trailing
  if 86400 ≤ offset.natAbs then throw .outOfRange
  let leap := second = 60
  let ofDay := hour * 3600 + minute * 60 + (if leap then 59 else second)
  return {
    seconds := ((dayNumber year month day : Int) - epochDay) * 86400 + ofDay - offset
    nanoseconds := nanoseconds + (if leap then 1000000000 else 0) }

end Instant

end LineCharts
