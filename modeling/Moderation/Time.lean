import Moderation.Number.Power
import Moderation.Text.Blank
import Moderation.Text.Unsigned

/-!
# Times

A time is a civil date and a time of day in UTC, to the nanosecond; the sixtieth second of a
minute is a leap second. Times are written with `Z` and as few of 0, 3, 6 or 9 digits of the
second's fraction as keep it whole. They are read with any offset from UTC, and with more freedom
than they are written: blanks between the parts, numbers without zeros before them, and a sign
before a year of any length.
-/

namespace Moderation

structure Time where
  year : Int
  month : Nat
  day : Nat
  hour : Nat
  minute : Nat
  second : Nat
  nanosecond : Nat
deriving DecidableEq, Repr, Inhabited

namespace Time

def nanosecondsPerSecond : Nat := 1000000000

def isLeapYear (year : Int) : Bool :=
  year % 4 == 0 && (year % 100 != 0 || year % 400 == 0)

def daysInMonth (year : Int) (month : Nat) : Nat :=
  if month = 2 then (if isLeapYear year then 29 else 28)
  else if month ∈ [4, 6, 9, 11] then 30
  else 31

/-- The days from 1970-01-01 to a date, counted in eras of four hundred years from March on. -/
def daysFromDate (year : Int) (month day : Nat) : Int :=
  let y := if month ≤ 2 then year - 1 else year
  let era := Int.fdiv y 400
  let yearOfEra := y - era * 400
  let monthFromMarch : Int := if 2 < month then (month : Int) - 3 else (month : Int) + 9
  let dayOfYear := Int.fdiv (153 * monthFromMarch + 2) 5 + day - 1
  let dayOfEra := yearOfEra * 365 + Int.fdiv yearOfEra 4 - Int.fdiv yearOfEra 100 + dayOfYear
  era * 146097 + dayOfEra - 719468

/-- The date a number of days after 1970-01-01. -/
def dateFromDays (days : Int) : Int × Nat × Nat :=
  let z := days + 719468
  let era := Int.fdiv z 146097
  let dayOfEra := z - era * 146097
  let yearOfEra := Int.fdiv
    (dayOfEra - Int.fdiv dayOfEra 1460 + Int.fdiv dayOfEra 36524 - Int.fdiv dayOfEra 146096) 365
  let dayOfYear :=
    dayOfEra - (365 * yearOfEra + Int.fdiv yearOfEra 4 - Int.fdiv yearOfEra 100)
  let monthFromMarch := Int.fdiv (5 * dayOfYear + 2) 153
  let day := dayOfYear - Int.fdiv (153 * monthFromMarch + 2) 5 + 1
  let month := if monthFromMarch < 10 then monthFromMarch + 3 else monthFromMarch - 9
  let year := yearOfEra + era * 400 + (if month ≤ 2 then 1 else 0)
  (year, month.toNat, day.toNat)

/-- The years that a time may lie in. -/
def inRange (year : Int) : Bool := -262143 ≤ year && year ≤ 262142

def isValid (t : Time) : Bool :=
  inRange t.year && 1 ≤ t.month && t.month ≤ 12 && 1 ≤ t.day &&
    t.day ≤ daysInMonth t.year t.month && t.hour ≤ 23 && t.minute ≤ 59 && t.second ≤ 60 &&
    t.nanosecond < nanosecondsPerSecond

/-- The time a number of nanoseconds after 1970 began. -/
def ofNanoseconds (nanoseconds : Int) : Time :=
  let seconds := Int.fdiv nanoseconds nanosecondsPerSecond
  let ofDay := (Int.fmod seconds 86400).toNat
  let (year, month, day) := dateFromDays (Int.fdiv seconds 86400)
  { year, month, day
    hour := ofDay / 3600
    minute := ofDay / 60 % 60
    second := ofDay % 60
    nanosecond := (Int.fmod nanoseconds nanosecondsPerSecond).toNat }

/-- The time a number of minutes earlier. -/
def minusMinutes (t : Time) (minutes : Int) : Time :=
  let total := (t.hour * 60 + t.minute : Nat) - minutes
  let days := daysFromDate t.year t.month t.day + Int.fdiv total 1440
  let ofDay := (Int.fmod total 1440).toNat
  let (year, month, day) := dateFromDays days
  { t with year, month, day, hour := ofDay / 60, minute := ofDay % 60 }

/-- The digits of a number with zeros before them. -/
def padded (width n : Nat) : List Char :=
  let digits := Nat.toDigits 10 n
  List.replicate (width - digits.length) '0' ++ digits

def yearText (year : Int) : List Char :=
  if 0 ≤ year ∧ year ≤ 9999 then padded 4 year.toNat
  else (if year < 0 then '-' else '+') :: padded 4 year.natAbs

def fractionText (nanosecond : Nat) : List Char :=
  if nanosecond = 0 then []
  else if nanosecond % 1000000 = 0 then '.' :: padded 3 (nanosecond / 1000000)
  else if nanosecond % 1000 = 0 then '.' :: padded 6 (nanosecond / 1000)
  else '.' :: padded 9 nanosecond

def chars (t : Time) : List Char :=
  yearText t.year ++ '-' :: padded 2 t.month ++ '-' :: padded 2 t.day ++ 'T' :: padded 2 t.hour ++
    ':' :: padded 2 t.minute ++ ':' :: padded 2 t.second ++ fractionText t.nanosecond ++ ['Z']

def text (t : Time) : String := String.ofList t.chars

def isDigit (c : Char) : Bool := '0' ≤ c && c ≤ '9'

def digitsValue (cs : List Char) : Nat :=
  cs.foldl (fun n c ↦ n * 10 + (Unsigned.digit? c).getD 0) 0

/-- One digit or more after blanks, at most `width` of them. -/
def readNumber (width : Nat) (cs : List Char) : Option (Nat × List Char) :=
  let cs := Text.trimStart cs
  let digits := (cs.take width).takeWhile isDigit
  if digits.isEmpty then none else some (digitsValue digits, cs.drop digits.length)

/-- All digits after a sign, which may not reach 64 bits. -/
def readLong (cs : List Char) : Option (Nat × List Char) :=
  let digits := cs.takeWhile isDigit
  if digits.isEmpty || twoTo 63 ≤ digitsValue digits then none
  else some (digitsValue digits, cs.drop digits.length)

def readYear (cs : List Char) : Option (Int × List Char) :=
  match Text.trimStart cs with
  | '-' :: rest => (readLong rest).map fun (n, rest) ↦ (-(n : Int), rest)
  | '+' :: rest => (readLong rest).map fun (n, rest) ↦ ((n : Int), rest)
  | cs => (readNumber 4 cs).map fun (n, rest) ↦ ((n : Int), rest)

/-- A mark after blanks. -/
def expect (mark : Char) (cs : List Char) : Option (List Char) :=
  match Text.trimStart cs with
  | c :: rest => if c = mark then some rest else none
  | [] => none

/-- The fraction of a second; digits after the ninth are dropped. -/
def readFraction : List Char → Option (Nat × List Char)
  | '.' :: rest =>
    let digits := rest.takeWhile isDigit
    if digits.isEmpty then none
    else
      let kept := digits.take 9
      some (digitsValue kept * tenTo (9 - kept.length), rest.drop digits.length)
  | rest => some (0, rest)

def asciiLower (c : Char) : Char := if 'A' ≤ c ∧ c ≤ 'Z' then Char.ofNat (c.toNat + 32) else c

/-- Two digits, the first of them at most `most`. -/
def readPair (most : Char) : List Char → Option (Nat × List Char)
  | a :: b :: rest =>
    if isDigit a && isDigit b && a ≤ most then some (digitsValue [a, b], rest) else none
  | _ => none

/-- An offset from UTC in minutes: `Z`, `UTC`, or a sign with hours and minutes. -/
def readOffset (cs : List Char) : Option (Int × List Char) :=
  let signed : Int → List Char → Option (Int × List Char) := fun sign rest ↦ do
    let (hours, rest) ← readPair '9' rest
    let rest := rest.dropWhile fun c ↦ c == ':' || Text.isBlank c
    let (minutes, rest) ← readPair '5' rest
    pure (sign * (hours * 60 + minutes), rest)
  if (cs.take 3).map asciiLower = ['u', 't', 'c'] then some (0, cs.drop 3)
  else match cs with
    | 'Z' :: rest => some (0, rest)
    | 'z' :: rest => some (0, rest)
    | '+' :: rest => signed 1 rest
    | '-' :: rest => signed (-1) rest
    | '\u2212' :: rest => signed (-1) rest
    | _ => none

/-- The time that a text stands for. -/
def ofChars? (cs : List Char) : Option Time := do
  let (year, rest) ← readYear cs
  let rest ← expect '-' rest
  let (month, rest) ← readNumber 2 rest
  let rest ← expect '-' rest
  let (day, rest) ← readNumber 2 rest
  let rest ← match rest with
    | 'T' :: rest => some rest
    | 't' :: rest => some rest
    | ' ' :: rest => some rest
    | _ => none
  let (hour, rest) ← readNumber 2 rest
  let rest ← expect ':' rest
  let (minute, rest) ← readNumber 2 rest
  let rest ← expect ':' rest
  let (second, rest) ← readNumber 2 rest
  let (nanosecond, rest) ← readFraction rest
  let (offset, rest) ← readOffset (Text.trimStart rest)
  let written : Time := ⟨year, month, day, hour, minute, second, nanosecond⟩
  if !(Text.trimStart rest).isEmpty || !written.isValid || 1440 ≤ offset.natAbs then none
  else if offset = 0 then some written
  else
    let time := written.minusMinutes offset
    if time.isValid then some time else none

def ofText? (text : String) : Option Time := ofChars? text.toList

/-- The second of the day, a leap second being the one before it. -/
def secondOfDay (t : Time) : Int := (t.hour * 3600 + t.minute * 60 + min t.second 59 : Nat)

/-- The nanoseconds since that second began. -/
def nanosecondsOn (t : Time) : Int :=
  ((if t.second = 60 then nanosecondsPerSecond else 0) + t.nanosecond : Nat)

/-- The nanoseconds from `since` to `t`. A leap second counts only where the time of day of one of
the two lies in it and the other's is later. -/
def nanosecondsSince (t since : Time) : Int :=
  let days := daysFromDate t.year t.month t.day - daysFromDate since.year since.month since.day
  let leap : Int :=
    if since.secondOfDay < t.secondOfDay ∧ since.second = 60 then 1
    else if t.secondOfDay < since.secondOfDay ∧ t.second = 60 then -1
    else 0
  (days * 86400 + t.secondOfDay - since.secondOfDay + leap) * nanosecondsPerSecond +
    (t.nanosecondsOn - since.nanosecondsOn)

/-- The largest whole unit of seconds, minutes, hours and days that passed since; none did before
the time itself. -/
def age (since now : Time) : String :=
  let seconds := (now.nanosecondsSince since).toNat / nanosecondsPerSecond
  if seconds < 60 then toString seconds ++ "s"
  else if seconds < 3600 then toString (seconds / 60) ++ "m"
  else if seconds < 86400 then toString (seconds / 3600) ++ "h"
  else toString (seconds / 86400) ++ "d"

end Time

end Moderation
