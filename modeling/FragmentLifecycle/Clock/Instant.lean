import FragmentLifecycle.Text.Blank
import FragmentLifecycle.Text.Decimal

/-!
# Instants

An instant is a day, a second of that day and a fraction of that second, all in
universal time.  A leap second is the last second of its minute with a fraction
of one second or more.  Texts follow RFC 3339, with some freedom on reading:
blanks before numbers, numbers with fewer digits, years with a sign, and any
offset from universal time.
-/

namespace FragmentLifecycle

/-- A date of the proleptic Gregorian calendar. -/
structure Date where
  year : Int
  month : Nat
  day : Nat
  deriving DecidableEq

namespace Date

def isLeapYear (year : Int) : Bool :=
  year % 4 = 0 && (year % 100 != 0 || year % 400 = 0)

def daysInMonth (year : Int) (month : Nat) : Nat :=
  match month with
  | 2 => if isLeapYear year then 29 else 28
  | 4 | 6 | 9 | 11 => 30
  | _ => 31

def isValid (date : Date) : Bool :=
  decide (1 ≤ date.month) && decide (date.month ≤ 12) && decide (1 ≤ date.day) &&
    decide (date.day ≤ daysInMonth date.year date.month)

/-- Days since the first of March of the year zero.  A year counted from March
ends with its leap day, and its months have lengths in a fixed pattern. -/
def toDays (date : Date) : Int :=
  let year := if date.month ≤ 2 then date.year - 1 else date.year
  let month := (date.month + 9) % 12
  365 * year + year / 4 - year / 100 + year / 400 + (153 * month + 2) / 5 + date.day - 1

/-- The inverse of `toDays`. -/
def ofDays (days : Int) : Date :=
  let era := days / 146097
  let inEra := (days % 146097).toNat
  let yearOfEra := (inEra - inEra / 1460 + inEra / 36524 - inEra / 146096) / 365
  let inYear := inEra - (365 * yearOfEra + yearOfEra / 4 - yearOfEra / 100)
  let month := (5 * inYear + 2) / 153
  { year := 400 * era + yearOfEra + (if month < 10 then 0 else 1)
    month := if month < 10 then month + 3 else month - 9
    day := inYear - (153 * month + 2) / 5 + 1 }

/-- Years that an instant can have. -/
def firstYear : Int := -262143

def lastYear : Int := 262142

def isRepresentable (date : Date) : Bool :=
  decide (firstYear ≤ date.year) && decide (date.year ≤ lastYear)

example : ofDays (toDays ⟨2024, 2, 29⟩) = ⟨2024, 2, 29⟩ := by decide
example : ofDays (toDays ⟨-1, 12, 31⟩ + 1) = ⟨0, 1, 1⟩ := by decide

end Date

structure Instant where
  day : Int
  second : Nat
  nanosecond : Nat
  deriving DecidableEq

namespace Instant

def secondsPerDay : Nat := 86400

def nanosPerSecond : Nat := 1000000000

/-! ## Writing -/

def yearText (year : Int) : String :=
  if 0 ≤ year ∧ year ≤ 9999 then Text.padded 4 year.toNat
  else (if year < 0 then "-" else "+") ++ Text.padded 4 year.natAbs

/-- No fraction, or as many groups of three digits as it takes. -/
def fractionText (nanos : Nat) : String :=
  if nanos = 0 then ""
  else if nanos % 1000000 = 0 then "." ++ Text.padded 3 (nanos / 1000000)
  else if nanos % 1000 = 0 then "." ++ Text.padded 6 (nanos / 1000)
  else "." ++ Text.padded 9 nanos

def text (instant : Instant) : String :=
  let date := Date.ofDays instant.day
  let leap := instant.nanosecond / nanosPerSecond
  yearText date.year ++ "-" ++ Text.padded 2 date.month ++ "-" ++ Text.padded 2 date.day ++ "T" ++
    Text.padded 2 (instant.second / 3600) ++ ":" ++
    Text.padded 2 (instant.second / 60 % 60) ++ ":" ++
    Text.padded 2 (instant.second % 60 + leap) ++
    fractionText (instant.nanosecond % nanosPerSecond) ++ "Z"

/-! ## Reading -/

/-- At most `width` digits, at least one. -/
def readDigits (width : Nat) (text : List Char) : Option (Nat × List Char) :=
  let digits := (text.take width).takeWhile Char.isDigit
  if digits.isEmpty then none
  else some (Nat.ofDigitChars 10 digits 0, text.drop digits.length)

def readField (width : Nat) (text : List Char) : Option (Nat × List Char) :=
  readDigits width (Text.trimStart text)

/-- A year of at most four digits, or of any number of digits after a sign. -/
def readYear (text : List Char) : Option (Int × List Char) :=
  match Text.trimStart text with
  | '-' :: rest => (readDigits rest.length rest).map fun read => (-(read.1 : Int), read.2)
  | '+' :: rest => (readDigits rest.length rest).map fun read => ((read.1 : Int), read.2)
  | rest => (readDigits 4 rest).map fun read => ((read.1 : Int), read.2)

/-- The rest after `mark`, with blanks before it skipped. -/
def readMark (mark : Char) (text : List Char) : Option (List Char) :=
  match Text.trimStart text with
  | character :: rest => if character = mark then some rest else none
  | [] => none

def readDate (text : List Char) : Option (Date × List Char) := do
  let (year, rest) ← readYear text
  let rest ← readMark '-' rest
  let (month, rest) ← readField 2 rest
  let rest ← readMark '-' rest
  let (day, rest) ← readField 2 rest
  some (⟨year, month, day⟩, rest)

/-- A fraction of a second, of which nine digits count. -/
def readFraction (text : List Char) : Option (Nat × List Char) :=
  match text with
  | '.' :: rest =>
      let digits := (rest.take 9).takeWhile Char.isDigit
      if digits.isEmpty then none
      else
        some (Nat.ofDigitChars 10 digits 0 * Nat.pow 10 (9 - digits.length),
          rest.dropWhile Char.isDigit)
  | _ => some (0, text)

/-- Seconds of the day and fraction of a time of day.  The second 60 is the
second 59 with a whole second more. -/
def timeOf (hour minute second nanos : Nat) : Option (Nat × Nat) :=
  if hour < 24 ∧ minute < 60 ∧ second ≤ 60 then
    if second = 60 then some (3600 * hour + 60 * minute + 59, nanosPerSecond + nanos)
    else some (3600 * hour + 60 * minute + second, nanos)
  else none

def readTime (text : List Char) : Option ((Nat × Nat) × List Char) := do
  let (hour, rest) ← readField 2 text
  let rest ← readMark ':' rest
  let (minute, rest) ← readField 2 rest
  let rest ← readMark ':' rest
  let (second, rest) ← readField 2 rest
  let (nanos, rest) ← readFraction rest
  let time ← timeOf hour minute second nanos
  some (time, rest)

/-- Exactly two digits, of which the first is at most `highest`. -/
def readPair (highest : Char) : List Char → Option (Nat × List Char)
  | first :: second :: rest =>
      if first.isDigit ∧ second.isDigit ∧ first ≤ highest then
        some (10 * Text.digitValue first + Text.digitValue second, rest)
      else none
  | _ => none

def isOffsetSeparator (character : Char) : Bool :=
  character = ':' || Text.isBlank character

/-- Hours and minutes, in seconds. -/
def readOffsetSize (text : List Char) : Option (Nat × List Char) := do
  let (hours, rest) ← readPair '9' text
  let (minutes, rest) ← readPair '5' (rest.dropWhile isOffsetSeparator)
  some (3600 * hours + 60 * minutes, rest)

/-- An offset from universal time in seconds: a name for none, or a sign and a
size.  The sign may be the mathematical minus. -/
def readOffset (text : List Char) : Option (Int × List Char) :=
  if (text.take 3).map Char.toUpper = ['U', 'T', 'C'] then some (0, text.drop 3)
  else
    match text with
    | 'Z' :: rest => some (0, rest)
    | 'z' :: rest => some (0, rest)
    | '+' :: rest => (readOffsetSize rest).map fun read => ((read.1 : Int), read.2)
    | '-' :: rest => (readOffsetSize rest).map fun read => (-(read.1 : Int), read.2)
    | '\u2212' :: rest => (readOffsetSize rest).map fun read => (-(read.1 : Int), read.2)
    | _ => none

/-- The instant at which clocks with the given offset show the given time. -/
def ofLocal (date : Date) (time : Nat × Nat) (offset : Int) : Option Instant :=
  if date.isValid ∧ date.isRepresentable ∧ offset.natAbs < secondsPerDay then
    let shifted : Int := time.1 - offset
    let instant : Instant :=
      ⟨date.toDays + shifted / secondsPerDay, (shifted % secondsPerDay).toNat, time.2⟩
    if (Date.ofDays instant.day).isRepresentable then some instant else none
  else none

def ofCharacters (text : List Char) : Option Instant := do
  let (date, rest) ← readDate text
  let rest ←
    match rest with
    | 'T' :: rest => some rest
    | 't' :: rest => some rest
    | ' ' :: rest => some rest
    | _ => none
  let (time, rest) ← readTime rest
  let (offset, rest) ← readOffset (Text.trimStart rest)
  if (Text.trimStart rest).isEmpty then ofLocal date time offset else none

def ofText (text : String) : Option Instant :=
  ofCharacters text.toList

end Instant

end FragmentLifecycle
