import FragmentLifecycle.Json.Value
import FragmentLifecycle.Text.Hexadecimal

/-!
# Reading JSON text

A reader takes what it reads from the front of a text and leaves the rest.
Values may be nested to a given depth.  A value that nobody asked for is only
skipped: its nesting is not bounded, its numbers may be of any size, and its
escapes need only be hexadecimal.
-/

namespace FragmentLifecycle.Json

abbrev Reader (α : Type) := List Char → Option (α × List Char)

def isSpace (character : Char) : Bool :=
  character = ' ' || character = '\n' || character = '\t' || character = '\r'

def skipSpace (text : List Char) : List Char :=
  text.dropWhile isSpace

/-- The rest after `literal`. -/
def after? : List Char → List Char → Option (List Char)
  | [], text => some text
  | _ :: _, [] => none
  | expected :: literal, character :: text =>
      if expected = character then after? literal text else none

/-! ## Strings -/

/-- The value of the first four digits, and the rest. -/
def readEscapeUnit : Reader Nat
  | first :: second :: third :: fourth :: rest =>
      (Text.readHex [first, second, third, fourth]).map fun unit => (unit, rest)
  | _ => none

def isHighSurrogate (unit : Nat) : Bool :=
  decide (0xd800 ≤ unit) && decide (unit ≤ 0xdbff)

def isLowSurrogate (unit : Nat) : Bool :=
  decide (0xdc00 ≤ unit) && decide (unit ≤ 0xdfff)

/-- The character of an escape by number.  A character beyond 16 bits takes two
escapes, and half of such a pair is no character. -/
def readEscapedCharacter : Reader Char := fun text => do
  let (unit, rest) ← readEscapeUnit text
  if isLowSurrogate unit then none
  else if isHighSurrogate unit then
    match rest with
    | '\\' :: 'u' :: rest => do
        let (low, rest) ← readEscapeUnit rest
        if isLowSurrogate low then
          some (Char.ofNat (0x10000 + (unit - 0xd800) * 0x400 + (low - 0xdc00)), rest)
        else none
    | _ => none
  else some (Char.ofNat unit, rest)

def escapedLetter? : Char → Option Char
  | '"' => some '"'
  | '\\' => some '\\'
  | '/' => some '/'
  | 'b' => some '\x08'
  | 'f' => some '\x0c'
  | 'n' => some '\n'
  | 'r' => some '\r'
  | 't' => some '\t'
  | _ => none

/-- What follows a reverse solidus. -/
def readEscape : Reader Char
  | 'u' :: rest => readEscapedCharacter rest
  | letter :: rest => (escapedLetter? letter).map fun character => (character, rest)
  | [] => none

/-- What follows a reverse solidus, where the character does not matter. -/
def skipEscape : Reader Unit
  | 'u' :: rest => (readEscapeUnit rest).map fun unit => ((), unit.2)
  | letter :: rest => (escapedLetter? letter).map fun _ => ((), rest)
  | [] => none

/-- Characters up to the closing quotation mark, by a reader for escapes.  Every
round takes a character, so as many rounds as there are characters suffice. -/
def readCharacters {α : Type} (plain : Char → α) (escaped : Reader α) :
    Nat → Reader (List α)
  | 0, _ => none
  | _ + 1, [] => none
  | rounds + 1, character :: rest =>
      if character = '"' then some ([], rest)
      else if character = '\\' then do
        let (item, rest) ← escaped rest
        let (items, rest) ← readCharacters plain escaped rounds rest
        some (item :: items, rest)
      else if character.toNat < 0x20 then none
      else do
        let (items, rest) ← readCharacters plain escaped rounds rest
        some (plain character :: items, rest)

/-- A string after its opening quotation mark. -/
def readStringBody : Reader String := fun text =>
  (readCharacters id readEscape text.length text).map fun read =>
    (String.ofList read.1, read.2)

def readString : Reader String := fun text =>
  match skipSpace text with
  | '"' :: rest => readStringBody rest
  | _ => none

def skipStringBody : Reader Unit := fun text =>
  (readCharacters (fun _ => ()) skipEscape text.length text).map fun read => ((), read.2)

def skipString : Reader Unit := fun text =>
  match skipSpace text with
  | '"' :: rest => skipStringBody rest
  | _ => none

/-! ## Numbers -/

/-- The largest integer that is kept exactly. -/
def largestNatural : Nat := UInt64.size - 1

/-- Digits gathered while the number stays exact: its value, how many digits
were gathered, and the rest from the first digit that no longer fits. -/
def gatherDigits (total count : Nat) : List Char → Nat × Nat × List Char
  | [] => (total, count, [])
  | character :: rest =>
      if character.isDigit then
        let next := 10 * total + (character.toNat - '0'.toNat)
        if largestNatural < next then (total, count, character :: rest)
        else gatherDigits next (count + 1) rest
      else (total, count, character :: rest)

def dropDigits (text : List Char) : List Char :=
  text.dropWhile Char.isDigit

def countDigits (text : List Char) : Nat :=
  (text.takeWhile Char.isDigit).length

/-- Exponents are kept in 32 bits. -/
def largestExponent : Int := 0x7fffffff

def saturate (exponent : Int) : Int :=
  max (-(largestExponent + 1)) (min largestExponent exponent)

def readBinary (negative : Bool) (significand : Nat) (exponent : Int) (rest : List Char) :
    Option (Number × List Char) :=
  (Number.ofDecimal negative significand exponent).map fun number => (.binary number, rest)

/-- The exponent after its mark.  One that does not fit makes the number vanish
or, unless it is zero anyway, grow beyond all bounds. -/
def readExponent (negative : Bool) (significand : Nat) (scale : Int) : Reader Number :=
  fun text =>
    let (down, digits) :=
      match text with
      | '+' :: rest => (false, rest)
      | '-' :: rest => (true, rest)
      | _ => (false, text)
    match digits with
    | [] => none
    | first :: _ =>
        if first.isDigit then
          let exponent := Nat.ofDigitChars 10 (digits.takeWhile Char.isDigit) 0
          let rest := dropDigits digits
          if largestExponent < exponent then
            if significand ≠ 0 ∧ !down then none
            else some (.binary ⟨negative, 0⟩, rest)
          else
            readBinary negative significand
              (saturate (if down then scale - exponent else scale + exponent)) rest
        else none

/-- What follows the digits of a number that is no exact integer. -/
def readScaled (negative : Bool) (significand : Nat) (scale : Int) : Reader Number
  | 'e' :: rest => readExponent negative significand scale rest
  | 'E' :: rest => readExponent negative significand scale rest
  | rest => readBinary negative significand scale rest

/-- The digits after the point.  Those that no longer fit are dropped. -/
def readFraction (negative : Bool) (significand : Nat) (scale : Int) : Reader Number :=
  fun text =>
    match text with
    | [] => none
    | first :: _ =>
        if first.isDigit then
          let (total, count, rest) := gatherDigits significand 0 text
          readScaled negative total (scale - count) (dropDigits rest)
        else none

/-- An integer of 64 bits.  Zero after a minus sign is the binary negative zero,
and so is every negative integer below the least one rounded. -/
def exactInteger (negative : Bool) (magnitude : Nat) : Option Number :=
  if negative then
    if magnitude = 0 ∨ largestNatural / 2 + 1 < magnitude then
      (Number.ofDecimal true magnitude 0).map .binary
    else some (.integer (-(magnitude : Int)))
  else some (.integer magnitude)

/-- A number whose digits before the point are `magnitude` and a further `dropped`
digits that no longer fit. -/
def readAfterDigits (negative : Bool) (magnitude dropped : Nat) : Reader Number
  | '.' :: rest => readFraction negative magnitude dropped rest
  | 'e' :: rest => readExponent negative magnitude dropped rest
  | 'E' :: rest => readExponent negative magnitude dropped rest
  | rest =>
      if dropped = 0 then (exactInteger negative magnitude).map fun number => (number, rest)
      else readBinary negative magnitude dropped rest

/-- A number after its sign. -/
def readMagnitude (negative : Bool) : Reader Number := fun text =>
  match text with
  | [] => none
  | '0' :: rest =>
      match rest with
      | [] => readAfterDigits negative 0 0 rest
      | next :: _ => if next.isDigit then none else readAfterDigits negative 0 0 rest
  | first :: _ =>
      if first.isDigit then
        let (magnitude, _, rest) := gatherDigits 0 0 text
        readAfterDigits negative magnitude (countDigits rest) (dropDigits rest)
      else none

def readNumber : Reader Number
  | '-' :: rest => readMagnitude true rest
  | text => readMagnitude false text

/-- Digits, at least one. -/
def skipDigits : Reader Unit
  | [] => none
  | first :: rest => if first.isDigit then some ((), dropDigits rest) else none

def skipExponent : Reader Unit
  | '+' :: rest => skipDigits rest
  | '-' :: rest => skipDigits rest
  | rest => skipDigits rest

def skipAfterFraction : Reader Unit
  | 'e' :: rest => skipExponent rest
  | 'E' :: rest => skipExponent rest
  | rest => some ((), rest)

def skipAfterDigits : Reader Unit
  | '.' :: rest => do
      let (_, rest) ← skipDigits rest
      skipAfterFraction rest
  | rest => skipAfterFraction rest

def skipMagnitude : Reader Unit
  | '0' :: rest =>
      match rest with
      | [] => some ((), [])
      | next :: _ => if next.isDigit then none else skipAfterDigits rest
  | text => do
      let (_, rest) ← skipDigits text
      skipAfterDigits rest

def skipNumber : Reader Unit
  | '-' :: rest => skipMagnitude rest
  | text => skipMagnitude text

/-! ## Sequences -/

/-- Items after the first, each after a comma, up to `close`. -/
def readFollowing {α : Type} (item : Reader α) (close : Char) : Nat → Reader (List α)
  | 0, _ => none
  | rounds + 1, text =>
      match skipSpace text with
      | [] => none
      | character :: rest =>
          if character = close then some ([], rest)
          else if character = ',' then do
            let (first, rest) ← item rest
            let (others, rest) ← readFollowing item close rounds rest
            some (first :: others, rest)
          else none

/-- Items with commas between them, after the opening bracket, up to `close`. -/
def readSequence {α : Type} (item : Reader α) (close : Char) : Reader (List α) := fun text =>
  match skipSpace text with
  | [] => none
  | character :: rest =>
      if character = close then some ([], rest)
      else do
        let (first, rest) ← item (character :: rest)
        let (others, rest) ← readFollowing item close rest.length rest
        some (first :: others, rest)

/-- The colon between a name and its value. -/
def readColon : Reader Unit := fun text =>
  match skipSpace text with
  | ':' :: rest => some ((), rest)
  | _ => none

def readMember {α : Type} (value : Reader α) : Reader (String × α) := fun text => do
  let (name, rest) ← readString text
  let (_, rest) ← readColon rest
  let (held, rest) ← value rest
  some ((name, held), rest)

def skipMember (value : Reader Unit) : Reader Unit := fun text => do
  let (_, rest) ← skipString text
  let (_, rest) ← readColon rest
  value rest

/-! ## Values -/

/-- A value with at most `depth` brackets around any part of it. -/
def readValue : Nat → Reader Value
  | depth, text =>
      match skipSpace text with
      | [] => none
      | 'n' :: rest => (after? "ull".toList rest).map fun rest => (.null, rest)
      | 't' :: rest => (after? "rue".toList rest).map fun rest => (.boolean true, rest)
      | 'f' :: rest => (after? "alse".toList rest).map fun rest => (.boolean false, rest)
      | '"' :: rest => (readStringBody rest).map fun read => (.text read.1, read.2)
      | '[' :: rest =>
          match depth with
          | 0 => none
          | depth + 1 =>
              (readSequence (readValue depth) ']' rest).map fun read => (.list read.1, read.2)
      | '\x7b' :: rest =>
          match depth with
          | 0 => none
          | depth + 1 =>
              (readSequence (readMember (readValue depth)) '\x7d' rest).map fun read =>
                (.ofMembers read.1, read.2)
      | text => (readNumber text).map fun read => (.number read.1, read.2)

/-- Skip a value with at most `depth` brackets around any part of it. -/
def skipNested : Nat → Reader Unit
  | depth, text =>
      match skipSpace text with
      | [] => none
      | 'n' :: rest => (after? "ull".toList rest).map fun rest => ((), rest)
      | 't' :: rest => (after? "rue".toList rest).map fun rest => ((), rest)
      | 'f' :: rest => (after? "alse".toList rest).map fun rest => ((), rest)
      | '"' :: rest => skipStringBody rest
      | '[' :: rest =>
          match depth with
          | 0 => none
          | depth + 1 =>
              (readSequence (skipNested depth) ']' rest).map fun read => ((), read.2)
      | '\x7b' :: rest =>
          match depth with
          | 0 => none
          | depth + 1 =>
              (readSequence (skipMember (skipNested depth)) '\x7d' rest).map fun read =>
                ((), read.2)
      | text => skipNumber text

/-- Skip a value of any nesting.  A text cannot open more brackets than it has
characters. -/
def skipValue : Reader Unit := fun text =>
  skipNested text.length text

/-- A reader for a whole text, with blanks allowed around what it reads. -/
def readAll {α : Type} (reader : Reader α) (text : String) : Option α :=
  match reader text.toList with
  | some (value, rest) => if (skipSpace rest).isEmpty then some value else none
  | none => none

/-- Values in a text may have this many brackets around any part of them. -/
def nestingLimit : Nat := 127

def Value.ofText? (text : String) : Option Value :=
  readAll (readValue nestingLimit) text

end FragmentLifecycle.Json
