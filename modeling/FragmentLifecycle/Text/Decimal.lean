/-!
# Decimal texts

Natural numbers and integers written in decimal, and bounded integers read
from text: an optional sign, then digits only.  A reading that fails names
one of four reasons.
-/

namespace FragmentLifecycle.Text

def natural (value : Nat) : String :=
  String.ofList (Nat.toDigits 10 value)

def integer (value : Int) : String :=
  match value with
  | .ofNat magnitude => natural magnitude
  | .negSucc predecessor => "-" ++ natural (predecessor + 1)

/-- `value` in decimal with zeros in front up to `width` digits. -/
def padded (width value : Nat) : String :=
  let digits := Nat.toDigits 10 value
  String.ofList (List.replicate (width - digits.length) '0' ++ digits)

def digitValue (character : Char) : Nat :=
  character.toNat - '0'.toNat

inductive IntegerFault where
  | empty
  | invalidDigit
  | tooLarge
  | tooSmall
  deriving DecidableEq

def IntegerFault.message : IntegerFault → String
  | .empty => "cannot parse integer from empty string"
  | .invalidDigit => "invalid digit found in string"
  | .tooLarge => "number too large to fit in target type"
  | .tooSmall => "number too small to fit in target type"

/-- Inclusive bounds of an integer setting.  A minus sign is part of the
grammar only where `lowest` is negative. -/
structure Bounds where
  lowest : Int
  highest : Int
  deriving DecidableEq

def Bounds.unsigned (bits : Nat) : Bounds :=
  ⟨0, Int.ofNat (Nat.pow 2 bits) - 1⟩

def Bounds.signed (bits : Nat) : Bounds :=
  ⟨-Int.ofNat (Nat.pow 2 (bits - 1)), Int.ofNat (Nat.pow 2 (bits - 1)) - 1⟩

/-- Digits read one after another.  The first digit that leads out of the
bounds decides, so a character that is no digit counts only when it comes
before that point. -/
def readDigits (bounds : Bounds) (negative : Bool) : Int → List Char → Except IntegerFault Int
  | total, [] => .ok total
  | total, character :: rest =>
      if character.isDigit then
        let next : Int :=
          if negative then 10 * total - digitValue character
          else 10 * total + digitValue character
        if next < bounds.lowest then .error .tooSmall
        else if bounds.highest < next then .error .tooLarge
        else readDigits bounds negative next rest
      else .error .invalidDigit

/-- An integer within `bounds`. -/
def readInteger (bounds : Bounds) (text : List Char) : Except IntegerFault Int :=
  match text with
  | [] => .error .empty
  | '+' :: [] => .error .invalidDigit
  | '-' :: [] => .error .invalidDigit
  | '+' :: digits => readDigits bounds false 0 digits
  | '-' :: digits =>
      if bounds.lowest < 0 then readDigits bounds true 0 digits else .error .invalidDigit
  | digits => readDigits bounds false 0 digits

end FragmentLifecycle.Text
