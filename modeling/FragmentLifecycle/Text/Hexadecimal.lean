/-!
# Hexadecimal digits

One digit stands for four bits.  Digits are written in lower case and read in
either case.
-/

namespace FragmentLifecycle.Text

/-- The number below 16 that a digit of either case stands for. -/
def hexValue? (character : Char) : Option Nat :=
  if '0' ≤ character ∧ character ≤ '9' then some (character.toNat - '0'.toNat)
  else if 'a' ≤ character ∧ character ≤ 'f' then some (character.toNat - 'a'.toNat + 10)
  else if 'A' ≤ character ∧ character ≤ 'F' then some (character.toNat - 'A'.toNat + 10)
  else none

/-- The `count` lowest hexadecimal digits of `value`, most significant first. -/
def hexDigits : Nat → Nat → List Char
  | 0, _ => []
  | count + 1, value => hexDigits count (value / 16) ++ [Nat.digitChar (value % 16)]

/-- The number that a list of hexadecimal digits stands for, after `total`. -/
def readHexFrom (total : Nat) : List Char → Option Nat
  | [] => some total
  | character :: rest => do
      let digit ← hexValue? character
      readHexFrom (16 * total + digit) rest

def readHex (digits : List Char) : Option Nat :=
  readHexFrom 0 digits

end FragmentLifecycle.Text
