/-!
# Binary floating-point numbers of 64 bits

A finite number is a sign and the 63 bits below it, read as a significand and
a power of two.  Rounding is to the nearest number, and a tie goes to the even
significand.  All arithmetic is on natural numbers, so every operation here
can be evaluated in a proof.
-/

namespace FragmentLifecycle.Number

/-- The bits below the sign of the infinite value, which is the first pattern
that is no finite number. -/
def infinityBits : Nat := 2047 * Nat.pow 2 52

/-- A finite number: `bits` are the 63 bits below the sign. -/
structure Binary64 where
  negative : Bool
  bits : Nat
  deriving DecidableEq

/-- A nonnegative rational, `numerator / denominator`. -/
structure Ratio where
  numerator : Nat
  denominator : Nat
  deriving DecidableEq

namespace Ratio

/-- `factor * 2 ^ exponent`. -/
def scaled (factor : Nat) (exponent : Int) : Ratio :=
  ⟨factor * Nat.pow 2 exponent.toNat, Nat.pow 2 (-exponent).toNat⟩

def mul (left right : Ratio) : Ratio :=
  ⟨left.numerator * right.numerator, left.denominator * right.denominator⟩

def div (left right : Ratio) : Ratio :=
  ⟨left.numerator * right.denominator, left.denominator * right.numerator⟩

end Ratio

/-- The nearest natural number to `numerator / denominator`; of two equally
near ones the even one. -/
def divideToEven (numerator denominator : Nat) : Nat :=
  let quotient := numerator / denominator
  let twice := 2 * (numerator % denominator)
  if denominator < twice ∨ (denominator = twice ∧ quotient % 2 = 1) then quotient + 1
  else quotient

/-- The power of two that a significand for `ratio` is scaled by: the significand
has 53 bits, or fewer where the smallest exponent is reached. -/
def scaleOf (ratio : Ratio) : Int :=
  let guess : Int := (ratio.numerator.log2 : Int) - ratio.denominator.log2 - 53
  let scale : Int :=
    if ratio.numerator * Nat.pow 2 (-guess).toNat < ratio.denominator * Nat.pow 2 (53 + guess.toNat)
    then guess else guess + 1
  max scale (-1074)

/-- The bits of the number nearest to `ratio`; `none` where that is infinite. -/
def roundBits (ratio : Ratio) : Option Nat :=
  if ratio.numerator = 0 then some 0
  else
    let scale := scaleOf ratio
    let significand :=
      divideToEven (ratio.numerator * Nat.pow 2 (-scale).toNat) (ratio.denominator * Nat.pow 2 scale.toNat)
    let bits := (scale + 1074).toNat * Nat.pow 2 52 + significand
    if bits < infinityBits then some bits else none

namespace Binary64

def exponentField (number : Binary64) : Nat := number.bits / Nat.pow 2 52

def fractionField (number : Binary64) : Nat := number.bits % Nat.pow 2 52

def significand (number : Binary64) : Nat :=
  if number.exponentField = 0 then number.fractionField else Nat.pow 2 52 + number.fractionField

/-- The magnitude is `significand * 2 ^ exponent`. -/
def exponent (number : Binary64) : Int :=
  if number.exponentField = 0 then -1074 else (number.exponentField : Int) - 1075

def magnitude (number : Binary64) : Ratio :=
  .scaled number.significand number.exponent

end Binary64

/-- The bits of a power of ten that still has a finite nearest number. -/
def powerOfTen (exponent : Nat) : Ratio :=
  match roundBits ⟨Nat.pow 10 exponent, 1⟩ with
  | some bits => Binary64.magnitude ⟨false, bits⟩
  | none => ⟨1, 1⟩

/-- The largest power of ten below the infinite value. -/
def largestPower : Nat := 308

/-- Scale a magnitude by a power of ten, rounding after each operation.  A
scale below the smallest table entry is taken in steps of `largestPower`; the
result is `none` where it would be infinite. -/
def scaleByTen : Nat → Nat → Int → Option Nat
  | 0, bits, _ => some bits
  | steps + 1, bits, exponent =>
      let magnitude := Binary64.magnitude ⟨false, bits⟩
      if exponent.natAbs ≤ largestPower then
        let power := powerOfTen exponent.natAbs
        if 0 ≤ exponent then roundBits (magnitude.mul power)
        else roundBits (magnitude.div power)
      else if bits = 0 then some 0
      else if 0 ≤ exponent then none
      else
        match roundBits (magnitude.div (powerOfTen largestPower)) with
        | none => none
        | some smaller => scaleByTen steps smaller (exponent + largestPower)

/-- The number read from a decimal `significand * 10 ^ exponent`: the significand
is rounded first, then scaled.  A magnitude of 20 digits vanishes after three
steps, so four are enough. -/
def ofDecimal (negative : Bool) (significand : Nat) (exponent : Int) : Option Binary64 := do
  let rounded ← roundBits ⟨significand, 1⟩
  let bits ← scaleByTen 4 rounded exponent
  return ⟨negative, bits⟩

example : ofDecimal false 15 (-1) = some ⟨false, 0x3ff8000000000000⟩ := by decide +kernel
example : ofDecimal false 1 (-1) = some ⟨false, 0x3fb999999999999a⟩ := by decide +kernel
example : ofDecimal false 5 (-324) = some ⟨false, 1⟩ := by decide +kernel
example : ofDecimal true 0 0 = some ⟨true, 0⟩ := by decide +kernel
example : ofDecimal false 1 400 = none := by decide +kernel

end FragmentLifecycle.Number
