import FragmentLifecycle.Number.Binary64
import FragmentLifecycle.Text.Decimal

/-!
# Shortest decimal texts

The text of a number has the fewest digits that read back as that number, and
among those the digits nearest to it.  Every decimal between the two midpoints
to the neighbouring numbers reads back; the midpoints themselves do where the
significand is even.
-/

namespace FragmentLifecycle.Number

/-- Four times a magnitude and the two midpoints beside it, over one common
denominator. -/
structure Interval where
  low : Nat
  middle : Nat
  high : Nat
  denominator : Nat
  closed : Bool
  deriving DecidableEq

def Binary64.interval (number : Binary64) : Interval :=
  let significand := number.significand
  let below := if significand = Nat.pow 2 52 ∧ 1 < number.exponentField then 1 else 2
  let factor := Nat.pow 2 number.exponent.toNat
  { low := (4 * significand - below) * factor
    middle := 4 * significand * factor
    high := (4 * significand + 2) * factor
    denominator := 4 * Nat.pow 2 (-number.exponent).toNat
    closed := significand % 2 = 0 }

/-- `digits * 10 ^ exponent` lies in the interval. -/
def Interval.contains (interval : Interval) (digits : Nat) (exponent : Int) : Bool :=
  let scaled := digits * Nat.pow 10 exponent.toNat * interval.denominator
  let unit := Nat.pow 10 (-exponent).toNat
  if interval.closed then
    decide (interval.low * unit ≤ scaled) && decide (scaled ≤ interval.high * unit)
  else decide (interval.low * unit < scaled) && decide (scaled < interval.high * unit)

/-- The grid point at or below the magnitude on the grid of multiples of
`10 ^ exponent`, and the remainder as a ratio of the grid's unit. -/
def Interval.gridBelow (interval : Interval) (exponent : Int) : Nat × Ratio :=
  let numerator := interval.middle * Nat.pow 10 (-exponent).toNat
  let unit := interval.denominator * Nat.pow 10 exponent.toNat
  (numerator / unit, ⟨numerator % unit, unit⟩)

/-- The grid point to print for one grid: a neighbour of the magnitude that lies
in the interval, the nearer one of two, and of two equally near ones the even
one. -/
def Interval.pick? (interval : Interval) (exponent : Int) : Option Nat :=
  let (below, rest) := interval.gridBelow exponent
  match interval.contains below exponent, interval.contains (below + 1) exponent with
  | false, false => none
  | true, false => some below
  | false, true => some (below + 1)
  | true, true =>
      if 2 * rest.numerator < rest.denominator then some below
      else if rest.denominator < 2 * rest.numerator then some (below + 1)
      else if below % 2 = 0 then some below
      else some (below + 1)

/-- The exponent of the leading digit of a positive ratio below one: the least
`places` with `1 ≤ ratio * 10 ^ places`, negated. -/
def leadingBelowOne : Nat → Nat → Ratio → Int
  | 0, places, _ => -(places : Int)
  | fuel + 1, places, ratio =>
      if ratio.denominator ≤ ratio.numerator * Nat.pow 10 places then -(places : Int)
      else leadingBelowOne fuel (places + 1) ratio

/-- The exponent of the leading decimal digit of a positive ratio.  No number
is below `10 ^ -324`. -/
def leadingExponent (ratio : Ratio) : Int :=
  if ratio.denominator ≤ ratio.numerator then
    ((Nat.toDigits 10 (ratio.numerator / ratio.denominator)).length : Int) - 1
  else leadingBelowOne 324 1 ratio

/-- A decimal: `digits * 10 ^ exponent`. -/
structure Decimal where
  digits : Nat
  exponent : Int
  deriving DecidableEq

/-- The first grid with a hit, from the coarsest on. -/
def Interval.shortestFrom (interval : Interval) : Nat → Int → Decimal
  | 0, exponent => ⟨(interval.gridBelow exponent).1, exponent⟩
  | grids + 1, exponent =>
      match interval.pick? exponent with
      | some digits => ⟨digits, exponent⟩
      | none => interval.shortestFrom grids (exponent - 1)

/-- Seventeen digits always suffice. -/
def Binary64.shortest (number : Binary64) : Decimal :=
  if number.bits = 0 then ⟨0, 0⟩
  else number.interval.shortestFrom 17 (leadingExponent number.magnitude)

/-- Digits without trailing zeros. -/
def trimZeros (digits : List Char) : List Char :=
  (digits.reverse.dropWhile (· = '0')).reverse

/-- How decimals are laid out: positional notation for leading exponents from
`positionalFrom` to `positionalTo`, the exponent mark otherwise. -/
structure Layout where
  positionalFrom : Int
  positionalTo : Int
  mark : String
  positiveSign : String
  deriving DecidableEq

def Layout.exponentText (layout : Layout) (exponent : Int) : String :=
  layout.mark ++ (if 0 ≤ exponent then layout.positiveSign else "") ++ Text.integer exponent

/-- A positional text always has a digit on both sides of its point; a text with
an exponent has a point only between two digits. -/
def Layout.text (layout : Layout) (decimal : Decimal) : String :=
  let all := Nat.toDigits 10 decimal.digits
  let leading : Int := decimal.exponent + all.length - 1
  let digits := if decimal.digits = 0 then ['0'] else trimZeros all
  if layout.positionalFrom ≤ leading ∧ leading ≤ layout.positionalTo then
    if leading < 0 then
      String.ofList (['0', '.'] ++ List.replicate (-leading - 1).toNat '0' ++ digits)
    else
      let whole := leading.toNat + 1
      let padding := List.replicate (whole - digits.length) '0'
      let fraction := digits.drop whole
      String.ofList
        (digits.take whole ++ padding ++ ['.'] ++ (if fraction.isEmpty then ['0'] else fraction))
  else
    let mantissa :=
      match digits with
      | [] => []
      | first :: [] => [first]
      | first :: rest => first :: '.' :: rest
    String.ofList mantissa ++ layout.exponentText leading

def Binary64.text (layout : Layout) (number : Binary64) : String :=
  (if number.negative then "-" else "") ++ layout.text number.shortest

end FragmentLifecycle.Number
