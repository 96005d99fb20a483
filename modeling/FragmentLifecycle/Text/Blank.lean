/-!
# Blank characters

The characters with the Unicode property `White_Space`, and trimming by them.
Settings and instants are trimmed by this property, not by ASCII blanks alone.
-/

namespace FragmentLifecycle.Text

/-- Code points with the property `White_Space`, as inclusive ranges in
ascending order. -/
def blankRanges : List (Nat × Nat) :=
  [(0x0009, 0x000d), (0x0020, 0x0020), (0x0085, 0x0085), (0x00a0, 0x00a0),
   (0x1680, 0x1680), (0x2000, 0x200a), (0x2028, 0x2029), (0x202f, 0x202f),
   (0x205f, 0x205f), (0x3000, 0x3000)]

def isBlank (character : Char) : Bool :=
  blankRanges.any fun range =>
    decide (range.1 ≤ character.toNat) && decide (character.toNat ≤ range.2)

def trimStart (text : List Char) : List Char :=
  text.dropWhile isBlank

def trim (text : List Char) : List Char :=
  (trimStart (trimStart text).reverse).reverse

/-- Both ends are trimmed, and blanks inside are kept. -/
example : trim ['\u3000', ' ', '4', ' ', '2', '\u0085', '\n'] = ['4', ' ', '2'] := by decide

example : (blankRanges.map fun range => range.2 + 1 - range.1).sum = 25 := by decide

end FragmentLifecycle.Text
