import FragmentLifecycle.Text.Hexadecimal

/-!
# Query identifiers

A query is identified by 128 bits.  They are written as 32 hexadecimal digits in
five groups with hyphens between them, and read in four spellings and any letter
case: with hyphens, without, with hyphens in braces, and with hyphens after a
scheme.
-/

namespace FragmentLifecycle

structure QueryId where
  value : BitVec 128
  deriving DecidableEq

namespace QueryId

/-- How many digits each group has. -/
def groupSizes : List Nat := [8, 4, 4, 4, 12]

/-- Cut `digits` into groups with a hyphen between two groups. -/
def hyphenate : List Nat → List Char → List Char
  | [], _ => []
  | size :: [], digits => digits.take size
  | size :: sizes, digits => digits.take size ++ '-' :: hyphenate sizes (digits.drop size)

def characters (query : QueryId) : List Char :=
  hyphenate groupSizes (Text.hexDigits 32 query.value.toNat)

def text (query : QueryId) : String :=
  String.ofList query.characters

/-- The digits of groups of the given sizes with a hyphen between two groups. -/
def joinGroups : List Nat → List Char → Option (List Char)
  | [], rest => if rest.isEmpty then some [] else none
  | size :: [], rest => if rest.length = size then some rest else none
  | size :: sizes, rest =>
      match rest.drop size with
      | '-' :: others => (joinGroups sizes others).map (rest.take size ++ ·)
      | _ => none

def ofDigits (digits : List Char) : Option QueryId :=
  if digits.length = 32 then
    (Text.readHex digits).map fun value => ⟨BitVec.ofNat 128 value⟩
  else none

def ofGroups (text : List Char) : Option QueryId :=
  (joinGroups groupSizes text).bind ofDigits

def scheme : List Char := "urn:uuid:".toList

/-- The length decides which spelling a text can have. -/
def ofCharacters (text : List Char) : Option QueryId :=
  match text.length with
  | 32 => ofDigits text
  | 36 => ofGroups text
  | 38 =>
      match text with
      | '\x7b' :: rest =>
          if rest.getLast? = some '\x7d' then ofGroups rest.dropLast else none
      | _ => none
  | 45 =>
      if (text.take 9).map Char.toLower = scheme then ofGroups (text.drop 9) else none
  | _ => none

def ofText (text : String) : Option QueryId :=
  ofCharacters text.toList

end QueryId

end FragmentLifecycle
