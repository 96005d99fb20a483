import FragmentLifecycle.Json.Value
import FragmentLifecycle.Number.Shortest
import FragmentLifecycle.Text.Hexadecimal

/-!
# Compact JSON text

A value is written without blanks.  Strings escape the quotation mark, the
reverse solidus and the control characters below 0x20, five of them by a letter.
-/

namespace FragmentLifecycle.Json

/-- The letter that stands for a control character after a reverse solidus. -/
def escapeLetter? (character : Char) : Option Char :=
  match character.toNat with
  | 0x08 => some 'b'
  | 0x09 => some 't'
  | 0x0a => some 'n'
  | 0x0c => some 'f'
  | 0x0d => some 'r'
  | _ => none

def escape (character : Char) : List Char :=
  if character = '"' then ['\\', '"']
  else if character = '\\' then ['\\', '\\']
  else
    match escapeLetter? character with
    | some letter => ['\\', letter]
    | none =>
        if character.toNat < 0x20 then '\\' :: 'u' :: Text.hexDigits 4 character.toNat
        else [character]

def quote (text : String) : List Char :=
  '"' :: (text.toList.flatMap escape ++ ['"'])

/-- Positional notation for leading exponents from -5 to 15, a sign on every
other exponent. -/
def numberLayout : Number.Layout := ⟨-5, 15, "e", "+"⟩

def Number.write : Number → List Char
  | .integer value => (Text.integer value).toList
  | .binary value => (value.text numberLayout).toList

mutual

def Value.write : Value → List Char
  | .null => "null".toList
  | .boolean true => "true".toList
  | .boolean false => "false".toList
  | .number value => value.write
  | .text value => quote value
  | .list items => '[' :: writeItems items
  | .object members => '\x7b' :: writeMembers members

/-- The items of a list, with the closing bracket. -/
def writeItems : List Value → List Char
  | [] => [']']
  | item :: [] => item.write ++ [']']
  | item :: rest => item.write ++ ',' :: writeItems rest

/-- The members of an object, with the closing bracket. -/
def writeMembers : List (String × Value) → List Char
  | [] => ['\x7d']
  | (name, value) :: [] => quote name ++ ':' :: value.write ++ ['\x7d']
  | (name, value) :: rest => quote name ++ ':' :: value.write ++ ',' :: writeMembers rest

end

def Value.toText (value : Value) : String :=
  String.ofList value.write

end FragmentLifecycle.Json
