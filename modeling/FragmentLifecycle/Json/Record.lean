import FragmentLifecycle.Json.Reader

/-!
# Records in JSON text

A record has declared fields in a declared order.  It is read from an object,
where its fields may come in any order and other members are skipped, or from a
list of the fields' values in the declared order, of which the last ones may be
missing.  A field that comes twice is an error.
-/

namespace FragmentLifecycle.Json

/-- A declared field and the reader of its value. -/
structure RecordField (α : Type) where
  name : String
  reader : Reader α

/-- The position of the field called `name`. -/
def position? {α : Type} (name : String) : List (RecordField α) → Option Nat
  | [] => none
  | field :: rest =>
      if field.name = name then some 0 else (position? name rest).map (· + 1)

/-- One member: the position of its field and what was read, or `none` for a
member that was skipped. -/
def readFieldMember {α : Type} (fields : List (RecordField α)) : Reader (Option (Nat × α)) :=
  fun text => do
    let (name, rest) ← readString text
    let (_, rest) ← readColon rest
    match position? name fields with
    | none => do
        let (_, rest) ← skipValue rest
        some (none, rest)
    | some position => do
        let field ← fields[position]?
        let (value, rest) ← field.reader rest
        some (some (position, value), rest)

/-- Fill the slots of a record; a slot can be filled once. -/
def fillSlots {α : Type} (slots : List (Option α)) :
    List (Option (Nat × α)) → Option (List (Option α))
  | [] => some slots
  | none :: rest => fillSlots slots rest
  | some (position, value) :: rest =>
      match slots[position]? with
      | some none => fillSlots (slots.set position (some value)) rest
      | _ => none

/-- Values by position after the first, each after a comma. -/
def readFollowingFields {α : Type} : List (RecordField α) → Reader (List (Option α))
  | [], text =>
      match skipSpace text with
      | ']' :: rest => some ([], rest)
      | _ => none
  | field :: fields, text =>
      match skipSpace text with
      | ']' :: rest => some (List.replicate (fields.length + 1) none, rest)
      | ',' :: rest => do
          let (value, rest) ← field.reader rest
          let (others, rest) ← readFollowingFields fields rest
          some (some value :: others, rest)
      | _ => none

/-- Values by position, after the opening bracket. -/
def readFieldList {α : Type} : List (RecordField α) → Reader (List (Option α))
  | [], text => readFollowingFields [] text
  | field :: fields, text =>
      match skipSpace text with
      | ']' :: rest => some (List.replicate (fields.length + 1) none, rest)
      | text => do
          let (value, rest) ← field.reader text
          let (others, rest) ← readFollowingFields fields rest
          some (some value :: others, rest)

/-- What was read for each field, in declared order. -/
def readRecord {α : Type} (fields : List (RecordField α)) : Reader (List (Option α)) := fun text =>
  match skipSpace text with
  | '\x7b' :: rest => do
      let (members, rest) ← readSequence (readFieldMember fields) '\x7d' rest
      let slots ← fillSlots (List.replicate fields.length none) members
      some (slots, rest)
  | '[' :: rest => readFieldList fields rest
  | _ => none

/-- A name from a closed list, as a string or as the only member of an object
with the value null. -/
def readName {α : Type} (names : List (String × α)) : Reader α := fun text =>
  match skipSpace text with
  | '"' :: rest => do
      let (name, rest) ← readStringBody rest
      let value ← names.lookup name
      some (value, rest)
  | '\x7b' :: rest => do
      let (name, rest) ← readString rest
      let value ← names.lookup name
      let (_, rest) ← readColon rest
      let rest ← after? "null".toList (skipSpace rest)
      match skipSpace rest with
      | '\x7d' :: rest => some (value, rest)
      | _ => none
  | _ => none

end FragmentLifecycle.Json
