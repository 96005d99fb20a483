import FragmentLifecycle.Number.Binary64

/-!
# JSON values

Dynamic values as they arrive in plans and operator statistics.  Integers of
64 bits are kept exactly and every other number is a binary one.  Members of an
object are kept in ascending order of their names, and a name occurs once: a
later member replaces an earlier one.
-/

namespace FragmentLifecycle.Json

inductive Number where
  | integer (value : Int)
  | binary (value : Number.Binary64)
  deriving DecidableEq

inductive Value where
  | null
  | boolean (value : Bool)
  | number (value : Number)
  | text (value : String)
  | list (items : List Value)
  | object (members : List (String × Value))

/-- Members with `name` set to `value`, in order. -/
def insertMember {α : Type} (name : String) (value : α) :
    List (String × α) → List (String × α)
  | [] => [(name, value)]
  | (other, held) :: rest =>
      if name < other then (name, value) :: (other, held) :: rest
      else if name = other then (name, value) :: rest
      else (other, held) :: insertMember name value rest

/-- The object with the given members, of which the last of equal names wins. -/
def Value.ofMembers (members : List (String × Value)) : Value :=
  .object (members.foldl (fun held member => insertMember member.1 member.2 held) [])

end FragmentLifecycle.Json
