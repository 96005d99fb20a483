import FragmentLifecycle.Identity.Handle
import FragmentLifecycle.Identity.Node
import FragmentLifecycle.Identity.Principal
import FragmentLifecycle.Json.Record
import FragmentLifecycle.Json.Writer

/-!
# JSON form of identities

Handles and nodes are records, a principal is a name or an object with one
member.
-/

namespace FragmentLifecycle

open Json

namespace Json.Value

def text? : Value → Option String
  | .text value => some value
  | _ => none

/-- A natural number below `bound`. -/
def natural? (bound : Nat) : Value → Option Nat
  | .number (.integer (.ofNat value)) => if value < bound then some value else none
  | _ => none

def ofNatural (value : Nat) : Value :=
  .number (.integer value)

end Json.Value

/-- A field whose value has no brackets. -/
def plainField (name : String) : RecordField Value :=
  ⟨name, readValue 0⟩

namespace Handle

def toValue (handle : Handle) : Value :=
  .object
    [("query_id", .text handle.query.text),
     ("major_fragment_id", .ofNatural handle.major.toNat),
     ("minor_fragment_id", .ofNatural handle.minor.toNat)]

def fields : List (RecordField Value) :=
  [plainField "query_id", plainField "major_fragment_id", plainField "minor_fragment_id"]

def ofSlots : List (Option Value) → Option Handle
  | [some query, some major, some minor] => do
      let query ← query.text? >>= QueryId.ofText
      let major ← major.natural? UInt32.size
      let minor ← minor.natural? UInt32.size
      some ⟨query, .ofNat major, .ofNat minor⟩
  | _ => none

def read : Reader Handle := fun text => do
  let (slots, rest) ← readRecord fields text
  let handle ← ofSlots slots
  some (handle, rest)

end Handle

namespace Node

def toValue (node : Node) : Value :=
  .object
    [("address", .text node.address),
     ("user_port", .ofNatural node.userPort.toNat),
     ("control_port", .ofNatural node.controlPort.toNat),
     ("data_port", .ofNatural node.dataPort.toNat)]

def fields : List (RecordField Value) :=
  [plainField "address", plainField "user_port", plainField "control_port",
   plainField "data_port"]

def ofSlots : List (Option Value) → Option Node
  | [some address, some user, some control, some data] => do
      let address ← address.text?
      let user ← user.natural? UInt16.size
      let control ← control.natural? UInt16.size
      let data ← data.natural? UInt16.size
      some ⟨address, .ofNat user, .ofNat control, .ofNat data⟩
  | _ => none

def read : Reader Node := fun text => do
  let (slots, rest) ← readRecord fields text
  let node ← ofSlots slots
  some (node, rest)

end Node

namespace Principal

def toValue : Principal → Value
  | .processUser => .text "process_user"
  | .proxy user => .object [("proxy", .text user)]

def readProxy : Reader Principal := fun text =>
  match skipSpace text with
  | '\x7b' :: rest => do
      let (name, rest) ← readString rest
      let (_, rest) ← readColon rest
      let (user, rest) ← readString rest
      match skipSpace rest with
      | '\x7d' :: rest => if name = "proxy" then some (.proxy user, rest) else none
      | _ => none
  | _ => none

def read : Reader Principal := fun text =>
  (readName [("process_user", Principal.processUser)] text).or (readProxy text)

end Principal

end FragmentLifecycle
