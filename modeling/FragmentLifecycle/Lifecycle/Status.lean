import FragmentLifecycle.Clock.Instant
import FragmentLifecycle.Fault.Report
import FragmentLifecycle.Identity.Format
import FragmentLifecycle.Lifecycle.State

/-!
# Records sent between nodes

JSON forms of states, kinds, plans and statuses.  States and kinds are names from
a closed list.
-/

namespace FragmentLifecycle

open Json

/-- A plan as shipped to a node: the type of the root operator and what that
operator makes of it. -/
structure RootPlan where
  operator : String
  plan : Value

namespace RootPlan

def toValue (root : RootPlan) : Value :=
  .object [("operator", .text root.operator), ("plan", root.plan)]

def fields : List (RecordField Value) :=
  [plainField "operator", ⟨"plan", readValue (nestingLimit - 1)⟩]

/-- The plan may be missing. -/
def ofSlots : List (Option Value) → Option RootPlan
  | [some operator, plan] => do
      let operator ← operator.text?
      some ⟨operator, plan.getD .null⟩
  | _ => none

def read : Reader RootPlan := fun text => do
  let (slots, rest) ← readRecord fields text
  let root ← ofSlots slots
  some (root, rest)

end RootPlan

def State.toValue (state : State) : Value :=
  .text state.text

def State.read : Reader State :=
  readName (State.all.map fun state => (state.text, state))

def MemoryPool.toValue (pool : MemoryPool) : Value :=
  .text pool.name

def MemoryPool.read : Reader MemoryPool :=
  readName (MemoryPool.all.map fun pool => (pool.name, pool))

def FailureKind.toValue (kind : FailureKind) : Value :=
  .text kind.name

def FailureKind.read : Reader FailureKind :=
  readName (FailureKind.all.map fun kind => (kind.name, kind))

/-- The status of a fragment at some instant. -/
structure StatusRecord where
  handle : Handle
  state : State
  stats : Value
  capturedAt : Instant

namespace StatusRecord

def toValue (status : StatusRecord) : Value :=
  .object
    [("handle", status.handle.toValue),
     ("state", status.state.toValue),
     ("stats", status.stats),
     ("captured_at", .text status.capturedAt.text)]

/-- What the fields of a status hold. -/
inductive Slot where
  | handle (handle : Handle)
  | state (state : State)
  | value (value : Value)

def fields : List (RecordField Slot) :=
  [⟨"handle", fun text => (Handle.read text).map fun read => (.handle read.1, read.2)⟩,
   ⟨"state", fun text => (State.read text).map fun read => (.state read.1, read.2)⟩,
   ⟨"stats", fun text =>
      (readValue (nestingLimit - 1) text).map fun read => (.value read.1, read.2)⟩,
   ⟨"captured_at", fun text => (readValue 0 text).map fun read => (.value read.1, read.2)⟩]

def ofSlots : List (Option Slot) → Option StatusRecord
  | [some (.handle handle), some (.state state), some (.value stats), some (.value captured)] => do
      let captured ← captured.text? >>= Instant.ofText
      some ⟨handle, state, stats, captured⟩
  | _ => none

def read : Reader StatusRecord := fun text => do
  let (slots, rest) ← readRecord fields text
  let status ← ofSlots slots
  some (status, rest)

end StatusRecord

end FragmentLifecycle
