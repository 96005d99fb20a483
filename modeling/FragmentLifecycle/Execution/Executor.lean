import FragmentLifecycle.Execution.Script
import FragmentLifecycle.Lifecycle.Requests
import FragmentLifecycle.Lifecycle.Status
import FragmentLifecycle.LocalContext

/-!
# Executors

An executor drives one fragment: its state, the causes of its failure, its operator
tree, the gate for external events, and its context.  The journal of an executor
holds, in order and with the thread that did it, every call on a collaborator and
its end, every action of a plan with its answer, every request for a state, every
recorded cause, the state that the final report is about, and the causes drained
for it.
-/

namespace FragmentLifecycle

abbrev ExecutorId := Nat

/-- What an action answers. -/
inductive Answer where
  | none
  | flag (value : Bool)
  | count (value : Nat)
  | text (value : String)
  | recorded
  | noSink
  | status (status : Option (Handle × State × Json.Value))
  | sink (continues failed : Bool) (cause : Option Fault)
  | principal (principal : Option Principal)
  | observed (observations : List Scope.Observation)
  | started
  | refused (fault : Fault)
  | handles (handles : List Handle)

inductive Entry where
  | entered (call : Call)
  | left (call : Call) (unwound : Bool)
  | acted (action : Action) (answer : Answer)
  | forwarded (receiver : Handle)
  | requested (current target : State)
  | recorded (cause : Fault)
  | concluded (state : State)
  | drained (causes : Composite)

structure Record where
  thread : ThreadId
  entry : Entry

/-- Whether an executor ran: not yet, on a thread right now, or on a thread that
has come to the end of its run, normally or by a panic. -/
inductive Course where
  | notStarted
  | underWay (thread : ThreadId)
  | ended (thread : ThreadId)
  | unwound (thread : ThreadId)
  deriving DecidableEq

def Course.thread? : Course → Option ThreadId
  | .notStarted => none
  | .underWay thread => some thread
  | .ended thread => some thread
  | .unwound thread => some thread

/-- What follows an exhausted heap: the handler returns, or the process exits with
a code. -/
inductive HeapPolicy where
  | report
  | exit (code : Int)
  deriving DecidableEq

/-- What is fixed when an executor is made. -/
structure Fragment where
  identity : Identity
  root : RootPlan
  script : Script
  heapPolicy : HeapPolicy

/-- The fragment of an identifier that no executor was made for. -/
def Fragment.vacant : Fragment :=
  { identity := ⟨⟨⟨0⟩, 0, 0⟩, ⟨"", 0, 0, 0⟩, ⟨"", 0, 0, 0⟩, "", false⟩
    root := ⟨"", .null⟩
    script := {}
    heapPolicy := .report }

structure Executor where
  fragment : Fragment
  lifecycle : Lifecycle := {}
  course : Course := .notStarted
  treeHeld : Bool := false
  advances : Nat := 0
  gate : Gate := {}
  resourcesClosed : Bool := false
  worker : Option ThreadId := none
  context : LocalContext := {}
  controls : PauseControls := {}
  released : Bool := false
  journal : List Record := []

namespace Executor

/-- A new executor, with its failure sink installed on its context. -/
def ofFragment (fragment : Fragment) : Executor :=
  { fragment, context := LocalContext.install {} }

def state (executor : Executor) : State :=
  executor.lifecycle.state

def handle (executor : Executor) : Handle :=
  executor.fragment.identity.handle

def text (executor : Executor) : String :=
  "FragmentExecutor [fragment=" ++ executor.handle.text ++ ", state=" ++ executor.state.text ++ "]"

/-- The status of a running fragment.  A tree that is still being built has no
consistent statistics. -/
def status? (executor : Executor) : Option (Handle × State × Json.Value) :=
  if executor.state = .running then
    some (executor.handle, .running, executor.context.statsValue)
  else none

/-- Record a cause of failure. -/
def append (executor : Executor) (thread : ThreadId) (cause : Fault) : Executor :=
  { executor with
    lifecycle := executor.lifecycle.append cause
    journal := executor.journal ++ [⟨thread, .recorded cause⟩] }

/-- Decide on a request for a state. -/
def request (executor : Executor) (thread : ThreadId) (target : State) : Decision × Executor :=
  let (decision, lifecycle) := executor.lifecycle.request target
  (decision,
    { executor with
      lifecycle
      journal := executor.journal ++ [⟨thread, .requested executor.state target⟩] })

def record (executor : Executor) (thread : ThreadId) (entry : Entry) : Executor :=
  { executor with journal := executor.journal ++ [⟨thread, entry⟩] }

/-- The report of a failure with the given causes. -/
def failureReport (executor : Executor) (causes : Composite) : FailureReport :=
  .ofCauses causes executor.fragment.identity.endpoint executor.handle

end Executor

end FragmentLifecycle
