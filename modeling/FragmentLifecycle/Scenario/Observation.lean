import FragmentLifecycle.Execution.Schedule

/-!
# Observations

What can be seen of an executor between two moments of rest: the calls it made and
the actions that were played, each by its worker or by another caller, the early
terminations it passed on, its state, and whether its context is closed.
-/

namespace FragmentLifecycle

/-- What became of a call from outside. -/
inductive CallResult where
  | answered (answer : Answer)
  | panicked (payload : Payload)
  | pending

def System.callResult (system : System) (thread : ThreadId) : CallResult :=
  match system.conclusion thread with
  | .pending => .pending
  | .replied (.answer answer) => .answered answer
  | .replied _ => .answered .none
  | .panicked payload => .panicked payload

def CallResult.isPending : CallResult → Bool
  | .pending => true
  | _ => false

/-- What a script of operations waits for in vain. -/
inductive Unrest where
  /-- A call that does not return. -/
  | callers
  /-- A fragment that is still listed as running. -/
  | manager

def Unrest.text : Unrest → String
  | .callers => "timeout: callers"
  | .manager => "timeout: manager"

/-- An entry of a journal that is seen as an event, and whether the worker made it. -/
structure Event where
  byWorker : Bool
  entry : Entry

def Entry.isEvent : Entry → Bool
  | .entered _ => true
  | .acted _ _ => true
  | _ => false

def Entry.forwarded? : Entry → Option Handle
  | .forwarded receiver => some receiver
  | _ => none

/-- Texts in ascending order. -/
def sortTexts (texts : List String) : List String :=
  texts.mergeSort fun left right => !decide (right < left)

structure Observation where
  worker : System.WorkerStatus
  state : Option State
  closed : Bool
  events : List Event
  forwarded : List String

/-- What is seen of an executor after the first `seen` entries of its journal, where
`isWorker` tells the worker's threads from others. -/
def System.observe (system : System) (id : ExecutorId) (seen : Nat)
    (status : System.WorkerStatus) (isWorker : ThreadId → Bool) : Observation :=
  let executor := system.executor id
  let fresh := executor.journal.drop seen
  { worker := status
    state := if executor.released then none else some executor.state
    closed := executor.context.closed
    events :=
      (fresh.filter fun record => record.entry.isEvent).map fun record =>
        ⟨isWorker record.thread, record.entry⟩
    forwarded :=
      sortTexts ((fresh.filterMap fun record => record.entry.forwarded?).map Handle.text) }

/-- The thread of an executor's run is its worker. -/
def System.observeRun (system : System) (id : ExecutorId) (seen : Nat) : Observation :=
  system.observe id seen (system.workerStatus id) fun thread =>
    (system.executor id).course.thread? = some thread

/-- The threads started for an executor are its workers. -/
def System.observeHosted (system : System) (id : ExecutorId) (seen : Nat) : Observation :=
  system.observe id seen (system.hostedStatus id) fun thread =>
    match system.threads[thread]? with
    | some stack => stack.hosts = some id
    | none => false

end FragmentLifecycle
