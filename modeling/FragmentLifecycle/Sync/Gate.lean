/-!
# One-shot gate

External callers wait at the gate before they touch an operator tree.  It opens
once and never closes.  `GateMonitor` adds the threads that sleep on the gate's
condition variable: a thread that is awake checks the gate again before it
passes, so a wake-up without a signal lets nobody through.
-/

namespace FragmentLifecycle

abbrev ThreadId := Nat

structure Gate where
  isOpen : Bool := false
  deriving DecidableEq

def Gate.opened (gate : Gate) : Gate :=
  { gate with isOpen := true }

/-- A gate and its callers: those asleep, those signalled and not yet past it,
and those that have passed. -/
structure GateMonitor where
  gate : Gate := {}
  asleep : List ThreadId := []
  signalled : List ThreadId := []
  passed : List ThreadId := []
  deriving DecidableEq

namespace GateMonitor

inductive Event where
  | opens
  | asks
  | waits (thread : ThreadId)
  | wakes (thread : ThreadId)
  deriving DecidableEq

/-- One critical section of a caller.  `wakes` is a signalled or spurious wake-up
of a sleeping thread; of any other thread it changes nothing. -/
def step (monitor : GateMonitor) : Event → GateMonitor
  | .opens =>
      if monitor.gate.isOpen then monitor
      else
        { monitor with
          gate := monitor.gate.opened
          asleep := []
          signalled := monitor.signalled ++ monitor.asleep }
  | .asks => monitor
  | .waits thread =>
      if monitor.gate.isOpen then { monitor with passed := monitor.passed ++ [thread] }
      else { monitor with asleep := monitor.asleep ++ [thread] }
  | .wakes thread =>
      if thread ∈ monitor.asleep ∨ thread ∈ monitor.signalled then
        if monitor.gate.isOpen then
          { monitor with
            asleep := monitor.asleep.filter (· != thread)
            signalled := monitor.signalled.filter (· != thread)
            passed := monitor.passed ++ [thread] }
        else
          { monitor with
            asleep := monitor.asleep.filter (· != thread) ++ [thread]
            signalled := monitor.signalled.filter (· != thread) }
      else monitor

/-- Every signalled thread wakes up. -/
def settle (monitor : GateMonitor) : GateMonitor :=
  monitor.signalled.foldl (fun current thread => current.step (.wakes thread)) monitor

/-- Callers that have not passed yet. -/
def waiting (monitor : GateMonitor) : Nat :=
  monitor.asleep.length + monitor.signalled.length

inductive Outcome where
  | released (count : Nat)
  | isOpen (value : Bool)
  | passed
  | blocked
  deriving DecidableEq

/-- A call from outside, after which every signalled thread wakes up. -/
def call (monitor : GateMonitor) (event : Event) : Outcome × GateMonitor :=
  let next := (monitor.step event).settle
  let outcome :=
    match event with
    | .opens | .wakes _ => .released (next.passed.length - monitor.passed.length)
    | .asks => .isOpen next.gate.isOpen
    | .waits thread => if thread ∈ next.passed then .passed else .blocked
  (outcome, next)

/-- Calls made one after another, each with the gate after it. -/
def callAll (monitor : GateMonitor) : List Event → List (Outcome × GateMonitor)
  | [] => []
  | event :: rest =>
      let (outcome, next) := monitor.call event
      (outcome, next) :: next.callAll rest

end GateMonitor

end FragmentLifecycle
