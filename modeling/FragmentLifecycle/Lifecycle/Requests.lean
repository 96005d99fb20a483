import FragmentLifecycle.Fault.Collector

/-!
# Requests on a lifecycle

The state of a fragment and the causes recorded for its failure.  A request for a
state is decided and stored in one step.  A failure is recorded first and then asks
for the failed state, so a failed fragment has a cause.
-/

namespace FragmentLifecycle

structure Lifecycle where
  state : State := .awaitingAllocation
  failures : Collector := {}
  deriving DecidableEq

namespace Lifecycle

/-- Decide on a request and store the accepted state. -/
def request (lifecycle : Lifecycle) (target : State) : Decision × Lifecycle :=
  let decision := lifecycle.state.decide target
  (decision, { lifecycle with state := decision.apply lifecycle.state })

def append (lifecycle : Lifecycle) (cause : Fault) : Lifecycle :=
  { lifecycle with failures := lifecycle.failures.append cause }

/-- Take every recorded cause. -/
def drain (lifecycle : Lifecycle) : Option Composite × Lifecycle :=
  let (causes, failures) := lifecycle.failures.drain
  (causes, { lifecycle with failures })

/-- A call that is complete before the next one begins. -/
inductive Call where
  | request (target : State)
  | fail (cause : Fault)
  deriving DecidableEq

/-- What a call answers: whether the state changed, or that the request can never be
legal; and the state it announces, if any. -/
structure Effect where
  changed : Except ExecutionError Bool
  announced : Option State

def effectOf (current target : State) : Decision → Effect
  | .accept state true => ⟨.ok true, some state⟩
  | .accept _ false => ⟨.ok true, none⟩
  | .ignore _ => ⟨.ok false, none⟩
  | .invalid => ⟨.error (.invalidTransition current target), none⟩

def perform (lifecycle : Lifecycle) : Call → Effect × Lifecycle
  | .request target =>
      let (decision, next) := lifecycle.request target
      (effectOf lifecycle.state target decision, next)
  | .fail cause =>
      let (decision, next) := (lifecycle.append cause).request .failed
      (effectOf lifecycle.state .failed decision, next)

/-- Calls made one after another, each with the lifecycle after it. -/
def performAll (lifecycle : Lifecycle) : List Call → List (Effect × Lifecycle)
  | [] => []
  | call :: rest =>
      let (effect, next) := lifecycle.perform call
      (effect, next) :: next.performAll rest

end Lifecycle

end FragmentLifecycle
