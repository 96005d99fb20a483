import FragmentLifecycle.Fault.Report
import FragmentLifecycle.Identity.Node
import FragmentLifecycle.Identity.Scope
import FragmentLifecycle.Json.Value
import FragmentLifecycle.Lifecycle.State

/-!
# Scripted collaborators

An executor calls collaborators: the builder of its operator tree, the tree, its
context, the reporter of its states and the handler of an exhausted heap.  What a
collaborator does in a call is a plan: actions, in order, and an outcome.  Most
actions are entry points of the executor itself, so a plan may call back; others
look at it, or run a body of code as another principal.
-/

namespace FragmentLifecycle

/-- What a panic carries: a text, or something that is none. -/
inductive Payload where
  | text (message : String)
  | other
  deriving DecidableEq

def Payload.message : Payload → String
  | .text message => message
  | .other => "unknown panic"

inductive Action where
  | run
  | cancel
  | unpause
  | closeContext
  | finished (receiver : Handle)
  | status
  | display
  | fail (cause : Fault)
  | heldFail (cause : Fault)
  | sink
  | principal
  | scoped (body : List Scope)
  | arm (site : String)
  | pause (site : String)
  | recordStat (key : String) (value : Json.Value)
  | depart (nodes : NodeSet)
  | register (nodes : NodeSet)
  | listeners

def Action.name : Action → String
  | .run => "run"
  | .cancel => "cancel"
  | .unpause => "unpause"
  | .closeContext => "close_context"
  | .finished _ => "finished"
  | .status => "status"
  | .display => "display"
  | .fail _ => "fail"
  | .heldFail _ => "held_fail"
  | .sink => "sink"
  | .principal => "principal"
  | .scoped _ => "scoped"
  | .arm _ => "arm"
  | .pause _ => "pause"
  | .recordStat _ _ => "stat"
  | .depart _ => "depart"
  | .register _ => "register"
  | .listeners => "listeners"

inductive Outcome where
  | more
  | done
  | error (fault : Fault)
  | panic (payload : Payload)
  | park
  deriving DecidableEq

structure Plan where
  actions : List Action := []
  outcome : Outcome := .more

/-- A call that an executor makes on a collaborator. -/
inductive Call where
  | build
  | next (index : Nat)
  | closeRoot
  | closeContext
  | stateChanged (state : State)
  | fail (report : FailureReport)
  | exhausted (exhaustion : OutOfMemory)
  deriving DecidableEq

structure Script where
  build : Plan := {}
  steps : List Plan := []
  closeRoot : Plan := {}
  closeContext : Plan := {}
  onReport : State → Plan := fun _ => {}
  exhausted : Plan := {}

namespace Script

/-- The plan of a call.  A tree advanced beyond its last step is exhausted. -/
def planOf (script : Script) : Call → Plan
  | .build => script.build
  | .next index => (script.steps[index]?).getD { outcome := .done }
  | .closeRoot => script.closeRoot
  | .closeContext => script.closeContext
  | .stateChanged state => script.onReport state
  | .fail _ => script.onReport .failed
  | .exhausted _ => script.exhausted

end Script

end FragmentLifecycle
