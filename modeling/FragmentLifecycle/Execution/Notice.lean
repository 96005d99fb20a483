import FragmentLifecycle.Fault.Basic
import FragmentLifecycle.Identity.Handle
import FragmentLifecycle.Identity.Node

/-!
# Notices

What an executor, its context, its controls and the cluster membership note while
they work: a level, a message and named fields.
-/

namespace FragmentLifecycle

inductive Level where
  | debug
  | info
  | warn
  | error
  deriving DecidableEq

def Level.text : Level → String
  | .debug => "DEBUG"
  | .info => "INFO"
  | .warn => "WARN"
  | .error => "ERROR"

inductive Notice where
  | alreadyRan (fragment : Handle)
  | starting (fragment : Handle) (endpoint : Node)
  | requested (fragment : Handle) (current target : State)
  | ignored (fragment : Handle) (current target : State)
  | recording (fragment : Handle) (error : String)
  | failed (fragment : Handle) (error : String)
  | completed (fragment : Handle) (state : State)
  | forwarding (sender receiver : Handle)
  | dropping (sender receiver : Handle)
  | pausing (site : String)
  | resuming (site : String)
  | contextClosed (fragment : Handle)
  | contextAlreadyClosed (fragment : Handle)
  | nodesDeparted (count : Nat)
  | foremanDeparted (foreman : Node) (fragment : Handle)
  | heapExhausted (error : String)
  | startingThread (fragment : Handle)
  | spawnFailed (fragment : Handle) (error : String)
  | unknownFragment (fragment : Handle)
  | cancellingAll (count : Nat)
  deriving DecidableEq

namespace Notice

def level : Notice → Level
  | .alreadyRan _ | .ignored .. | .dropping .. | .contextAlreadyClosed _
  | .foremanDeparted .. | .unknownFragment _ => .warn
  | .starting .. | .recording .. | .contextClosed _ | .nodesDeparted _
  | .startingThread _ => .debug
  | .failed .. | .heapExhausted _ | .spawnFailed .. => .error
  | _ => .info

def message : Notice → String
  | .alreadyRan _ => "Fragment executor already ran"
  | .starting .. => "Starting fragment"
  | .requested .. => "State change requested"
  | .ignored .. => "Ignoring unexpected state transition"
  | .recording .. => "Recording fragment failure"
  | .failed .. => "Fragment failed"
  | .completed .. => "Fragment completed"
  | .forwarding .. => "Applying request for early sender termination"
  | .dropping .. => "Dropping request for early fragment termination, no root exec exists"
  | .pausing _ => "Pausing execution"
  | .resuming _ => "Resuming execution"
  | .contextClosed _ => "Fragment context closed"
  | .contextAlreadyClosed _ => "Fragment context already closed"
  | .nodesDeparted _ => "Nodes departed"
  | .foremanDeparted .. => "Foreman no longer active, cancelling fragment"
  | .heapExhausted _ => "Node ran out of heap memory, exiting"
  | .startingThread _ => "Starting fragment thread"
  | .spawnFailed .. => "Failed to spawn fragment thread"
  | .unknownFragment _ => "No running fragment for handle"
  | .cancellingAll _ => "Cancelling all fragments"

/-- Fields by name.  The identifier of a failure is random and shown as
`identifier`. -/
def fields (identifier : String) : Notice → List (String × String)
  | .alreadyRan fragment => [("fragment", fragment.text)]
  | .starting fragment endpoint =>
      [("major", Text.natural fragment.major.toNat), ("minor", Text.natural fragment.minor.toNat),
       ("address", endpoint.address), ("port", Text.natural endpoint.userPort.toNat)]
  | .requested fragment current target =>
      [("fragment", fragment.text), ("from", current.text), ("to", target.text)]
  | .ignored fragment current target =>
      [("fragment", fragment.text), ("from", current.text), ("to", target.text)]
  | .recording fragment error => [("fragment", fragment.text), ("error", error)]
  | .failed fragment error =>
      [("fragment", fragment.text), ("error_id", identifier), ("error", error)]
  | .completed fragment state => [("fragment", fragment.text), ("state", state.text)]
  | .forwarding sender receiver =>
      [("sender", sender.fragmentText), ("receiver", receiver.fragmentText)]
  | .dropping sender receiver =>
      [("sender", sender.fragmentText), ("receiver", receiver.fragmentText)]
  | .pausing site => [("site", site)]
  | .resuming site => [("site", site)]
  | .contextClosed fragment => [("fragment", fragment.text)]
  | .contextAlreadyClosed fragment => [("fragment", fragment.text)]
  | .nodesDeparted count => [("count", Text.natural count)]
  | .foremanDeparted foreman fragment =>
      [("foreman", foreman.text), ("fragment", fragment.text)]
  | .heapExhausted error => [("error", error)]
  | .startingThread fragment => [("fragment", fragment.text)]
  | .spawnFailed fragment error => [("fragment", fragment.text), ("error", error)]
  | .unknownFragment fragment => [("fragment", fragment.text)]
  | .cancellingAll count => [("count", Text.natural count)]

end Notice

end FragmentLifecycle
