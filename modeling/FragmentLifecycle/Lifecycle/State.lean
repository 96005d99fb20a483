/-!
# Lifecycle states

A fragment waits for its operator tree, runs, and ends cancelled, finished or
failed.  `decide` says what a request for a state does in a given state: it is
accepted, ignored, or can never be legal.  A request to finish a fragment whose
cancellation was asked for ends it as cancelled, and a failure may still be
recorded after that.
-/

namespace FragmentLifecycle

inductive State where
  | awaitingAllocation
  | running
  | sending
  | cancellationRequested
  | cancelled
  | finished
  | failed
  deriving DecidableEq

namespace State

def text : State → String
  | .awaitingAllocation => "AWAITING_ALLOCATION"
  | .running => "RUNNING"
  | .sending => "SENDING"
  | .cancellationRequested => "CANCELLATION_REQUESTED"
  | .cancelled => "CANCELLED"
  | .finished => "FINISHED"
  | .failed => "FAILED"

def all : List State :=
  [.awaitingAllocation, .running, .sending, .cancellationRequested, .cancelled, .finished,
   .failed]

def isTerminal : State → Bool
  | .cancelled | .finished | .failed => true
  | _ => false

/-- Whether operators may go on: nothing has ended the fragment and nobody has
asked for its cancellation. -/
def continues (state : State) : Bool :=
  !state.isTerminal && state != .cancellationRequested

end State

/-- What a request for a state does.  An accepted state is announced at once where
`notify` is set; otherwise the final report carries it. -/
inductive Decision where
  | accept (state : State) (notify : Bool)
  | ignore (warn : Bool)
  | invalid
  deriving DecidableEq

/-- The end of a fragment in state `current`, asked for as `target`. -/
def State.decideEnd (current target : State) : Decision :=
  if !current.isTerminal then
    .accept (if target = .finished ∧ current = .cancellationRequested then .cancelled else target)
      false
  else if current = .failed then .ignore false
  else if current = .cancelled ∧ target = .failed then .accept .failed false
  else .ignore true

def State.decide (current target : State) : Decision :=
  match target with
  | .cancellationRequested =>
      match current with
      | .awaitingAllocation | .running | .sending => .accept .cancellationRequested true
      | _ => .ignore true
  | .finished => current.decideEnd .finished
  | .failed => current.decideEnd .failed
  | .running =>
      match current with
      | .awaitingAllocation => .accept .running true
      | _ => .invalid
  | .awaitingAllocation | .sending | .cancelled => .invalid

/-- The state after a decision. -/
def Decision.apply (current : State) : Decision → State
  | .accept state _ => state
  | .ignore _ => current
  | .invalid => current

/-- The decisions on requests made one after another, each with the state after it. -/
def State.decideAll (start : State) : List State → List (Decision × State)
  | [] => []
  | target :: rest =>
      let decision := start.decide target
      let next := decision.apply start
      (decision, next) :: next.decideAll rest

end FragmentLifecycle
