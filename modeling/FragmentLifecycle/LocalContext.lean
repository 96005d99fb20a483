import FragmentLifecycle.Identity.Principal
import FragmentLifecycle.Json.Value
import FragmentLifecycle.Settings
import FragmentLifecycle.Identity.Handle
import FragmentLifecycle.Sync.PauseControls

/-!
# Fragment contexts

The context of a fragment says which fragment it is, where it runs, who submitted
its query, and under which principal its operators act.  It collects operator
statistics and holds the failure sink of its executor until it is closed.
-/

namespace FragmentLifecycle

/-- What a context knows from the start. -/
structure Identity where
  handle : Handle
  endpoint : Node
  foreman : Node
  user : String
  impersonation : Bool
  deriving DecidableEq

namespace Identity

def ofSettings (settings : Settings) (handle : Handle) (foreman : Node) (user : String) :
    Identity :=
  ⟨handle, settings.endpoint, foreman, user, settings.impersonation⟩

/-- Operators act for the query's user exactly where impersonation is on. -/
def principal (identity : Identity) : Principal :=
  if identity.impersonation then .proxy identity.user else .processUser

end Identity

/-- What changes in a context. -/
structure LocalContext where
  closed : Bool := false
  sinkInstalled : Bool := false
  stats : List (String × Json.Value) := []

namespace LocalContext

def recordStat (context : LocalContext) (key : String) (value : Json.Value) : LocalContext :=
  { context with stats := Json.insertMember key value context.stats }

def statsValue (context : LocalContext) : Json.Value :=
  .object context.stats

def install (context : LocalContext) : LocalContext :=
  { context with sinkInstalled := true }

/-- Release the failure sink. -/
def detach (context : LocalContext) : LocalContext :=
  { context with sinkInstalled := false }

def markClosed (context : LocalContext) : LocalContext :=
  { context with closed := true }

end LocalContext

/-- A context with its pause controls and the threads paused there. -/
structure PausableContext where
  context : LocalContext := {}
  pauses : PauseMonitor := {}

namespace PausableContext

inductive Call where
  | recordStat (key : String) (value : Json.Value)
  | stats
  | install
  | pauses (event : PauseMonitor.Event)
  | close

inductive Outcome where
  | none
  | stats (value : Json.Value)
  | pauses (outcome : PauseMonitor.Outcome)

/-- The first close releases the sink and every paused thread; a later one does
nothing. -/
def perform (held : PausableContext) : Call → Outcome × PausableContext
  | .recordStat key value => (.none, { held with context := held.context.recordStat key value })
  | .stats => (.stats held.context.statsValue, held)
  | .install => (.none, { held with context := held.context.install })
  | .pauses event =>
      let (outcome, pauses) := held.pauses.call event
      (.pauses outcome, { held with pauses })
  | .close =>
      if held.context.closed then (.none, held)
      else
        let (outcome, pauses) := held.pauses.call .unpauses
        (.pauses outcome, { context := held.context.markClosed.detach, pauses })

/-- Calls made one after another, each with the context after it. -/
def performAll (held : PausableContext) : List Call → List (Outcome × PausableContext)
  | [] => []
  | call :: rest =>
      let (outcome, next) := held.perform call
      (outcome, next) :: next.performAll rest

end PausableContext

end FragmentLifecycle
