import FragmentLifecycle.Sync.Gate

/-!
# Pause controls

A pause site is armed for one pause.  A thread that reaches an armed site uses up
the arming and stays there until the next resumption.  Resumptions are counted in
64 bits, and a paused thread goes on when the count is no longer the one it saw.
`PauseMonitor` adds the threads that sleep on the condition variable of the
controls.
-/

namespace FragmentLifecycle

structure PauseControls where
  armed : List String := []
  paused : Nat := 0
  generation : UInt64 := 0
  deriving DecidableEq

namespace PauseControls

def arm (controls : PauseControls) (site : String) : PauseControls :=
  if site ∈ controls.armed then controls
  else { controls with armed := controls.armed ++ [site] }

/-- The start of a pause at an armed site, with the generation to wait out. -/
def enter? (controls : PauseControls) (site : String) : Option (UInt64 × PauseControls) :=
  if site ∈ controls.armed then
    some (controls.generation,
      { controls with
        armed := controls.armed.filter (· != site)
        paused := controls.paused + 1 })
  else none

/-- Whether a pause that began in `generation` is over. -/
def isOver (controls : PauseControls) (generation : UInt64) : Bool :=
  controls.generation != generation

def leave (controls : PauseControls) : PauseControls :=
  { controls with paused := controls.paused - 1 }

/-- Release every paused thread and disarm every site. -/
def unpauseAll (controls : PauseControls) : PauseControls :=
  { controls with armed := [], generation := controls.generation + 1 }

end PauseControls

/-- A call of a thread that stays at a site. -/
structure Pause where
  thread : ThreadId
  site : String
  generation : UInt64
  deriving DecidableEq

/-- Controls and their callers: pauses asleep, pauses signalled and not yet over,
and the calls that have returned with their results. -/
structure PauseMonitor where
  controls : PauseControls := {}
  asleep : List Pause := []
  signalled : List Pause := []
  returned : List (ThreadId × Bool) := []
  deriving DecidableEq

namespace PauseMonitor

inductive Event where
  | arms (site : String)
  | reaches (thread : ThreadId) (site : String)
  | unpauses
  | wakes (thread : ThreadId)
  deriving DecidableEq

def find? (monitor : PauseMonitor) (thread : ThreadId) : Option Pause :=
  (monitor.asleep ++ monitor.signalled).find? fun pause => pause.thread = thread

/-- One critical section of a caller.  `wakes` is a signalled or spurious wake-up
of a sleeping thread; of any other thread it changes nothing. -/
def step (monitor : PauseMonitor) : Event → PauseMonitor
  | .arms site => { monitor with controls := monitor.controls.arm site }
  | .reaches thread site =>
      match monitor.controls.enter? site with
      | none => { monitor with returned := monitor.returned ++ [(thread, false)] }
      | some (generation, controls) =>
          { monitor with
            controls
            asleep := monitor.asleep ++ [⟨thread, site, generation⟩] }
  | .unpauses =>
      { monitor with
        controls := monitor.controls.unpauseAll
        asleep := []
        signalled := monitor.signalled ++ monitor.asleep }
  | .wakes thread =>
      match monitor.find? thread with
      | none => monitor
      | some pause =>
          let asleep := monitor.asleep.filter fun other => other.thread != thread
          let signalled := monitor.signalled.filter fun other => other.thread != thread
          if monitor.controls.isOver pause.generation then
            { controls := monitor.controls.leave
              asleep, signalled
              returned := monitor.returned ++ [(thread, true)] }
          else { monitor with asleep := asleep ++ [pause], signalled }

/-- Every signalled thread wakes up. -/
def settle (monitor : PauseMonitor) : PauseMonitor :=
  monitor.signalled.foldl (fun current pause => current.step (.wakes pause.thread)) monitor

inductive Outcome where
  | none
  | returned (value : Bool)
  | paused
  | released (sites : List (String × Bool))
  deriving DecidableEq

/-- The sites of the pauses that are over in `later`, in the order in which the pauses
began, with what the calls returned. -/
def releasedSince (earlier later : PauseMonitor) : List (String × Bool) :=
  let ended := later.returned.drop earlier.returned.length
  (earlier.asleep ++ earlier.signalled).filterMap fun pause =>
    (ended.lookup pause.thread).map fun value => (pause.site, value)

/-- A call from outside, after which every signalled thread wakes up. -/
def call (monitor : PauseMonitor) (event : Event) : Outcome × PauseMonitor :=
  let next := (monitor.step event).settle
  let outcome :=
    match event with
    | .arms _ => .none
    | .reaches thread _ =>
        match next.returned.lookup thread with
        | some value => .returned value
        | Option.none => .paused
    | .unpauses | .wakes _ => .released (monitor.releasedSince next)
  (outcome, next)

/-- Calls made one after another, each with the controls after it. -/
def callAll (monitor : PauseMonitor) : List Event → List (Outcome × PauseMonitor)
  | [] => []
  | event :: rest =>
      let (outcome, next) := monitor.call event
      (outcome, next) :: next.callAll rest

end PauseMonitor

end FragmentLifecycle
