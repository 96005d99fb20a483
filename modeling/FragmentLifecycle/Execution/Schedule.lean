import FragmentLifecycle.Execution.System

/-!
# Coming to rest

A system comes to rest when no thread can take a step.  Threads are run in turn,
each until it ends or waits.
-/

namespace FragmentLifecycle.System

/-- Run one thread until it ends or waits, for at most `fuel` steps; whether it moved
at all. -/
def runThread (thread : ThreadId) : Nat → System → Bool × System
  | 0, system => (false, system)
  | fuel + 1, system =>
      match system.step thread with
      | none => (false, system)
      | some next => (true, (runThread thread fuel next).2)

/-- Steps that a thread may take in one turn. -/
def turnFuel : Nat := 1000000

/-- One turn of every thread in `threads`; whether any of them moved. -/
def runTurn (system : System) : List ThreadId → Bool × System
  | [] => (false, system)
  | thread :: rest =>
      let (moved, next) := runThread thread turnFuel system
      let (others, last) := next.runTurn rest
      (moved || others, last)

/-- Turns of all threads until none moves, for at most `fuel` turns. -/
def settle : Nat → System → System
  | 0, system => system
  | fuel + 1, system =>
      match system.runTurn (List.range system.threads.length) with
      | (true, next) => settle fuel next
      | (false, next) => next

/-- Turns after which a script of calls is taken to be at rest. -/
def settleFuel : Nat := 100000

/-- Make a call on a new thread and let the system come to rest, the new thread first. -/
def callAndSettle (system : System) (command : Command) : ThreadId × System :=
  let thread := system.threads.length
  (thread, settle settleFuel ((system.call command).runTurn [thread]).2)

/-- How a thread has ended. -/
inductive Conclusion where
  | pending
  | replied (reply : Reply)
  | panicked (payload : Payload)

def conclusion (system : System) (thread : ThreadId) : Conclusion :=
  match system.threads[thread]? with
  | none => .pending
  | some stack =>
      match stack.frames, stack.signal with
      | [], .replied reply => .replied reply
      | [], .raised payload => .panicked payload
      | _, _ => .pending

/-- What the thread that executes a run is doing. -/
inductive WorkerStatus where
  | idle
  | blocked
  | paused
  | ended
  | panicked
  deriving DecidableEq

def WorkerStatus.name : WorkerStatus → String
  | .idle => "idle"
  | .blocked => "blocked"
  | .paused => "paused"
  | .ended => "ended"
  | .panicked => "panicked"

def WorkerStatus.isOver : WorkerStatus → Bool
  | .ended | .panicked => true
  | _ => false

/-- A thread that waits is paused at a pause site and blocked anywhere else. -/
def waitingStatus (system : System) (thread : ThreadId) : WorkerStatus :=
  match (system.threads[thread]?).bind fun stack => stack.frames.head? with
  | some (.pause _ _ (.paused _)) => .paused
  | _ => .blocked

def workerStatus (system : System) (id : ExecutorId) : WorkerStatus :=
  match (system.executor id).course with
  | .notStarted => .idle
  | .underWay thread => system.waitingStatus thread
  | .ended _ => .ended
  | .unwound _ => .panicked

/-- The last thread that was started for an executor. -/
def hostingThread? (system : System) (id : ExecutorId) : Option ThreadId :=
  ((List.range system.threads.length).filter fun thread =>
    match system.threads[thread]? with
    | some stack => stack.hosts = some id
    | none => false).getLast?

def hostedStatus (system : System) (id : ExecutorId) : WorkerStatus :=
  match system.hostingThread? id with
  | none => .idle
  | some thread =>
      match system.conclusion thread with
      | .pending => system.waitingStatus thread
      | .replied _ => .ended
      | .panicked _ => .panicked

end FragmentLifecycle.System
