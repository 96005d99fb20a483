import FragmentLifecycle.Execution.World

/-!
# Frames

A thread is a stack of frames, the innermost first.  A frame is an entry point in
progress, with the point it has reached.  A lock is held by a thread exactly as
long as one of its frames is at a point inside the section that the lock guards, so
leaving the section, by the end of the frame or by a panic, gives the lock back.
-/

namespace FragmentLifecycle

/-- How driving the operator tree ended. -/
inductive Ending where
  | completed
  | failed (fault : Fault)
  | panicked (payload : Payload)
  deriving DecidableEq

/-- The points of a run.  `previous` is the principal to restore. -/
inductive RunPoint where
  | start
  | enrol
  | lockSetup
  | inspect
  | building
  | keepTree
  | watch
  | announce
  | announcing
  | openGate
  | assumePrincipal
  | pausing (previous : Option Principal)
  | fetchTree (previous : Option Principal)
  | check (previous : Option Principal)
  | advancing (previous : Option Principal)
  | restorePrincipal (previous : Option Principal) (ending : Ending)
  | finish
  | settleFault (fault : Fault)
  | alarming (exhaustion : OutOfMemory)
  | recording
  | releaseWaiters
  | closing
  | unwatch
  | conclude
  | ensureCause
  | drain
  | reporting
  | retire
  deriving DecidableEq

inductive CancelPoint where
  | lockSetup
  | inspect
  | closing
  | waitGate
  | request
  | announcing
  | wake
  deriving DecidableEq

inductive ClosePoint where
  | lockClosing
  | takeTree
  | closingRoot
  | recording
  | closingContext
  deriving DecidableEq

inductive FailPoint where
  | append
  | request
  deriving DecidableEq

/-- The points of a collaborator's call.  A context is closed by three steps before
its plan is played; a parked thread waits for its token. -/
inductive CallPoint where
  | enter
  | markClosed
  | detach
  | resumeAll
  | play (actions : List Action)
  | acting (action : Action) (rest : List Action)
  | parking
  | parked

inductive PausePoint where
  | reach
  | paused (generation : UInt64)
  deriving DecidableEq

inductive FinishedPoint where
  | waitGate
  | fetchTree
  | forward
  | drop
  deriving DecidableEq

inductive DepartPoint where
  | start
  | snapshot
  | walk (watches : List Watch)
  | cancelling (rest : List Watch)
  deriving DecidableEq

inductive PerformPoint where
  | start
  | readStats
  | waiting
  deriving DecidableEq

/-- The points of a start: the slot, the entry in the table, the thread. -/
inductive StartPoint where
  | requestSlot
  | awaitSlot
  | register
  | reject
  | spawn
  | withdraw
  | cancelling
  deriving DecidableEq

inductive HostedPoint where
  | start
  | running
  | deregister
  | releaseSlot
  | releaseUnwound (payload : Payload)
  deriving DecidableEq

/-- A control message to the hosted fragments.  A message to all of them comes with the order
in which it meets them. -/
inductive HostCall where
  | cancel (handle : Handle)
  | unpause (handle : Handle)
  | finished (sender receiver : Handle)
  | status (handle : Handle)
  | running (order : List Handle)
  | cancelAll (order : List Handle)
  | waitIdle
  deriving DecidableEq

inductive HostPoint where
  | start
  | waiting
  | walk (rest : List ExecutorId)
  | listening (signals : Nat)
  | asleep (signals : Nat)
  deriving DecidableEq

inductive Frame where
  | run (id : ExecutorId) (listener : Option ListenerId) (point : RunPoint)
  | cancel (id : ExecutorId) (point : CancelPoint)
  | closeResources (id : ExecutorId) (point : ClosePoint)
  | fail (id : ExecutorId) (cause : Fault) (point : FailPoint)
  | call (id : ExecutorId) (call : Call) (point : CallPoint)
  | pause (id : ExecutorId) (site : String) (point : PausePoint)
  | finished (id : ExecutorId) (receiver : Handle) (point : FinishedPoint)
  | depart (nodes : NodeSet) (point : DepartPoint)
  | perform (id : ExecutorId) (action : Action) (point : PerformPoint)
  | start (id : ExecutorId) (refusal : Option String) (point : StartPoint)
  | hosted (id : ExecutorId) (handle : Handle) (point : HostedPoint)
  | host (call : HostCall) (point : HostPoint)

/-- What a frame gives back to the one that called it. -/
inductive Reply where
  | answer (answer : Answer)
  | progress (more : Bool)
  | failed (fault : Fault)

/-- What a thread does next: go on, take up a reply, or unwind. -/
inductive Signal where
  | go
  | replied (reply : Reply)
  | raised (payload : Payload)

inductive Lock where
  | setup (id : ExecutorId)
  | closing (id : ExecutorId)
  deriving DecidableEq

def RunPoint.holdsSetup : RunPoint → Bool
  | .inspect | .building | .keepTree | .watch | .announce | .announcing | .openGate => true
  | _ => false

def CancelPoint.holdsSetup : CancelPoint → Bool
  | .lockSetup => false
  | _ => true

def ClosePoint.holdsClosing : ClosePoint → Bool
  | .lockClosing => false
  | _ => true

def Frame.holds (lock : Lock) : Frame → Bool
  | .run id _ point => point.holdsSetup && lock = .setup id
  | .cancel id point => point.holdsSetup && lock = .setup id
  | .closeResources id point => point.holdsClosing && lock = .closing id
  | _ => false

end FragmentLifecycle
