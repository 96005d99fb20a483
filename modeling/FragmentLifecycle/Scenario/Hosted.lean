import FragmentLifecycle.Scenario.Observation

/-!
# Hosted fragments under a script of operations

Several named fragments share the slots of one host.  A start that finds no free
slot is queued, and goes on by itself when one is released.  An operation is over when
every other call has returned and each fragment that the host lists is parked or paused; a
listed fragment whose thread is gone or waits for another one never comes to rest.
-/

namespace FragmentLifecycle.Hosted

inductive Operation where
  | start (id : ExecutorId)
  | call (call : HostCall)
  | drain
  | depart (nodes : NodeSet)
  | register (nodes : NodeSet)
  | listeners
  | act (id : ExecutorId) (action : Action)

/-- Whether the script goes on only after the operation has returned. -/
def Operation.isAwaited : Operation → Bool
  | .start _ => false
  | _ => true

structure Scenario where
  fragments : List (String × Fragment)
  host : Host
  /-- Why the system refuses every new thread, if it does. -/
  refusal : Option String

structure Step where
  result : CallResult
  fragments : List (String × Observation)
  resolved : List (String × CallResult)
  queued : List String

structure Play where
  system : System
  queue : List (ThreadId × ExecutorId) := []

/-- Whether a thread is parked or paused, and not waiting for another one. -/
def isSettled (system : System) (thread : ThreadId) : Bool :=
  match (system.threads[thread]?).bind fun stack => stack.frames.head? with
  | some (.call _ _ .parked) | some (.pause _ _ (.paused _)) => true
  | _ => false

/-- Whether the thread of every fragment that the host lists is parked or paused. -/
def Play.isAtRest (play : Play) : Bool :=
  play.system.world.host.running.all fun entry =>
    (play.system.hostingThread? entry.2).any (isSettled play.system)

def Scenario.name (scenario : Scenario) (id : ExecutorId) : String :=
  ((scenario.fragments[id]?).map Prod.fst).getD ""

/-- Whether no fragment is running.  A call that would have to wait is given up. -/
def askIdle (system : System) : Bool × System :=
  let (thread, next) := system.callAndSettle (.host .waitIdle)
  if (next.callResult thread).isPending then (false, (next.abandon thread).getD next)
  else (true, next)

/-- The result of an operation, the system after it, and the start it left waiting. -/
def perform (scenario : Scenario) (system : System) :
    Operation → CallResult × System × Option (ThreadId × ExecutorId)
  | .start id =>
      let (thread, next) := system.callAndSettle (.start id scenario.refusal)
      let result := next.callResult thread
      (result, next, if result.isPending then some (thread, id) else none)
  | .call .waitIdle =>
      let (idle, next) := askIdle system
      (.answered (.flag idle), next, none)
  | .call call =>
      let (thread, next) := system.callAndSettle (.host call)
      (next.callResult thread, next, none)
  | .drain =>
      let (_, cancelled) := system.callAndSettle (.host (.cancelAll []))
      let (idle, next) := askIdle cancelled
      (.answered (.flag idle), next, none)
  | .depart nodes =>
      let (thread, next) := system.callAndSettle (.depart nodes)
      (next.callResult thread, next, none)
  | .register _ => (.answered .none, system, none)
  | .listeners => (.answered (.count system.world.registry.count), system, none)
  | .act id action =>
      let (thread, next) := system.callAndSettle (.act id action)
      (next.callResult thread, next, none)

/-- Named results in ascending order of the names. -/
def sortByName (results : List (String × CallResult)) : List (String × CallResult) :=
  results.mergeSort fun left right => !decide (right.1 < left.1)

def step (scenario : Scenario) (play : Play) (operation : Operation) : Step × Play :=
  let (result, system, queued) := perform scenario play.system operation
  let started := play.queue.filter fun call => !(system.callResult call.1).isPending
  let waiting :=
    (play.queue.filter fun call => (system.callResult call.1).isPending) ++ queued.toList
  ({ result
     fragments :=
       scenario.fragments.zipIdx.map fun fragment =>
         (fragment.1.1,
          system.observeHosted fragment.2
            (play.system.executor fragment.2).journal.length)
     resolved :=
       sortByName (started.map fun call => (scenario.name call.2, system.callResult call.1))
     queued := waiting.map fun call => scenario.name call.2 },
    { system, queue := waiting })

def steps (scenario : Scenario) (play : Play) : List Operation → Except Unrest (List Step)
  | [] => .ok []
  | operation :: rest => do
      let (observed, next) := step scenario play operation
      if operation.isAwaited && observed.result.isPending || !next.isAtRest then throw .manager
      return observed :: (← steps scenario next rest)

/-- Play operations on a host without running fragments. -/
def play (scenario : Scenario) (operations : List Operation) : Except Unrest (List Step) :=
  steps scenario
    { system := .ofFragments (scenario.fragments.map Prod.snd) scenario.host }
    operations

end FragmentLifecycle.Hosted
