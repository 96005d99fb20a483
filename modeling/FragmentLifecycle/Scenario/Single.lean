import FragmentLifecycle.Scenario.Observation

/-!
# One executor under a script of operations

Operations are made one after another.  After each of them the system comes to
rest, and what has happened since the operation before is observed.  A call made
without waiting for it stays pending until it ends in some later operation; once the
run is over there is nothing left that it could wait for, so the script ends there.
-/

namespace FragmentLifecycle.Single

inductive Operation where
  | start
  | act (action : Action)
  | launch (action : Action)
  | drop

/-- Whether the script goes on only after the operation has returned. -/
def Operation.isAwaited : Operation → Bool
  | .act _ => true
  | _ => false

/-- An operation's result and what was observed after it. -/
structure Step where
  result : CallResult
  observation : Observation
  resolved : List (Action × CallResult)
  notices : List Notice

structure Play where
  system : System
  pending : List (ThreadId × Action) := []

/-- Whether all calls have returned that cannot wait for the run. -/
def Play.isAtRest (play : Play) : Bool :=
  play.pending.isEmpty || !(play.system.workerStatus 0).isOver

/-- Give up the executor.  It is gone unless some call is still in progress. -/
def release (system : System) : Bool × System :=
  if system.threads.all Thread.isOver then
    (true, { system with
      world := system.world.modify 0 fun executor => { executor with released := true } })
  else (false, system)

/-- The result of an operation, the system after it, and the call it left pending. -/
def perform (system : System) :
    Operation → CallResult × System × Option (ThreadId × Action)
  | .start => (.answered .none, (system.callAndSettle (.act 0 .run)).2, none)
  | .act action =>
      let (thread, next) := system.callAndSettle (.act 0 action)
      (next.callResult thread, next, none)
  | .launch action =>
      let (thread, next) := system.callAndSettle (.act 0 action)
      let result := next.callResult thread
      (result, next, if result.isPending then some (thread, action) else none)
  | .drop =>
      let (gone, next) := release system
      (.answered (.flag gone), next, none)

def step (play : Play) (operation : Operation) : Step × Play :=
  let seen := (play.system.executor 0).journal.length
  let noted := play.system.world.notices.length
  let (result, system, launched) := perform play.system operation
  let ended := play.pending.filter fun call => !(system.callResult call.1).isPending
  let waiting := play.pending.filter fun call => (system.callResult call.1).isPending
  ({ result
     observation := system.observeRun 0 seen
     resolved := ended.map fun call => (call.2, system.callResult call.1)
     notices := system.world.notices.drop noted },
    { system, pending := waiting ++ launched.toList })

def steps (play : Play) : List Operation → Except Unrest (List Step)
  | [] => .ok []
  | operation :: rest => do
      let (observed, next) := step play operation
      if operation.isAwaited && observed.result.isPending || !next.isAtRest then throw .callers
      return observed :: (← steps next rest)

/-- Play operations on a new executor of `fragment`. -/
def play (fragment : Fragment) (operations : List Operation) : Except Unrest (List Step) :=
  steps { system := .ofFragment fragment } operations

/-- How a process ends that only runs `fragment`: by the handler of an exhausted
heap, or normally, with what was observed of the run. -/
inductive ProcessEnd where
  | exited (status : Nat) (errorText : String)
  | returned (observation : Observation)

/-- A parent process sees the low 8 bits of an exit code. -/
def exitStatus (code : Int) : Nat :=
  (code % 256).toNat

def runProcess (fragment : Fragment) : ProcessEnd :=
  let (_, system) := (System.ofFragment fragment).callAndSettle (.act 0 .run)
  match system.world.exit with
  | some exit => .exited (exitStatus exit.code) exit.errorText
  | none => .returned (system.observeRun 0 0)

end FragmentLifecycle.Single
