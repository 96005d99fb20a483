import FragmentLifecycle.Execution.Step

/-!
# Systems

A system is the shared state and its threads.  It moves when a thread takes a step,
when the environment makes a call on a new thread, or when a call that waits for a
slot or for idleness is given up.  `Reachable` is every system that such moves lead
to, in any order.
-/

namespace FragmentLifecycle

/-- A thread: its frames, the innermost first, what it does next, and the executor
that it was started for. -/
structure Thread where
  frames : List Frame
  signal : Signal := .go
  hosts : Option ExecutorId := none

namespace Thread

def holds (thread : Thread) (lock : Lock) : Bool :=
  thread.frames.any fun frame => frame.holds lock

def isOver (thread : Thread) : Bool :=
  thread.frames.isEmpty

end Thread

/-- A call from outside, on a thread of its own. -/
inductive Command where
  | act (id : ExecutorId) (action : Action)
  | depart (nodes : NodeSet)
  | start (id : ExecutorId) (refusal : Option String)
  | host (call : HostCall)

def Command.frame : Command → Frame
  | .act id action => .perform id action .start
  | .depart nodes => .depart nodes .start
  | .start id refusal => .start id refusal .requestSlot
  | .host call => .host call .start

structure System where
  world : World
  threads : List Thread := []

namespace System

def executor (system : System) (id : ExecutorId) : Executor :=
  system.world.executors id

def holds (system : System) (thread : ThreadId) (lock : Lock) : Bool :=
  match system.threads[thread]? with
  | none => false
  | some stack => stack.holds lock

/-- Whether any thread but `thread` holds `lock`. -/
def heldElsewhere (system : System) (thread : ThreadId) (lock : Lock) : Bool :=
  (List.range system.threads.length).any fun other =>
    other != thread && system.holds other lock

def held (system : System) (lock : Lock) : Bool :=
  system.threads.any fun stack => stack.holds lock

def view (system : System) (thread : ThreadId) : LockView :=
  { setupHeldElsewhere := fun id => system.heldElsewhere thread (.setup id)
    closingHeld := fun id => system.held (.closing id) }

/-- The stack after a step of its innermost frame, and the thread started by it. -/
def applyNext (stack : Thread) (rest : List Frame) : Next → Thread × Option Thread
  | .goto frame => ({ stack with frames := frame :: rest, signal := .go }, none)
  | .call frame callee => ({ stack with frames := callee :: frame :: rest, signal := .go }, none)
  | .reply reply => ({ stack with frames := rest, signal := .replied reply }, none)
  | .raise payload => ({ stack with frames := rest, signal := .raised payload }, none)
  | .fork reply frame hosts =>
      ({ stack with frames := rest, signal := .replied reply },
        some { frames := [frame], hosts := some hosts })

/-- One step of a thread; none where it has ended, waits, or the process has exited. -/
def step (system : System) (thread : ThreadId) : Option System :=
  match system.world.exit with
  | some _ => none
  | none => do
      let stack ← system.threads[thread]?
      match stack.frames with
      | [] => none
      | frame :: rest => do
          let (world, next) ← frame.step system.world (system.view thread) thread stack.signal
          let (stack, forked) := applyNext stack rest next
          some { world, threads := system.threads.set thread stack ++ forked.toList }

/-- Make a call from outside on a new thread. -/
def call (system : System) (command : Command) : System :=
  { system with threads := system.threads ++ [{ frames := [command.frame] }] }

/-- Give up a call that waits for a slot or for idleness. -/
def abandon (system : System) (thread : ThreadId) : Option System := do
  let stack ← system.threads[thread]?
  let threads := system.threads.set thread { stack with frames := [] }
  match stack.frames with
  | [.start _ _ .awaitSlot] =>
      let slots := system.world.host.slots.withdraw thread
      some { world := system.world.setHost { system.world.host with slots }, threads }
  | [.host .waitIdle (.asleep _)] => some { system with threads }
  | _ => none

inductive Move where
  | step (thread : ThreadId)
  | call (command : Command)
  | abandon (thread : ThreadId)

def move (system : System) : Move → Option System
  | .step thread => system.step thread
  | .call command => some (system.call command)
  | .abandon thread => system.abandon thread

/-- The system after the given moves, if each of them is possible. -/
def moves (system : System) : List Move → Option System
  | [] => some system
  | first :: rest => (system.move first).bind fun next => next.moves rest

inductive Reachable (start : System) : System → Prop where
  | refl : Reachable start start
  | move {system next : System} (move : Move) :
      Reachable start system → system.move move = some next → Reachable start next

/-- A system with new executors of the given fragments and no threads. -/
def ofFragments (fragments : List Fragment) (host : Host) : System :=
  { world :=
      { executors := fun id => Executor.ofFragment ((fragments[id]?).getD .vacant)
        host } }

/-- A system with one executor and no slots for hosted fragments. -/
def ofFragment (fragment : Fragment) : System :=
  ofFragments [fragment] { slots := { free := 0 } }

end System

end FragmentLifecycle
