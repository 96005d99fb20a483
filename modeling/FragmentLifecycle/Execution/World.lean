import FragmentLifecycle.Cluster.Registry
import FragmentLifecycle.Execution.Executor
import FragmentLifecycle.Execution.Notice
import FragmentLifecycle.Sync.Slots

/-!
# Shared state

Everything that threads share: the executors, the listeners that watch for the
departure of a foreman, the table of hosted fragments, the principal and the park
token of every thread, and the notices.
-/

namespace FragmentLifecycle

/-- The identifier of a watch.  An executor adds one watch at most, so watches never use up
the words and plain numbers stand for them. -/
abbrev ListenerId := Nat

/-- Cancels an executor when its foreman departs. -/
structure Watch where
  executor : ExecutorId
  foreman : Node
  deriving DecidableEq

/-- Hosted fragments.  `idleSignals` counts how often the table became empty by the
end of a fragment. -/
structure Host where
  slots : Slots
  running : List (Handle × ExecutorId) := []
  idleSignals : Nat := 0
  deriving DecidableEq

namespace Host

def executor? (host : Host) (handle : Handle) : Option ExecutorId :=
  host.running.lookup handle

def insert (host : Host) (handle : Handle) (executor : ExecutorId) : Host :=
  { host with running := host.running ++ [(handle, executor)] }

def remove (host : Host) (handle : Handle) : Host :=
  { host with running := host.running.filter fun entry => entry.1 != handle }

/-- Entries in the order in which a walk meets them: those that `order` names, and then the
others. -/
def arrange : List Handle → List (Handle × ExecutorId) → List (Handle × ExecutorId)
  | [], entries => entries
  | handle :: order, entries =>
      (entries.filter fun entry => entry.1 == handle) ++
        arrange order (entries.filter fun entry => entry.1 != handle)

/-- The entries as a walk over the table meets them.  The table itself keeps no order, so
whoever walks over it brings one. -/
def listing (host : Host) (order : List Handle) : List (Handle × ExecutorId) :=
  arrange order host.running

theorem arrange_perm (order : List Handle) (entries : List (Handle × ExecutorId)) :
    (arrange order entries).Perm entries := by
  induction order generalizing entries with
  | nil => exact .refl entries
  | cons handle order ih =>
    exact ((ih _).append_left _).trans
      (List.filter_append_perm (fun entry => entry.1 == handle) entries)

theorem listing_perm (host : Host) (order : List Handle) :
    (host.listing order).Perm host.running :=
  arrange_perm order host.running

/-- The end of a fragment: its entry is removed, and an empty table is signalled. -/
def deregister (host : Host) (handle : Handle) : Host :=
  let host := host.remove handle
  if host.running.isEmpty then { host with idleSignals := host.idleSignals + 1 } else host

end Host

/-- The host with the slots that `settings` ask for, if there can be so many. -/
def Host.ofSettings? (settings : Settings) : Option Host :=
  (Slots.ofCount? settings.maxConcurrent).map fun slots => { slots }

structure ProcessExit where
  code : Int
  errorText : String
  deriving DecidableEq

structure World where
  executors : ExecutorId → Executor
  registry : Registry ListenerId Watch := { nextId := 0 }
  host : Host
  principals : ThreadId → Option Principal := fun _ => none
  tokens : ThreadId → Bool := fun _ => false
  notices : List Notice := []
  exit : Option ProcessExit := none

/-- `function` with another value at one argument. -/
def overwrite {α : Type} (function : Nat → α) (index : Nat) (value : α) : Nat → α :=
  fun other => if other = index then value else function other

theorem overwrite_self {α : Type} (function : Nat → α) (index : Nat) (value : α) :
    overwrite function index value index = value := by
  simp [overwrite]

theorem overwrite_of_ne {α : Type} (function : Nat → α) {index other : Nat} (value : α)
    (different : other ≠ index) : overwrite function index value other = function other := by
  simp [overwrite, different]

namespace World

def modify (world : World) (id : ExecutorId) (change : Executor → Executor) : World :=
  { world with executors := overwrite world.executors id (change (world.executors id)) }

def note (world : World) (notice : Notice) : World :=
  { world with notices := world.notices ++ [notice] }

def record (world : World) (id : ExecutorId) (thread : ThreadId) (entry : Entry) : World :=
  world.modify id fun executor => executor.record thread entry

def setPrincipal (world : World) (thread : ThreadId) (principal : Option Principal) : World :=
  { world with principals := overwrite world.principals thread principal }

def setToken (world : World) (thread : ThreadId) (token : Bool) : World :=
  { world with tokens := overwrite world.tokens thread token }

def setHost (world : World) (host : Host) : World :=
  { world with host }

/-- Wake the thread that executes the run, if there is one. -/
def wakeWorker (world : World) (id : ExecutorId) : World :=
  match (world.executors id).worker with
  | none => world
  | some thread => world.setToken thread true

/-- Decide on a request for a state and store the accepted one, in one step. -/
def request (world : World) (id : ExecutorId) (thread : ThreadId) (target : State) :
    Decision × World :=
  let executor := world.executors id
  let (decision, requested) := executor.request thread target
  let next :=
    (world.modify id fun _ => requested).note (.requested executor.handle executor.state target)
  match decision with
  | .ignore true => (decision, next.note (.ignored executor.handle executor.state target))
  | _ => (decision, next)

end World

end FragmentLifecycle
