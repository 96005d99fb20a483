import FragmentLifecycle.Proofs.Stack
import Mathlib.Algebra.Order.BigOperators.Group.List
import Mathlib.Algebra.Order.Group.Nat
import Mathlib.Algebra.GroupWithZero.Nat

/-!
# Reachable systems

The moves of a system as changes of the stacks of its threads, and the inductions over
them: facts about the stack of every thread (`System.ReachableUnder.stackwise`), about
every frame (`System.ReachableUnder.pervades`) and about a frame that has got a result
(`System.ReachableUnder.on_reply`), and sums over all threads
(`System.ReachableUnder.summed`).  A reachable system may be asked to use only some calls
from outside.
-/

namespace FragmentLifecycle

/-! ## Weights -/

/-- A weight on the frames of the lifecycle of `id`, and nothing on the others. -/
def within (id : ExecutorId) (weight : Frame → Nat) (frame : Frame) : Nat :=
  if frame.isCore id then weight frame else 0

section Within

variable (id : ExecutorId) (weight : Frame → Nat)

@[simp]
theorem within_run (listener : Option ListenerId) (point : RunPoint) :
    within id weight (.run id listener point) = weight (.run id listener point) := by
  simp [within, Frame.isCore]

@[simp]
theorem within_cancel (point : CancelPoint) :
    within id weight (.cancel id point) = weight (.cancel id point) := by
  simp [within, Frame.isCore]

@[simp]
theorem within_closeResources (point : ClosePoint) :
    within id weight (.closeResources id point) = weight (.closeResources id point) := by
  simp [within, Frame.isCore]

@[simp]
theorem within_fail (cause : Fault) (point : FailPoint) :
    within id weight (.fail id cause point) = weight (.fail id cause point) := by
  simp [within, Frame.isCore]

@[simp]
theorem within_call (call : Call) (point : CallPoint) :
    within id weight (.call id call point) = weight (.call id call point) := by
  simp [within, Frame.isCore]

theorem within_outside {frame : Frame} (houtside : frame.isCore id = false) :
    within id weight frame = 0 := by
  simp [within, houtside]

theorem within_pos {frame : Frame} (hweighs : 0 < within id weight frame) :
    frame.isCore id = true ∧ 0 < weight frame := by
  by_cases hcore : frame.isCore id = true
  · rw [within, if_pos hcore] at hweighs
    exact ⟨hcore, hweighs⟩
  · rw [within_outside id weight (by simpa using hcore)] at hweighs
    cases hweighs

@[simp]
theorem within_perform (owner : ExecutorId) (action : Action) (point : PerformPoint) :
    within id weight (.perform owner action point) = 0 := rfl

@[simp]
theorem within_pause (owner : ExecutorId) (site : String) (point : PausePoint) :
    within id weight (.pause owner site point) = 0 := rfl

end Within

/-- A frame outside the lifecycle pushes nothing that weighs, where entry points weigh
nothing. -/
theorem Transition.sum_within_outside {view : LockView} {thread : ThreadId} {id : ExecutorId}
    {frame : Frame} {signal : Signal} {executor executor' : Executor} {next : Next}
    (htransition : Transition view thread id frame signal executor next executor')
    (houtside : frame.isCore id = false) (weight : Frame → Nat)
    (hentry : ∀ frame : Frame, frame.IsEntry → weight frame = 0) :
    (next.frames.map (within id weight)).sum = 0 := by
  obtain ⟨hframes, -⟩ := htransition.outside houtside
  refine List.sum_eq_zero fun value hvalue => ?_
  obtain ⟨pushed, hpushed, rfl⟩ := List.mem_map.mp hvalue
  by_cases hlifecycle : pushed.isCore id = true
  · rw [within, if_pos hlifecycle]
    exact hentry pushed (hframes pushed (List.mem_append_left _ hpushed) hlifecycle)
  · exact within_outside id weight (by simpa using hlifecycle)

/-! ## Moves -/

namespace System

/-- Whether a move makes no other call from outside than a permitted one. -/
def Move.Permitted (permitted : Command → Prop) : Move → Prop
  | .call command => permitted command
  | .step _ | .abandon _ => True

/-- The systems that lead from `start` by permitted calls, steps and withdrawals. -/
inductive ReachableUnder (permitted : Command → Prop) (start : System) : System → Prop where
  | refl : ReachableUnder permitted start start
  | move {system next : System} (move : Move) (hpermitted : move.Permitted permitted) :
      ReachableUnder permitted start system → system.move move = some next →
        ReachableUnder permitted start next

theorem Reachable.unrestricted {start system : System} (hreach : start.Reachable system) :
    start.ReachableUnder (fun _ => True) system := by
  induction hreach with
  | refl => exact .refl
  | move move _ hmove ih => exact .move move (by cases move <;> trivial) ih hmove

theorem ReachableUnder.reachable {permitted : Command → Prop} {start system : System}
    (hreach : start.ReachableUnder permitted system) : start.Reachable system := by
  induction hreach with
  | refl => exact .refl
  | move move _ _ hmove ih => exact .move move ih hmove

theorem ReachableUnder.trans {permitted : Command → Prop} {start system later : System}
    (hreach : start.ReachableUnder permitted system)
    (hlater : system.ReachableUnder permitted later) : start.ReachableUnder permitted later := by
  induction hlater with
  | refl => exact hreach
  | move move hpermitted _ hmove ih => exact .move move hpermitted ih hmove

theorem ReachableUnder.of_moves {permitted : Command → Prop} {start system after : System}
    {moves : List Move} (hreach : start.ReachableUnder permitted system)
    (hpermitted : ∀ move ∈ moves, move.Permitted permitted)
    (hmoves : system.moves moves = some after) : start.ReachableUnder permitted after := by
  induction moves generalizing system with
  | nil =>
    obtain rfl := Option.some.inj hmoves
    exact hreach
  | cons first rest ih =>
    obtain ⟨next, hfirst, hrest⟩ := Option.bind_eq_some_iff.mp hmoves
    exact ih (hreach.move first (hpermitted first List.mem_cons_self) hfirst)
      (fun move hmem => hpermitted move (List.mem_cons_of_mem _ hmem)) hrest

theorem Reachable.of_moves {start system after : System} {moves : List Move}
    (hreach : start.Reachable system) (hmoves : system.moves moves = some after) :
    start.Reachable after :=
  (hreach.unrestricted.of_moves (fun move _ => by cases move <;> trivial) hmoves).reachable

/-- A system that given moves lead to, with what is seen of it. -/
theorem exists_reachable_of_moves (permitted : Command → Prop) (start : System) {α : Type}
    (moves : List Move) (hpermitted : ∀ move ∈ moves, move.Permitted permitted)
    (observe : System → α) (value : α) (hmoves : (start.moves moves).map observe = some value) :
    ∃ system, start.ReachableUnder permitted system ∧ observe system = value := by
  obtain ⟨system, hsystem, hvalue⟩ := Option.map_eq_some_iff.mp hmoves
  exact ⟨system, ReachableUnder.refl.of_moves hpermitted hsystem, hvalue⟩

theorem exists_of_moves (start : System) {α : Type} (moves : List Move) (observe : System → α)
    (value : α) (hmoves : (start.moves moves).map observe = some value) :
    ∃ system, start.Reachable system ∧ observe system = value := by
  obtain ⟨system, hsystem, hvalue⟩ := Option.map_eq_some_iff.mp hmoves
  exact ⟨system, Reachable.refl.of_moves hsystem, hvalue⟩

/-! ## Stacks of a system -/

def stack (system : System) (thread : ThreadId) : Thread :=
  (system.threads[thread]?).getD { frames := [] }

def frames (system : System) (thread : ThreadId) : List Frame :=
  (system.stack thread).frames

def signal (system : System) (thread : ThreadId) : Signal :=
  (system.stack thread).signal

theorem frames_eq_getD (system : System) (thread : ThreadId) :
    system.frames thread = ((system.threads.map Thread.frames)[thread]?).getD [] := by
  rw [System.frames, stack, List.getElem?_map]
  cases system.threads[thread]? <;> rfl

/-- The sum of a weight over all threads. -/
def weigh (system : System) (weight : List Frame → Signal → Nat) : Nat :=
  (system.threads.map fun stack => weight stack.frames stack.signal).sum

/-- A step of `frame`, which stands on `rest` in the stack of `thread`. -/
structure Advance (system after : System) (thread : ThreadId) (frame : Frame)
    (rest : List Frame) (next : Next) : Prop where
  frames : system.frames thread = frame :: rest
  step : frame.step system.world (system.view thread) thread (system.signal thread) =
    some (after.world, next)
  own : after.frames thread = next.frames ++ rest
  ownSignal : after.signal thread = next.signal
  others : ∀ other, other ≠ thread →
    (after.frames other = system.frames other ∧ after.signal other = system.signal other) ∨
      (system.frames other = [] ∧ after.frames other = next.forked ∧ after.signal other = .go)
  weigh : ∀ weight : List Frame → Signal → Nat, weight [] .go = 0 →
    after.weigh weight + weight (frame :: rest) (system.signal thread) =
      system.weigh weight + weight (next.frames ++ rest) next.signal + weight next.forked .go

/-- A call from outside on a new thread, or the withdrawal of one: a lone frame comes
or goes, and no executor, no listener and no token changes. -/
structure Turnover (system after : System) (thread : ThreadId) (root : Frame) : Prop where
  executors : after.world.executors = system.world.executors
  registry : after.world.registry = system.world.registry
  tokens : after.world.tokens = system.world.tokens
  isRoot : root.role.isRoot = true
  own : (system.frames thread = [] ∧ after.frames thread = [root] ∧ after.signal thread = .go) ∨
    (system.frames thread = [root] ∧ after.frames thread = [])
  began : after.frames thread = [root] → ∃ command : Command, root = command.frame
  others : ∀ other, other ≠ thread →
    after.frames other = system.frames other ∧ after.signal other = system.signal other
  weigh : ∀ weight : List Frame → Signal → Nat, (∀ signal, weight [] signal = 0) →
    (∀ signal, weight [root] signal = 0) → after.weigh weight = system.weigh weight

theorem Turnover.executor_eq {system after : System} {thread : ThreadId} {root : Frame}
    (hturn : system.Turnover after thread root) (id : ExecutorId) :
    after.executor id = system.executor id :=
  congrFun hturn.executors id

private theorem sum_map_set {α : Type} (weight : α → Nat) (items : List α) (index : Nat)
    {old : α} (new : α) (hold : items[index]? = some old) :
    ((items.set index new).map weight).sum + weight old =
      (items.map weight).sum + weight new := by
  induction items generalizing index with
  | nil => simp at hold
  | cons first rest ih =>
    cases index with
    | zero =>
      obtain rfl : first = old := by simpa using hold
      simp only [List.set_cons_zero, List.map_cons, List.sum_cons]
      omega
    | succ index =>
      have htail := ih index (by simpa using hold)
      simp only [List.set_cons_succ, List.map_cons, List.sum_cons]
      omega

/-! ### Who holds a lock -/

theorem stack_holds_iff {system : System} {thread : ThreadId} {lock : Lock} :
    (system.stack thread).holds lock = true ↔
      ∃ frame ∈ system.frames thread, frame.holds lock = true :=
  List.any_eq_true

theorem holds_eq (system : System) (thread : ThreadId) (lock : Lock) :
    system.holds thread lock = (system.stack thread).holds lock := by
  simp only [System.holds, stack]
  cases system.threads[thread]? <;> rfl

theorem held_iff {system : System} {lock : Lock} : system.held lock = true ↔
    ∃ thread, ∃ frame ∈ system.frames thread, frame.holds lock = true := by
  simp only [held, List.any_eq_true, ← stack_holds_iff]
  constructor
  · rintro ⟨stack, hmem, hholds⟩
    obtain ⟨thread, hthread⟩ := List.mem_iff_getElem?.mp hmem
    exact ⟨thread, by simpa [System.stack, hthread] using hholds⟩
  · rintro ⟨thread, hholds⟩
    cases hthread : system.threads[thread]? with
    | none => simp [stack, hthread, Thread.holds] at hholds
    | some found =>
      exact ⟨found, List.mem_of_getElem? hthread, by simpa [stack, hthread] using hholds⟩

theorem heldElsewhere_iff {system : System} {thread : ThreadId} {lock : Lock} :
    system.heldElsewhere thread lock = true ↔
      ∃ owner, owner ≠ thread ∧ ∃ frame ∈ system.frames owner, frame.holds lock = true := by
  simp only [heldElsewhere, List.any_eq_true, List.mem_range, Bool.and_eq_true, bne_iff_ne,
    holds_eq, ← stack_holds_iff]
  constructor
  · rintro ⟨owner, -, hother, hholds⟩
    exact ⟨owner, hother, hholds⟩
  · rintro ⟨owner, hother, hholds⟩
    refine ⟨owner, ?_, hother, hholds⟩
    by_contra hbeyond
    rw [stack, List.getElem?_eq_none (Nat.le_of_not_lt hbeyond)] at hholds
    cases hholds

/-! ## Moves as changes of stacks -/

section Replacing

variable {system after : System} {thread : ThreadId} {old new : Thread} {started : List Thread}

private theorem stack_eq (hold : system.threads[thread]? = some old) :
    system.stack thread = old := by
  simp [stack, hold]

private theorem stack_replaced (hold : system.threads[thread]? = some old)
    (hafter : after.threads = system.threads.set thread new ++ started) :
    after.stack thread = new := by
  obtain ⟨hlt, -⟩ := List.getElem?_eq_some_iff.mp hold
  simp [stack, hafter, List.getElem?_append, hlt]

private theorem stack_kept {other : ThreadId} (hother : other ≠ thread)
    (hafter : after.threads = system.threads.set thread new ++ started) :
    after.stack other = system.stack other ∨
      (system.stack other = { frames := [] } ∧ after.stack other ∈ started) := by
  simp only [stack, hafter, List.getElem?_append, List.length_set,
    List.getElem?_set_ne hother.symm]
  split
  · exact .inl rfl
  · rename_i hbeyond
    rw [List.getElem?_eq_none (Nat.le_of_not_lt hbeyond)]
    cases hstarted : started[other - system.threads.length]? with
    | none => exact .inl rfl
    | some stack => exact .inr ⟨rfl, List.mem_of_getElem? hstarted⟩

private theorem weigh_replaced (weight : List Frame → Signal → Nat)
    (hold : system.threads[thread]? = some old)
    (hafter : after.threads = system.threads.set thread new ++ started) :
    after.weigh weight + weight old.frames old.signal =
      system.weigh weight + weight new.frames new.signal +
        (started.map fun stack => weight stack.frames stack.signal).sum := by
  have hset := sum_map_set (fun stack : Thread => weight stack.frames stack.signal)
    system.threads thread new hold
  simp only [weigh, hafter, List.map_append, List.sum_append]
  omega

end Replacing

private theorem applyNext_fst (stack : Thread) (rest : List Frame) (next : Next) :
    (applyNext stack rest next).1.frames = next.frames ++ rest ∧
      (applyNext stack rest next).1.signal = next.signal := by
  cases next <;> exact ⟨rfl, rfl⟩

private theorem applyNext_snd (stack : Thread) (rest : List Frame) (next : Next) :
    ((applyNext stack rest next).2 = none ∧ next.forked = []) ∨
      ∃ frame hosts, (applyNext stack rest next).2 = some { frames := [frame], hosts } ∧
        next.forked = [frame] := by
  cases next with
  | fork reply frame hosts => exact .inr ⟨frame, some hosts, rfl, rfl⟩
  | goto | call | reply | raise => exact .inl ⟨rfl, rfl⟩

private theorem step_eq_some {system after : System} {thread : ThreadId}
    (hstep : system.step thread = some after) :
    ∃ stack frame rest next, system.threads[thread]? = some stack ∧
      stack.frames = frame :: rest ∧
      frame.step system.world (system.view thread) thread stack.signal =
        some (after.world, next) ∧
      after.threads = system.threads.set thread (applyNext stack rest next).1 ++
        (applyNext stack rest next).2.toList := by
  unfold step at hstep
  split at hstep
  · cases hstep
  · obtain ⟨stack, hstack, hstep⟩ := Option.bind_eq_some_iff.mp hstep
    split at hstep
    · cases hstep
    · rename_i frame rest hframes
      obtain ⟨⟨world, next⟩, hframe, hafter⟩ := Option.bind_eq_some_iff.mp hstep
      obtain rfl := Option.some.inj hafter
      exact ⟨stack, frame, rest, next, hstack, hframes, hframe, rfl⟩

/-- A step of a thread is a step of its innermost frame. -/
theorem advance_of_step {system after : System} {thread : ThreadId}
    (hstep : system.step thread = some after) :
    ∃ frame rest next, system.Advance after thread frame rest next := by
  obtain ⟨stack, frame, rest, next, hstack, hframes, hframe, hthreads⟩ := step_eq_some hstep
  have hold : system.stack thread = stack := stack_eq hstack
  have hnew := stack_replaced hstack hthreads
  obtain ⟨hown, hsignal⟩ := applyNext_fst stack rest next
  have hstarted := applyNext_snd stack rest next
  refine ⟨frame, rest, next, ?_, ?_, ?_, ?_, ?_, ?_⟩
  · rw [System.frames, hold, hframes]
  · rw [System.signal, hold, hframe]
  · rw [System.frames, hnew, hown]
  · rw [System.signal, hnew, hsignal]
  · intro other hother
    rcases stack_kept hother hthreads with hkept | ⟨hbefore, hmem⟩
    · exact .inl ⟨congrArg Thread.frames hkept, congrArg Thread.signal hkept⟩
    · obtain ⟨hnone, -⟩ | ⟨started, hosts, hsome, hforked⟩ := hstarted
      · simp [hnone] at hmem
      · rw [hsome, Option.toList_some, List.mem_singleton] at hmem
        rw [System.frames, System.signal, hmem, hforked]
        exact .inr ⟨congrArg Thread.frames hbefore, rfl, rfl⟩
  · intro weight hempty
    have hweigh := weigh_replaced weight hstack hthreads
    rw [hown, hsignal, hframes] at hweigh
    rw [System.signal, hold, hweigh]
    obtain ⟨hnone, hforked⟩ | ⟨started, hosts, hsome, hforked⟩ := hstarted
    · simp [hnone, hforked, hempty]
    · simp [hsome, hforked]

/-- The executor that a thread was started for is told once, when a step starts it; a
thread that has ended is never started again. -/
theorem stack_of_step {system after : System} {thread : ThreadId}
    (hstep : system.step thread = some after) :
    (after.stack thread).hosts = (system.stack thread).hosts ∧
      ∀ other, other ≠ thread → after.stack other = system.stack other ∨
        (system.stack other = { frames := [] } ∧ ∃ frame rest reply started hosts,
          system.Advance after thread frame rest (.fork reply started hosts) ∧
            after.stack other = { frames := [started], hosts := some hosts }) := by
  obtain ⟨stack, frame, rest, next, hstack, hframes, hframe, hthreads⟩ := step_eq_some hstep
  obtain ⟨moving, below, taken, hadvance⟩ := advance_of_step hstep
  have hold : system.stack thread = stack := stack_eq hstack
  obtain ⟨rfl, rfl⟩ : frame = moving ∧ rest = below := by
    simpa [System.frames, hold, hframes] using hadvance.frames
  obtain rfl : next = taken := by
    simpa [System.signal, hold, hframe] using hadvance.step
  constructor
  · rw [stack_replaced hstack hthreads, hold]
    cases next <;> rfl
  · intro other hother
    rcases stack_kept hother hthreads with hkept | ⟨hbefore, hmem⟩
    · exact .inl hkept
    · cases next with
      | fork reply started hosts =>
        exact .inr ⟨hbefore, frame, rest, reply, started, hosts, hadvance,
          List.mem_singleton.mp hmem⟩
      | goto | call | reply | raise => cases hmem

/-- The thread that a step starts comes after all others, which stay as they are. -/
theorem stack_of_fork {system after : System} {thread : ThreadId} {frame started : Frame}
    {rest : List Frame} {reply : Reply} {hosts : ExecutorId}
    (hstep : system.step thread = some after)
    (hadvance : system.Advance after thread frame rest (.fork reply started hosts)) :
    system.stack system.threads.length = { frames := [] } ∧
      after.stack system.threads.length = { frames := [started], hosts := some hosts } ∧
      ∀ other, other ≠ thread → other ≠ system.threads.length →
        after.stack other = system.stack other := by
  obtain ⟨stack, top, below, next, hstack, hframes, hframe, hthreads⟩ := step_eq_some hstep
  have hold : system.stack thread = stack := stack_eq hstack
  obtain ⟨rfl, rfl⟩ : top = frame ∧ below = rest := by
    simpa [System.frames, hold, hframes] using hadvance.frames
  obtain rfl : next = .fork reply started hosts := by
    simpa [System.signal, hold, hframe] using hadvance.step
  obtain ⟨hlt, -⟩ := List.getElem?_eq_some_iff.mp hstack
  refine ⟨by simp [System.stack], ?_, fun other hother hnew => ?_⟩
  · simp [System.stack, hthreads, applyNext]
  · rcases Nat.lt_or_gt_of_ne hnew with hbelow | habove
    · simp [System.stack, hthreads, List.getElem?_append, hbelow, hother.symm]
    · simp [System.stack, hthreads, applyNext, List.getElem?_append,
        Nat.not_lt.mpr (Nat.le_of_lt habove), Nat.sub_ne_zero_of_lt habove]

/-- A step that starts no thread leaves every other one as it is. -/
theorem Advance.same_of_unforked {system after : System} {thread : ThreadId} {frame : Frame}
    {rest : List Frame} {next : Next} (hadvance : system.Advance after thread frame rest next)
    (hstep : system.step thread = some after) (hforked : next.forked = []) {other : ThreadId}
    (hother : other ≠ thread) :
    after.frames other = system.frames other ∧ after.signal other = system.signal other := by
  rcases (stack_of_step hstep).2 other hother with
    hsame | ⟨-, top, below, reply, started, hosts, hfork, -⟩
  · exact ⟨congrArg Thread.frames hsame, congrArg Thread.signal hsame⟩
  · obtain ⟨rfl, rfl⟩ := List.cons.inj (hadvance.frames.symm.trans hfork.frames)
    obtain rfl : next = .fork reply started hosts := by
      simpa [hfork.step, eq_comm] using hadvance.step
    cases hforked

theorem exit_of_step {system after : System} {thread : ThreadId}
    (hstep : system.step thread = some after) : system.world.exit = none := by
  unfold step at hstep
  split at hstep
  · cases hstep
  · assumption

/-- A thread takes a step where its innermost frame can take one. -/
theorem exists_advance {system : System} {thread : ThreadId} {frame : Frame}
    {rest : List Frame} {next : Next} {world : World} (hexit : system.world.exit = none)
    (hframes : system.frames thread = frame :: rest)
    (hstep : frame.step system.world (system.view thread) thread (system.signal thread) =
      some (world, next)) :
    ∃ after, system.step thread = some after ∧ after.world = world ∧
      system.Advance after thread frame rest next := by
  obtain ⟨after, hafter⟩ : ∃ after, system.step thread = some after := by
    simp only [System.frames, System.signal, stack] at hframes hstep
    unfold step
    cases hthread : system.threads[thread]? with
    | none => simp [hthread] at hframes
    | some found =>
      rw [hthread, Option.getD_some] at hframes hstep
      simp [hexit, hframes, hstep]
  obtain ⟨moving, below, taken, hadvance⟩ := advance_of_step hafter
  obtain ⟨rfl, rfl⟩ : moving = frame ∧ below = rest := by
    simpa [hframes, eq_comm] using hadvance.frames
  obtain ⟨rfl, rfl⟩ : world = after.world ∧ next = taken := by
    simpa [hstep] using hadvance.step
  exact ⟨after, hafter, rfl, hadvance⟩

/-- A step starts as many threads as it forks. -/
theorem Advance.length_threads {system after : System} {thread : ThreadId} {frame : Frame}
    {rest : List Frame} {next : Next} (hadvance : system.Advance after thread frame rest next)
    (hstep : system.step thread = some after) :
    after.threads.length = system.threads.length + next.forked.length := by
  obtain ⟨stack, top, below, taken, hstack, hframes, hframe, hthreads⟩ := step_eq_some hstep
  have hold : system.stack thread = stack := stack_eq hstack
  obtain ⟨rfl, rfl⟩ : frame = top ∧ rest = below := by
    simpa [System.frames, hold, hframes, eq_comm] using hadvance.frames
  obtain rfl : taken = next := by
    simpa [System.signal, hold, hframe] using hadvance.step
  rw [hthreads, List.length_append, List.length_set]
  obtain ⟨hnone, hforked⟩ | ⟨started, hosts, hsome, hforked⟩ := applyNext_snd stack rest taken
  · simp [hnone, hforked]
  · simp [hsome, hforked]

/-- A thread takes no step where its innermost frame can take none. -/
theorem step_eq_none {system : System} {thread : ThreadId} {frame : Frame} {rest : List Frame}
    (hframes : system.frames thread = frame :: rest)
    (hstep : frame.step system.world (system.view thread) thread (system.signal thread) = none) :
    system.step thread = none := by
  by_contra hsome
  obtain ⟨after, hafter⟩ := Option.ne_none_iff_exists'.mp hsome
  obtain ⟨moving, below, taken, hadvance⟩ := advance_of_step hafter
  obtain ⟨rfl, rfl⟩ : moving = frame ∧ below = rest := by
    simpa [hframes, eq_comm] using hadvance.frames
  rw [hadvance.step] at hstep
  cases hstep

theorem turnover_of_call (system : System) (command : Command) :
    system.Turnover (system.call command) system.threads.length command.frame := by
  refine ⟨rfl, rfl, rfl, by cases command <;> rfl, .inl ?_, fun _ => ⟨command, rfl⟩, ?_, ?_⟩
  · simp [System.frames, System.signal, stack, call]
  · intro other hother
    have hstack : (system.call command).stack other = system.stack other := by
      rcases Nat.lt_or_gt_of_ne hother with hlt | hgt
      · simp [stack, call, List.getElem?_append_left hlt]
      · simp [stack, call, List.getElem?_append_right (Nat.le_of_lt hgt),
          List.getElem?_eq_none (Nat.le_of_lt hgt), Nat.sub_ne_zero_of_lt hgt]
    exact ⟨congrArg Thread.frames hstack, congrArg Thread.signal hstack⟩
  · intro weight _ hroot
    simp [System.weigh, call, hroot]

theorem turnover_of_abandon {system after : System} {thread : ThreadId}
    (hmove : system.abandon thread = some after) :
    ∃ root, system.Turnover after thread root ∧ after.frames thread = [] := by
  obtain ⟨stack, hstack, hmove⟩ := Option.bind_eq_some_iff.mp hmove
  have hafter : ∃ root, stack.frames = [root] ∧ root.role.isRoot = true ∧
      after.world.executors = system.world.executors ∧
      after.world.registry = system.world.registry ∧
      after.world.tokens = system.world.tokens ∧
      after.threads = system.threads.set thread { stack with frames := [] } := by
    dsimp only at hmove
    split at hmove
    · rename_i hframes
      obtain rfl := Option.some.inj hmove
      exact ⟨_, hframes, rfl, rfl, rfl, rfl, rfl⟩
    · rename_i hframes
      obtain rfl := Option.some.inj hmove
      exact ⟨_, hframes, rfl, rfl, rfl, rfl, rfl⟩
    · cases hmove
  obtain ⟨root, hframes, hroot, hexecutors, hregistry, htokens, hthreads⟩ := hafter
  rw [← List.append_nil (system.threads.set _ _)] at hthreads
  have hold := stack_eq hstack
  have hnew := stack_replaced hstack hthreads
  have hgone : after.frames thread = [] := by
    rw [System.frames, hnew]
  refine ⟨root, ⟨hexecutors, hregistry, htokens, hroot, .inr ⟨?_, hgone⟩, ?_, ?_, ?_⟩, hgone⟩
  · rw [System.frames, hold, hframes]
  · intro hstarted
    rw [hgone] at hstarted
    cases hstarted
  · intro other hother
    rcases stack_kept hother hthreads with hkept | ⟨-, hmem⟩
    · exact ⟨congrArg Thread.frames hkept, congrArg Thread.signal hkept⟩
    · simp at hmem
  · intro weight hempty hlone
    have hweigh := weigh_replaced weight hstack hthreads
    rw [hframes, hlone, hempty] at hweigh
    simpa using hweigh

/-- Every move is a step of an innermost frame or the turnover of a lone frame. -/
theorem advance_or_turnover {system after : System} {move : Move}
    (hmove : system.move move = some after) :
    (∃ thread frame rest next, system.Advance after thread frame rest next) ∨
      ∃ thread root, system.Turnover after thread root := by
  cases move with
  | step thread => exact .inl ⟨thread, advance_of_step hmove⟩
  | call command =>
    obtain rfl := Option.some.inj hmove
    exact .inr ⟨_, _, turnover_of_call system command⟩
  | abandon thread =>
    obtain ⟨root, hturn, -⟩ := turnover_of_abandon hmove
    exact .inr ⟨thread, root, hturn⟩

/-- A step keeps the role of an outermost frame, or hosts a fragment on a new thread. -/
theorem Advance.last_cases {system after : System} {thread owner : ThreadId}
    {frame last : Frame} {rest : List Frame} {next : Next}
    (hadvance : system.Advance after thread frame rest next)
    (hlast : (after.frames owner).getLast? = some last) :
    (∃ before, (system.frames owner).getLast? = some before ∧ before.role = last.role) ∨
      ∃ id handle, last.role = .hosted id handle := by
  have hlinks := Frame.step_links hadvance.step
  by_cases howner : owner = thread
  · subst howner
    have hframes := hadvance.frames
    rw [hadvance.own] at hlast
    left
    cases rest with
    | cons caller below =>
      rw [List.getLast?_append_of_ne_nil _ (List.cons_ne_nil _ _)] at hlast
      exact ⟨last, by rw [hframes, List.getLast?_cons_cons, hlast], rfl⟩
    | nil =>
      refine ⟨frame, by rw [hframes]; rfl, ?_⟩
      cases next with
      | goto resumed =>
        obtain rfl := Option.some.inj hlast
        exact hlinks.symm
      | call resumed called =>
        obtain rfl := Option.some.inj hlast
        exact hlinks.1.symm
      | reply | raise | fork => cases hlast
  · obtain ⟨hframes, -⟩ | ⟨-, hframes, -⟩ := hadvance.others owner howner
    · exact .inl ⟨last, hframes ▸ hlast, rfl⟩
    · rw [hframes] at hlast
      cases next with
      | fork reply started hosts =>
        obtain rfl : started = last := Option.some.inj hlast
        exact .inr hlinks
      | goto | call | reply | raise => cases hlast

theorem Turnover.last_cases {system after : System} {thread owner : ThreadId}
    {root last : Frame} (hturn : system.Turnover after thread root)
    (hlast : (after.frames owner).getLast? = some last) :
    (system.frames owner).getLast? = some last ∨ (last = root ∧ after.frames thread = [root]) := by
  by_cases howner : owner = thread
  · subst howner
    obtain ⟨-, hframes, -⟩ | ⟨-, hframes⟩ := hturn.own
    · rw [hframes] at hlast
      exact .inr ⟨(Option.some.inj hlast).symm, hframes⟩
    · rw [hframes] at hlast
      cases hlast
  · rw [(hturn.others owner howner).1] at hlast
    exact .inl hlast

/-- A lone frame that comes or goes belongs to no lifecycle. -/
theorem Turnover.frames_of_core {system after : System} {thread owner : ThreadId}
    {root frame : Frame} {id : ExecutorId} (hturn : system.Turnover after thread root)
    (hmem : frame ∈ after.frames owner) (hcore : frame.isCore id = true) :
    after.frames owner = system.frames owner := by
  by_cases howner : owner = thread
  · subst howner
    rcases hturn.own with ⟨-, hroot, -⟩ | ⟨-, hnone⟩
    · obtain rfl : frame = root := by simpa [hroot] using hmem
      rw [frame.outside_of_isRoot id hturn.isRoot] at hcore
      cases hcore
    · simp [hnone] at hmem
  · exact (hturn.others owner howner).1

/-- The frames of a lifecycle on another thread stay as they are. -/
theorem Advance.frames_of_core {system after : System} {thread owner : ThreadId}
    {frame other : Frame} {rest : List Frame} {next : Next} {id : ExecutorId}
    (hadvance : system.Advance after thread frame rest next) (howner : owner ≠ thread)
    (hmem : other ∈ after.frames owner) (hcore : other.isCore id = true) :
    after.frames owner = system.frames owner := by
  rcases hadvance.others owner howner with ⟨hsame, -⟩ | ⟨-, hforked, -⟩
  · exact hsame
  · have hlinks := Frame.step_links hadvance.step
    rw [hforked] at hmem
    cases next with
    | fork reply started hosts =>
      obtain rfl := List.mem_singleton.mp hmem
      rw [other.outside_of_isRoot id hlinks.isRoot] at hcore
      cases hcore
    | goto | call | reply | raise => cases hmem

/-- A step leaves every other thread as it is that has something to do. -/
theorem Advance.same_of_busy {system after : System} {thread owner : ThreadId} {frame : Frame}
    {rest : List Frame} {next : Next} (hadvance : system.Advance after thread frame rest next)
    (howner : owner ≠ thread) (hbusy : system.frames owner ≠ []) :
    after.frames owner = system.frames owner ∧ after.signal owner = system.signal owner :=
  (hadvance.others owner howner).resolve_right fun hforked => hbusy hforked.1

/-- A thread that has something to do stays as it is, or is given up. -/
theorem Turnover.same_of_busy {system after : System} {thread owner : ThreadId} {root : Frame}
    (hturn : system.Turnover after thread root) (hbusy : system.frames owner ≠ []) :
    (after.frames owner = system.frames owner ∧ after.signal owner = system.signal owner) ∨
      (system.frames owner = [root] ∧ after.frames owner = []) := by
  by_cases howner : owner = thread
  · subst howner
    exact .inr (hturn.own.resolve_left fun hbegun => hbusy hbegun.1)
  · exact .inl (hturn.others owner howner)

/-- A thread inside a lifecycle neither starts nor is given up. -/
theorem Turnover.same_of_core {system after : System} {thread owner : ThreadId}
    {root frame : Frame} {id : ExecutorId} (hturn : system.Turnover after thread root)
    (hmem : frame ∈ system.frames owner) (hcore : frame.isCore id = true) :
    after.frames owner = system.frames owner ∧ after.signal owner = system.signal owner := by
  refine (hturn.same_of_busy (List.ne_nil_of_mem hmem)).resolve_right ?_
  rintro ⟨hlone, -⟩
  obtain rfl : frame = root := by simpa [hlone] using hmem
  rw [frame.outside_of_isRoot id hturn.isRoot] at hcore
  cases hcore

/-- A thread inside a lifecycle goes on by its own steps only. -/
theorem move_cases_of_core {system after : System} {thread : ThreadId} {frame : Frame}
    {id : ExecutorId} {move : Move} (hmem : frame ∈ system.frames thread)
    (hcore : frame.isCore id = true) (hmove : system.move move = some after) :
    move = .step thread ∨
      (after.frames thread = system.frames thread ∧
        after.signal thread = system.signal thread) := by
  cases move with
  | step mover =>
    by_cases hthread : thread = mover
    · exact .inl (hthread ▸ rfl)
    · obtain ⟨frame, rest, next, hadvance⟩ := advance_of_step hmove
      exact .inr (hadvance.same_of_busy hthread (List.ne_nil_of_mem hmem))
  | call command =>
    obtain rfl := Option.some.inj hmove
    exact .inr ((turnover_of_call system command).same_of_core hmem hcore)
  | abandon mover =>
    obtain ⟨root, hturn, -⟩ := turnover_of_abandon hmove
    exact .inr (hturn.same_of_core hmem hcore)

/-- A frame in the stack of `owner` other than the one that takes a step, which stands
on `rest` in the stack of `thread`. -/
def Beside (system : System) (thread : ThreadId) (rest : List Frame) (owner : ThreadId)
    (frame : Frame) : Prop :=
  (owner = thread ∧ frame ∈ rest) ∨ (owner ≠ thread ∧ frame ∈ system.frames owner)

/-- A frame of a lifecycle was pushed by the step, or was there beside the one that took
it. -/
theorem Advance.mem_cases {system after : System} {thread owner : ThreadId}
    {frame other : Frame} {rest : List Frame} {next : Next} {id : ExecutorId}
    (hadvance : system.Advance after thread frame rest next)
    (hmem : other ∈ after.frames owner) (hcore : other.isCore id = true) :
    (owner = thread ∧ other ∈ next.frames) ∨ system.Beside thread rest owner other := by
  by_cases howner : owner = thread
  · subst howner
    rw [hadvance.own] at hmem
    rcases List.mem_append.mp hmem with hpushed | hrest
    · exact .inl ⟨rfl, hpushed⟩
    · exact .inr (.inl ⟨rfl, hrest⟩)
  · have hsame := hadvance.frames_of_core howner hmem hcore
    exact .inr (.inr ⟨howner, hsame ▸ hmem⟩)

/-- A frame takes the step or stands beside the one that does. -/
theorem Advance.own_or_beside {system after : System} {thread owner : ThreadId}
    {frame other : Frame} {rest : List Frame} {next : Next}
    (hadvance : system.Advance after thread frame rest next)
    (hmem : other ∈ system.frames owner) :
    (owner = thread ∧ other = frame) ∨ system.Beside thread rest owner other := by
  by_cases howner : owner = thread
  · subst howner
    rw [hadvance.frames] at hmem
    exact (List.mem_cons.mp hmem).imp (fun hsame => ⟨rfl, hsame⟩) fun hrest => .inl ⟨rfl, hrest⟩
  · exact .inr (.inr ⟨howner, hmem⟩)

/-! ## Induction over moves -/

/-- A weight summed over all frames of all threads. -/
def total (system : System) (weight : Frame → Nat) : Nat :=
  system.weigh fun frames _ => (frames.map weight).sum

theorem weight_le_weigh (system : System) (thread : ThreadId)
    (weight : List Frame → Signal → Nat) (hempty : weight [] .go = 0) :
    weight (system.frames thread) (system.signal thread) ≤ system.weigh weight := by
  simp only [System.frames, System.signal, stack]
  cases hthread : system.threads[thread]? with
  | none => simp [hempty]
  | some stack =>
    exact List.le_sum_of_mem (List.mem_map.mpr ⟨stack, List.mem_of_getElem? hthread, rfl⟩)

section Induction

variable {fragments : List Fragment} {host : Host} {permitted : Command → Prop}
  {system : System}

/-- A fact about the stack and the signal of every thread. -/
theorem ReachableUnder.stackwise
    (holds : System → ThreadId → List Frame → Signal → Prop)
    (hempty : ∀ system thread signal, holds system thread [] signal)
    (hroot : ∀ system thread root, root.role.isRoot = true → holds system thread [root] .go)
    (hturn : ∀ {system after : System} {thread root}, system.Turnover after thread root →
      ∀ other frames signal, holds system other frames signal → holds after other frames signal)
    (hstep : ∀ {system after : System} {thread frame rest next},
      (ofFragments fragments host).ReachableUnder permitted system →
      system.Advance after thread frame rest next → next.Links frame.role →
      (∀ other, holds system other (system.frames other) (system.signal other)) →
      holds after thread (next.frames ++ rest) next.signal ∧
        ∀ other, other ≠ thread → holds after other (system.frames other) (system.signal other))
    (hreach : (ofFragments fragments host).ReachableUnder permitted system)
    (thread : ThreadId) : holds system thread (system.frames thread) (system.signal thread) := by
  induction hreach generalizing thread with
  | refl => exact hempty _ _ _
  | @move system after move _ hreach hmove ih =>
    obtain ⟨mover, frame, rest, next, hadvance⟩ | ⟨mover, root, hturnover⟩ :=
      advance_or_turnover hmove
    · have hlinks := Frame.step_links hadvance.step
      obtain ⟨hown, hothers⟩ := hstep hreach hadvance hlinks ih
      by_cases hthread : thread = mover
      · rw [hthread, hadvance.own, hadvance.ownSignal]
        exact hown
      · obtain ⟨hframes, hsignal⟩ | ⟨-, hframes, hsignal⟩ := hadvance.others thread hthread
        · rw [hframes, hsignal]
          exact hothers thread hthread
        · rw [hframes, hsignal]
          cases next with
          | fork reply started hosts => exact hroot _ _ started hlinks.isRoot
          | goto | call | reply | raise => exact hempty _ _ _
    · by_cases hthread : thread = mover
      · obtain ⟨-, hframes, hsignal⟩ | ⟨-, hframes⟩ := hturnover.own
        · rw [hthread, hframes, hsignal]
          exact hroot _ _ root hturnover.isRoot
        · rw [hthread, hframes]
          exact hempty _ _ _
      · obtain ⟨hframes, hsignal⟩ := hturnover.others thread hthread
        rw [hframes, hsignal]
        exact hturn hturnover thread _ _ (ih thread)

theorem ReachableUnder.linked
    (hreach : (ofFragments fragments host).ReachableUnder permitted system)
    (thread : ThreadId) : Linked (system.frames thread) := by
  refine hreach.stackwise (fun _ _ frames _ => Linked frames) (fun _ _ _ => trivial)
    (fun _ _ _ hroot => hroot) (fun _ _ _ _ hlinked => hlinked) ?_ thread
  intro system after thread frame rest next _ hadvance hlinks hlinked
  have hown := hlinked thread
  rw [hadvance.frames] at hown
  exact ⟨hown.next hlinks, fun other _ => hlinked other⟩

/-- What holds of the roles of permitted calls and of hosted fragments holds of the role
of every outermost frame. -/
theorem ReachableUnder.outermost (holds : Role → Prop)
    (hcommand : ∀ command, permitted command → holds command.frame.role)
    (hhosted : ∀ id handle, holds (.hosted id handle))
    (hreach : (ofFragments fragments host).ReachableUnder permitted system) (thread : ThreadId)
    {root : Frame} (hlast : (system.frames thread).getLast? = some root) : holds root.role := by
  induction hreach generalizing thread root with
  | refl => cases hlast
  | @move system after move hpermitted hreach hmove ih =>
    cases move with
    | call command =>
      obtain rfl := Option.some.inj hmove
      rcases (turnover_of_call system command).last_cases hlast with hbefore | ⟨rfl, -⟩
      · exact ih thread hbefore
      · exact hcommand command hpermitted
    | abandon mover =>
      obtain ⟨gone, hturn, hnone⟩ := turnover_of_abandon hmove
      rcases hturn.last_cases hlast with hbefore | ⟨-, hstarted⟩
      · exact ih thread hbefore
      · rw [hnone] at hstarted
        cases hstarted
    | step mover =>
      obtain ⟨frame, rest, next, hadvance⟩ := advance_of_step hmove
      rcases hadvance.last_cases hlast with ⟨before, hbefore, hrole⟩ | ⟨id, handle, hrole⟩
      · rw [← hrole]
        exact ih thread hbefore
      · rw [hrole]
        exact hhosted id handle

/-- A fact about a frame that has got a result: it is established when a frame that it
waits for ends, and kept while other threads move. -/
theorem ReachableUnder.on_reply (holds : System → ThreadId → Frame → Signal → Prop)
    (hturn : ∀ {system after : System} {thread root}, system.Turnover after thread root →
      ∀ owner caller signal, holds system owner caller signal → holds after owner caller signal)
    (hreturn : ∀ {system after : System} {thread frame caller rest next},
      (ofFragments fragments host).ReachableUnder permitted system →
      system.Advance after thread frame (caller :: rest) next →
      caller.Awaits frame.role → next.frames = [] →
      (system.signal thread ≠ .go → holds system thread frame (system.signal thread)) →
      holds after thread caller next.signal)
    (hkeep : ∀ {system after : System} {thread frame rest next},
      (ofFragments fragments host).ReachableUnder permitted system →
      system.Advance after thread frame rest next →
      ∀ owner caller signal, owner ≠ thread → signal ≠ .go →
        holds system owner caller signal → holds after owner caller signal)
    (hreach : (ofFragments fragments host).ReachableUnder permitted system) {thread : ThreadId}
    {caller : Frame} {rest : List Frame} (hframes : system.frames thread = caller :: rest)
    (hsignal : system.signal thread ≠ .go) :
    holds system thread caller (system.signal thread) := by
  refine hreach.stackwise (fun system thread frames signal => ∀ caller rest,
    frames = caller :: rest → signal ≠ .go → holds system thread caller signal)
    ?_ ?_ ?_ ?_ thread caller rest hframes hsignal
  · intro system thread signal caller rest hframes
    cases hframes
  · intro system thread root hroot caller rest hframes hsignal
    exact absurd rfl hsignal
  · intro system after thread root hturnover other frames signal hholds caller rest hframes hsignal
    exact hturn hturnover other caller signal (hholds caller rest hframes hsignal)
  · intro system after thread frame rest next hreach hadvance hlinks hholds
    constructor
    · intro caller below hframes hsignal
      have hnext : next.frames = [] := Next.frames_of_signal hsignal
      rw [hnext, List.nil_append] at hframes
      subst hframes
      have hlinked := hadvance.frames ▸ hreach.linked thread
      exact hreturn hreach hadvance hlinked.awaits hnext (hholds thread frame _ hadvance.frames)
    · intro other hother caller below hframes hsignal
      exact hkeep hreach hadvance other caller _ hother hsignal
        (hholds other caller below hframes hsignal)

/-- A thread gets results only where its innermost frame waits for one. -/
theorem ReachableUnder.signal_go
    (hreach : (ofFragments fragments host).ReachableUnder permitted system) {thread : ThreadId}
    {frame : Frame} {rest : List Frame} (hframes : system.frames thread = frame :: rest)
    (hidle : ∀ role, ¬ frame.Awaits role) : system.signal thread = .go := by
  by_contra hsignal
  obtain ⟨role, hawaits⟩ : ∃ role, frame.Awaits role := by
    refine hreach.on_reply (fun _ _ caller _ => ∃ role, caller.Awaits role) ?_ ?_ ?_ hframes hsignal
    · intro system after thread root _ owner caller signal hawaits
      exact hawaits
    · intro system after thread frame caller rest next _ _ hawaits _ _
      exact ⟨frame.role, hawaits⟩
    · intro system after thread frame rest next _ _ owner caller signal _ _ hawaits
      exact hawaits
  exact hidle role hawaits

/-- A fact about a frame and the one that called it: it holds when the call is made, is
handed on while the called frame moves, and is kept while other frames move, on other
threads or further in. -/
theorem ReachableUnder.on_call (holds : System → ThreadId → Frame → Frame → Prop)
    (hturn : ∀ {system after : System} {thread root}, system.Turnover after thread root →
      ∀ owner callee caller, holds system owner callee caller → holds after owner callee caller)
    (hcalled : ∀ {system after : System} {thread frame rest caller callee},
      (ofFragments fragments host).ReachableUnder permitted system →
      system.Advance after thread frame rest (.call caller callee) →
      holds after thread callee caller)
    (hmoved : ∀ {system after : System} {thread frame caller rest next},
      (ofFragments fragments host).ReachableUnder permitted system →
      system.Advance after thread frame (caller :: rest) next →
      holds system thread frame caller →
      ∀ callee, next.frames.getLast? = some callee → callee.role = frame.role →
        holds after thread callee caller)
    (hbeside : ∀ {system after : System} {thread frame rest next},
      (ofFragments fragments host).ReachableUnder permitted system →
      system.Advance after thread frame rest next →
      ∀ owner callee caller, system.Beside thread rest owner callee →
        system.Beside thread rest owner caller →
        holds system owner callee caller → holds after owner callee caller)
    (hreach : (ofFragments fragments host).ReachableUnder permitted system) {thread : ThreadId}
    {callee caller : Frame} (hpair : [callee, caller] <:+: system.frames thread) :
    holds system thread callee caller := by
  refine hreach.stackwise (fun system thread frames _ => ∀ callee caller,
    [callee, caller] <:+: frames → holds system thread callee caller) ?_ ?_ ?_ ?_ thread callee
    caller hpair
  · intro system thread signal callee caller hpair
    simp at hpair
  · intro system thread root _ callee caller hpair
    have hlength := hpair.length_le
    simp at hlength
  · intro system after thread root hturnover owner frames signal hholds callee caller hpair
    exact hturn hturnover owner callee caller (hholds callee caller hpair)
  · intro system after thread frame rest next hreach hadvance hlinks hholds
    have hbefore := hholds thread
    rw [hadvance.frames] at hbefore
    have hrest {callee caller : Frame} (hpair : [callee, caller] <:+: rest) :
        holds after thread callee caller := by
      refine hbeside hreach hadvance thread callee caller (.inl ⟨rfl, hpair.mem (by simp)⟩)
        (.inl ⟨rfl, hpair.mem (by simp)⟩) (hbefore callee caller ?_)
      exact hpair.trans (List.suffix_cons frame rest).isInfix
    have hresumed {resumed callee caller : Frame} (hlast : next.frames.getLast? = some resumed)
        (hrole : resumed.role = frame.role) (hpair : [callee, caller] <:+: resumed :: rest) :
        holds after thread callee caller := by
      rcases List.infix_cons_iff.mp hpair with hprefix | hinner
      · obtain ⟨rfl, below, hbelow⟩ := List.cons_prefix_cons.mp hprefix
        subst hbelow
        refine hmoved hreach hadvance (hbefore frame caller ?_) callee hlast hrole
        exact (List.prefix_append [frame, caller] below).isInfix
      · exact hrest hinner
    constructor
    · intro callee caller hpair
      cases next with
      | goto resumed => exact hresumed rfl hlinks hpair
      | call resumed called =>
        rcases List.infix_cons_iff.mp hpair with hprefix | hinner
        · obtain ⟨rfl, htail⟩ := List.cons_prefix_cons.mp hprefix
          obtain ⟨rfl, -⟩ := List.cons_prefix_cons.mp htail
          exact hcalled hreach hadvance
        · exact hresumed rfl hlinks.1 hinner
      | reply | raise | fork => exact hrest hpair
    · intro owner howner callee caller hpair
      exact hbeside hreach hadvance owner callee caller (.inr ⟨howner, hpair.mem (by simp)⟩)
        (.inr ⟨howner, hpair.mem (by simp)⟩) (hholds owner callee caller hpair)

/-- `on_reply` for a fact about one executor. -/
theorem ReachableUnder.on_return (id : ExecutorId)
    (holds : Executor → ThreadId → Frame → Signal → Prop)
    (hreturn : ∀ {system after : System} {thread frame caller rest next},
      (ofFragments fragments host).ReachableUnder permitted system →
      system.Advance after thread frame (caller :: rest) next →
      Transition (system.view thread) thread id frame (system.signal thread)
        (system.executor id) next (after.executor id) →
      caller.Awaits frame.role → next.frames = [] →
      (system.signal thread ≠ .go →
        holds (system.executor id) thread frame (system.signal thread)) →
      holds (after.executor id) thread caller next.signal)
    (hkeep : ∀ {system after : System} {thread frame rest next},
      (ofFragments fragments host).ReachableUnder permitted system →
      system.Advance after thread frame rest next →
      Transition (system.view thread) thread id frame (system.signal thread)
        (system.executor id) next (after.executor id) →
      ∀ owner caller signal, owner ≠ thread → signal ≠ .go →
        holds (system.executor id) owner caller signal →
        holds (after.executor id) owner caller signal)
    (hreach : (ofFragments fragments host).ReachableUnder permitted system) {thread : ThreadId}
    {caller : Frame} {rest : List Frame} (hframes : system.frames thread = caller :: rest)
    (hsignal : system.signal thread ≠ .go) :
    holds (system.executor id) thread caller (system.signal thread) := by
  refine hreach.on_reply (fun system => holds (system.executor id)) ?_ ?_ ?_ hframes hsignal
  · intro system after thread root hturn owner caller signal hholds
    rw [hturn.executor_eq]
    exact hholds
  · intro system after thread frame caller rest next hreach hadvance
    exact hreturn hreach hadvance (Frame.step_transition id hadvance.step)
  · intro system after thread frame rest next hreach hadvance
    exact hkeep hreach hadvance (Frame.step_transition id hadvance.step)

/-- A fact about the whole system that holds from a reachable system on. -/
theorem ReachableUnder.since (holds : System → Prop) {start : System}
    (hreach : (ofFragments fragments host).ReachableUnder permitted start)
    (hstart : holds start)
    (hturn : ∀ {system after : System} {thread root}, system.Turnover after thread root →
      holds system → holds after)
    (hstep : ∀ {system after : System} {thread frame rest next},
      (ofFragments fragments host).ReachableUnder permitted system →
      system.Advance after thread frame rest next → holds system → holds after)
    (hlater : start.ReachableUnder permitted system) : holds system := by
  induction hlater with
  | refl => exact hstart
  | @move system after move _ hlater hmove ih =>
    obtain ⟨thread, frame, rest, next, hadvance⟩ | ⟨thread, root, hturnover⟩ :=
      advance_or_turnover hmove
    · exact hstep (hreach.trans hlater) hadvance ih
    · exact hturn hturnover ih

/-- A fact about the whole system. -/
theorem ReachableUnder.invariant (holds : System → Prop)
    (hstart : holds (ofFragments fragments host))
    (hturn : ∀ {system after : System} {thread root}, system.Turnover after thread root →
      holds system → holds after)
    (hstep : ∀ {system after : System} {thread frame rest next},
      (ofFragments fragments host).ReachableUnder permitted system →
      system.Advance after thread frame rest next → holds system → holds after)
    (hreach : (ofFragments fragments host).ReachableUnder permitted system) : holds system :=
  ReachableUnder.since holds .refl hstart hturn hstep hreach

/-- A fact about one executor. -/
theorem ReachableUnder.always (id : ExecutorId) (holds : Executor → Prop)
    (hstart : ∀ fragment, holds (.ofFragment fragment))
    (hstep : ∀ {system after : System} {thread frame rest next},
      (ofFragments fragments host).ReachableUnder permitted system →
      system.Advance after thread frame rest next →
      Transition (system.view thread) thread id frame (system.signal thread)
        (system.executor id) next (after.executor id) →
      holds (system.executor id) → holds (after.executor id))
    (hreach : (ofFragments fragments host).ReachableUnder permitted system) :
    holds (system.executor id) := by
  refine hreach.invariant (fun system => holds (system.executor id)) (hstart _) ?_ ?_
  · intro system after thread root hturn hholds
    rw [hturn.executor_eq]
    exact hholds
  · intro system after thread frame rest next hreach hadvance
    exact hstep hreach hadvance (Frame.step_transition id hadvance.step)

/-- A fact about the sum of a weight over the stacks of all threads and a measure of one
executor: a step changes the two terms that belong to it. -/
theorem ReachableUnder.summed (id : ExecutorId) (measure : Executor → Nat)
    (weight : List Frame → Signal → Nat) (holds : Nat → Prop)
    (hempty : ∀ signal, weight [] signal = 0)
    (hroot : ∀ root signal, root.role.isRoot = true → weight [root] signal = 0)
    (hstart : ∀ fragment, holds (measure (.ofFragment fragment)))
    (hstep : ∀ {system after : System} {thread frame rest next},
      (ofFragments fragments host).ReachableUnder permitted system →
      system.Advance after thread frame rest next → next.Links frame.role →
      Transition (system.view thread) thread id frame (system.signal thread)
        (system.executor id) next (after.executor id) → ∀ others,
      holds (measure (system.executor id) + weight (frame :: rest) (system.signal thread) +
        others) →
      holds (measure (after.executor id) + weight (next.frames ++ rest) next.signal + others))
    (hreach : (ofFragments fragments host).ReachableUnder permitted system) :
    holds (measure (system.executor id) + system.weigh weight) := by
  induction hreach with
  | refl => exact hstart _
  | @move system after move _ hreach hmove ih =>
    obtain ⟨thread, frame, rest, next, hadvance⟩ | ⟨thread, root, hturn⟩ :=
      advance_or_turnover hmove
    · have hlinks := Frame.step_links hadvance.step
      have hle := weight_le_weigh system thread weight (hempty .go)
      rw [hadvance.frames] at hle
      have hweigh := hadvance.weigh weight (hempty .go)
      have hforked : weight next.forked .go = 0 := by
        cases next with
        | fork reply started hosts => exact hroot started .go hlinks.isRoot
        | goto | call | reply | raise => exact hempty .go
      have hlocal := hstep hreach hadvance hlinks (Frame.step_transition id hadvance.step)
        (system.weigh weight - weight (frame :: rest) (system.signal thread))
        ((congrArg holds (by omega)).mp ih)
      exact (congrArg holds (by omega)).mp hlocal
    · rw [hturn.executor_eq, hturn.weigh weight hempty fun signal => hroot root signal hturn.isRoot]
      exact ih

/-- A fact about the sum of a weight over the frames of the lifecycle of `id` and a
measure of this executor.  Only the steps of these frames have to be looked at; `side`
is what is known of the frame that moves. -/
theorem ReachableUnder.summed_within (id : ExecutorId) (measure : Executor → Nat)
    (weight : Frame → Nat) (holds : Nat → Prop) (side : ThreadId → Frame → Executor → Prop)
    (hside : ∀ {system after : System} {thread frame rest next},
      (ofFragments fragments host).ReachableUnder permitted system →
      system.Advance after thread frame rest next → side thread frame (system.executor id))
    (hentry : ∀ frame : Frame, frame.IsEntry → weight frame = 0)
    (hsame : ∀ {thread : ThreadId} {executor executor' : Executor},
      executor.Untouched thread executor' → measure executor' = measure executor)
    (hstart : ∀ fragment, holds (measure (.ofFragment fragment)))
    (hstep : ∀ {view thread frame signal executor next executor'},
      side thread frame executor → frame.isCore id = true →
      Transition view thread id frame signal executor next executor' → ∀ others,
      holds (measure executor + weight frame + others) →
      holds (measure executor' + (next.frames.map (within id weight)).sum + others))
    (hreach : (ofFragments fragments host).ReachableUnder permitted system) :
    holds (measure (system.executor id) + system.total (within id weight)) := by
  refine hreach.summed id measure _ holds (fun _ => rfl) (fun root _ hroot => ?_) hstart ?_
  · simp [within_outside id weight (root.outside_of_isRoot id hroot)]
  · intro system after thread frame rest next hreach hadvance _ htransition others hholds
    simp only [List.map_cons, List.sum_cons, List.map_append, List.sum_append] at hholds ⊢
    rw [← Nat.add_assoc, Nat.add_assoc _ (rest.map _).sum] at hholds ⊢
    by_cases hcore : frame.isCore id = true
    · rw [within, if_pos hcore] at hholds
      exact hstep (hside hreach hadvance) hcore htransition _ hholds
    · have houtside : frame.isCore id = false := by simpa using hcore
      obtain ⟨-, huntouched⟩ := htransition.outside houtside
      rw [htransition.sum_within_outside houtside weight hentry, hsame huntouched]
      rwa [within_outside id weight houtside] at hholds

/-- A fact about every frame of the lifecycle of `id`: it holds of the entry points, a
step of such a frame hands it on, and every step keeps it for the frames beside. -/
theorem ReachableUnder.pervades (id : ExecutorId)
    (holds : System → ThreadId → Frame → Prop)
    (hentry : ∀ system thread frame, frame.IsEntry → holds system thread frame)
    (hturn : ∀ {system after : System} {thread root}, system.Turnover after thread root →
      ∀ owner frame, holds system owner frame → holds after owner frame)
    (hown : ∀ {system after : System} {thread frame rest next},
      (ofFragments fragments host).ReachableUnder permitted system →
      system.Advance after thread frame rest next →
      Transition (system.view thread) thread id frame (system.signal thread)
        (system.executor id) next (after.executor id) →
      frame.isCore id = true → holds system thread frame →
      ∀ pushed ∈ next.frames, pushed.isCore id = true → holds after thread pushed)
    (hbeside : ∀ {system after : System} {thread frame rest next},
      (ofFragments fragments host).ReachableUnder permitted system →
      system.Advance after thread frame rest next →
      Transition (system.view thread) thread id frame (system.signal thread)
        (system.executor id) next (after.executor id) →
      ∀ owner other, system.Beside thread rest owner other → other.isCore id = true →
        holds system owner other → holds after owner other)
    (hreach : (ofFragments fragments host).ReachableUnder permitted system) {thread : ThreadId}
    {frame : Frame} (hmem : frame ∈ system.frames thread) (hcore : frame.isCore id = true) :
    holds system thread frame := by
  refine hreach.stackwise
    (fun system thread frames _ => ∀ frame ∈ frames, frame.isCore id = true →
      holds system thread frame) ?_ ?_ ?_ ?_ thread frame hmem hcore
  · simp
  · intro system thread root hroot frame hmem hcore
    obtain rfl := List.mem_singleton.mp hmem
    simp [frame.outside_of_isRoot id hroot] at hcore
  · intro system after thread root hturnover owner frames _ hholds frame hmem hcore
    exact hturn hturnover owner frame (hholds frame hmem hcore)
  · intro system after thread frame rest next hreach hadvance hlinks hholds
    have htransition := Frame.step_transition id hadvance.step
    have hframe := hholds thread frame (hadvance.frames ▸ List.mem_cons_self)
    constructor
    · intro pushed hpushed hlifecycle
      rcases List.mem_append.mp hpushed with hpushed | hrest
      · by_cases hcore : frame.isCore id = true
        · exact hown hreach hadvance htransition hcore (hframe hcore) pushed hpushed hlifecycle
        · obtain ⟨hframes, -⟩ := htransition.outside (by simpa using hcore)
          exact hentry _ _ _ (hframes pushed (List.mem_append_left _ hpushed) hlifecycle)
      · refine hbeside hreach hadvance htransition _ _ (.inl ⟨rfl, hrest⟩) hlifecycle ?_
        exact hholds thread pushed (hadvance.frames ▸ List.mem_cons_of_mem _ hrest) hlifecycle
    · intro other hother pushed hpushed hlifecycle
      exact hbeside hreach hadvance htransition _ _ (.inr ⟨hother, hpushed⟩) hlifecycle
        (hholds other pushed hpushed hlifecycle)

/-- The same for a fact that of the system concerns one executor only. -/
theorem ReachableUnder.everywhere (id : ExecutorId)
    (holds : Executor → ThreadId → Frame → Prop)
    (hentry : ∀ executor thread frame, frame.IsEntry → holds executor thread frame)
    (hown : ∀ {system after : System} {thread frame rest next},
      (ofFragments fragments host).ReachableUnder permitted system →
      system.Advance after thread frame rest next →
      Transition (system.view thread) thread id frame (system.signal thread)
        (system.executor id) next (after.executor id) →
      frame.isCore id = true → holds (system.executor id) thread frame →
      ∀ pushed ∈ next.frames, pushed.isCore id = true → holds (after.executor id) thread pushed)
    (hbeside : ∀ {system after : System} {thread frame rest next},
      (ofFragments fragments host).ReachableUnder permitted system →
      system.Advance after thread frame rest next →
      Transition (system.view thread) thread id frame (system.signal thread)
        (system.executor id) next (after.executor id) →
      ∀ owner other, system.Beside thread rest owner other → other.isCore id = true →
        holds (system.executor id) owner other → holds (after.executor id) owner other)
    (hreach : (ofFragments fragments host).ReachableUnder permitted system) {thread : ThreadId}
    {frame : Frame} (hmem : frame ∈ system.frames thread) (hcore : frame.isCore id = true) :
    holds (system.executor id) thread frame := by
  refine hreach.pervades id (fun system => holds (system.executor id)) (fun _ => hentry _) ?_
    hown hbeside hmem hcore
  intro system after thread root hturn owner frame hholds
  rw [hturn.executor_eq]
  exact hholds

end Induction

section Totals

variable {system after : System} {thread : ThreadId} {frame : Frame} {rest : List Frame}
  {next : Next}

theorem weight_le_total (weight : Frame → Nat) (hmem : frame ∈ system.frames thread) :
    weight frame ≤ system.total weight := by
  have hle := weight_le_weigh system thread
    (fun frames _ => (frames.map weight).sum) rfl
  exact (List.le_sum_of_mem (List.mem_map_of_mem hmem)).trans hle

theorem weigh_eq_zero (weight : List Frame → Signal → Nat)
    (hweight : ∀ thread, weight (system.frames thread) (system.signal thread) = 0) :
    system.weigh weight = 0 := by
  refine List.sum_eq_zero fun value hvalue => ?_
  obtain ⟨stack, hstack, rfl⟩ := List.mem_map.mp hvalue
  obtain ⟨thread, hthread⟩ := List.mem_iff_getElem?.mp hstack
  simpa [System.frames, System.signal, System.stack, hthread] using hweight thread

theorem total_eq_zero (weight : Frame → Nat)
    (hweight : ∀ thread, ∀ frame ∈ system.frames thread, weight frame = 0) :
    system.total weight = 0 := by
  refine weigh_eq_zero _ fun thread => List.sum_eq_zero fun value hvalue => ?_
  obtain ⟨frame, hframe, rfl⟩ := List.mem_map.mp hvalue
  exact hweight thread frame hframe

/-- What a step changes in the sum over the frames of one lifecycle. -/
theorem Advance.total_within (hadvance : system.Advance after thread frame rest next)
    (id : ExecutorId) (weight : Frame → Nat) :
    after.total (within id weight) + within id weight frame =
      system.total (within id weight) + (next.frames.map (within id weight)).sum := by
  have hweigh := hadvance.weigh (fun frames _ => (frames.map (within id weight)).sum) rfl
  have hforked : (next.forked.map (within id weight)).sum = 0 := by
    have hlinks := Frame.step_links hadvance.step
    cases next with
    | fork reply started hosts =>
      simp [within_outside id weight (started.outside_of_isRoot id hlinks.isRoot)]
    | goto | call | reply | raise => rfl
  simp only [List.map_cons, List.sum_cons, List.map_append, List.sum_append, hforked] at hweigh
  simp only [total]
  omega

/-- A step outside the lifecycle changes no total, where entry points weigh nothing. -/
theorem Advance.total_outside (hadvance : system.Advance after thread frame rest next)
    {id : ExecutorId} (houtside : frame.isCore id = false) (weight : Frame → Nat)
    (hentry : ∀ frame : Frame, frame.IsEntry → weight frame = 0) :
    after.total (within id weight) = system.total (within id weight) := by
  have hlaw := hadvance.total_within id weight
  have hpushed :=
    (Frame.step_transition id hadvance.step).sum_within_outside houtside weight hentry
  rwa [within_outside id weight houtside, hpushed] at hlaw

theorem Turnover.total_within {root : Frame} (hturn : system.Turnover after thread root)
    (id : ExecutorId) (weight : Frame → Nat) :
    after.total (within id weight) = system.total (within id weight) := by
  refine hturn.weigh _ (fun _ => rfl) fun _ => ?_
  simp [within_outside id weight (root.outside_of_isRoot id hturn.isRoot)]

theorem exists_of_total_pos (weight : Frame → Nat) (hpos : 0 < system.total weight) :
    ∃ thread, ∃ frame ∈ system.frames thread, 0 < weight frame := by
  by_contra hnone
  push Not at hnone
  have hzero : system.total weight = 0 :=
    total_eq_zero weight fun thread frame hmem => Nat.le_zero.mp (hnone thread frame hmem)
  omega

/-- Frames on different threads together weigh no more than all frames. -/
theorem add_le_total_of_ne (weight : Frame → Nat) {owner : ThreadId} {other : Frame}
    (hne : owner ≠ thread) (hmem : frame ∈ system.frames thread)
    (hother : other ∈ system.frames owner) :
    weight frame + weight other ≤ system.total weight := by
  have hstack {index : ThreadId} {found : Frame} (hfound : found ∈ system.frames index) :
      ∃ stack, system.threads[index]? = some stack ∧ found ∈ stack.frames := by
    simp only [System.frames, stack] at hfound
    cases hthread : system.threads[index]? with
    | none => simp [hthread] at hfound
    | some stack => exact ⟨stack, rfl, by simpa [hthread] using hfound⟩
  obtain ⟨mine, hmine, hframe⟩ := hstack hmem
  obtain ⟨theirs, htheirs, hfound⟩ := hstack hother
  have hset := sum_map_set (fun stack : Thread => (stack.frames.map weight).sum)
    system.threads thread { frames := [] } hmine
  have hothers : (theirs.frames.map weight).sum ≤
      ((system.threads.set thread { frames := [] }).map
        fun stack => (stack.frames.map weight).sum).sum := by
    refine List.le_sum_of_mem (List.mem_map.mpr ⟨theirs, ?_, rfl⟩)
    exact List.mem_of_getElem? (by rw [List.getElem?_set_ne hne.symm, htheirs])
  have hframeLe : weight frame ≤ (mine.frames.map weight).sum :=
    List.le_sum_of_mem (List.mem_map_of_mem hframe)
  have hotherLe : weight other ≤ (theirs.frames.map weight).sum :=
    List.le_sum_of_mem (List.mem_map_of_mem hfound)
  simp only [List.map_nil, List.sum_nil] at hset
  simp only [total, System.weigh]
  omega

theorem Advance.mem_of_beside (hadvance : system.Advance after thread frame rest next)
    {owner : ThreadId} {other : Frame} (hother : system.Beside thread rest owner other) :
    other ∈ system.frames owner := by
  rcases hother with ⟨rfl, hmem⟩ | ⟨-, hmem⟩
  · exact hadvance.frames ▸ List.mem_cons_of_mem _ hmem
  · exact hmem

/-- A frame beside the one that takes a step is still there. -/
theorem Advance.mem_of_beside_before (hadvance : system.Advance after thread frame rest next)
    {owner : ThreadId} {other : Frame} (hbeside : system.Beside thread rest owner other) :
    other ∈ after.frames owner := by
  rcases hbeside with ⟨rfl, hmem⟩ | ⟨hne, hmem⟩
  · rw [hadvance.own]
    exact List.mem_append_right _ hmem
  · rw [(hadvance.same_of_busy hne (List.ne_nil_of_mem hmem)).1]
    exact hmem

/-- The moving frame and any other frame together weigh no more than all frames. -/
theorem Advance.add_le_total (hadvance : system.Advance after thread frame rest next)
    (weight : Frame → Nat) {owner : ThreadId} {other : Frame}
    (hother : system.Beside thread rest owner other) :
    weight frame + weight other ≤ system.total weight := by
  rcases hother with ⟨-, hmem⟩ | ⟨hne, hmem⟩
  · have hstack := weight_le_weigh system thread
      (fun frames _ => (frames.map weight).sum) rfl
    have hrest : weight other ≤ (rest.map weight).sum :=
      List.le_sum_of_mem (List.mem_map_of_mem hmem)
    simp only [hadvance.frames, List.map_cons, List.sum_cons] at hstack
    simp only [total]
    omega
  · exact add_le_total_of_ne weight hne (hadvance.frames ▸ List.mem_cons_self) hmem

private theorem eq_of_sum_le_one (weight : Frame → Nat) {frames : List Frame}
    {first second : Frame} (hsum : (frames.map weight).sum ≤ 1) (hfirst : first ∈ frames)
    (hsecond : second ∈ frames) (hweighs : 0 < weight first) (hweighs' : 0 < weight second) :
    first = second := by
  induction frames with
  | nil => simp at hfirst
  | cons top below ih =>
    have hle {frame : Frame} (hmem : frame ∈ below) :
        weight frame ≤ (below.map weight).sum := List.le_sum_of_mem (List.mem_map_of_mem hmem)
    simp only [List.map_cons, List.sum_cons] at hsum
    rcases List.mem_cons.mp hfirst with rfl | hbelow <;>
      rcases List.mem_cons.mp hsecond with rfl | hbelow'
    · rfl
    · have hsecondLe := hle hbelow'
      omega
    · have hfirstLe := hle hbelow
      omega
    · exact ih (by omega) hbelow hbelow'

/-- Where all frames weigh one at most, only one of them weighs. -/
theorem eq_of_total_le_one (weight : Frame → Nat) (htotal : system.total weight ≤ 1)
    {owner : ThreadId} {other : Frame} (hmem : frame ∈ system.frames thread)
    (hother : other ∈ system.frames owner) (hweighs : 0 < weight frame)
    (hweighs' : 0 < weight other) : thread = owner ∧ frame = other := by
  by_cases howner : owner = thread
  · subst howner
    have hsum := weight_le_weigh system owner (fun frames _ => (frames.map weight).sum) rfl
    refine ⟨rfl, eq_of_sum_le_one weight ?_ hmem hother hweighs hweighs'⟩
    exact hsum.trans htotal
  · have hboth := add_le_total_of_ne weight howner hmem hother
    omega

end Totals

end System

end FragmentLifecycle
