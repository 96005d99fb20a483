import FragmentLifecycle.Proofs.Course
import FragmentLifecycle.Proofs.Growth
import FragmentLifecycle.Proofs.SharedState

/-!
# The watch on the foreman

A run registers its watch on the foreman when it has stored its tree, and removes it
after the close of the resources.  Identifiers are never given twice and nobody else
removes the watch, so it is registered all the time between
(`System.ReachableUnder.watches_of_run`).
-/

namespace FragmentLifecycle

/-! ## Registered listeners -/

namespace Registry

variable {α : Type} {registry : Registry ListenerId α}

/-- Identifiers were given before, and each one to one listener only. -/
structure Keyed (registry : Registry ListenerId α) : Prop where
  below : ∀ entry ∈ registry.listeners, entry.1 < registry.nextId
  unique : ∀ first ∈ registry.listeners, ∀ second ∈ registry.listeners,
    first.1 = second.1 → first = second

theorem keyed_empty : ({ nextId := 0 } : Registry ListenerId α).Keyed where
  below _ hmem := by cases hmem
  unique _ hmem := by cases hmem

theorem mem_add {listener : α} {entry : ListenerId × α} :
    entry ∈ (registry.add listener).2.listeners ↔
      entry ∈ registry.listeners ∨ entry = (registry.nextId, listener) := by
  simp [add]

theorem mem_remove {added : ListenerId} {entry : ListenerId × α} :
    entry ∈ (registry.remove added).2.listeners ↔
      entry ∈ registry.listeners ∧ entry.1 ≠ added := by
  simp [remove]

namespace Keyed

theorem add (hkeyed : registry.Keyed) (listener : α) : (registry.add listener).2.Keyed := by
  have hnew {entry : ListenerId × α} (hmem : entry ∈ registry.listeners) :
      entry.1 ≠ registry.nextId := Nat.ne_of_lt (hkeyed.below entry hmem)
  constructor
  · intro entry hmem
    rcases mem_add.mp hmem with hold | rfl
    · exact Nat.lt_succ_of_lt (hkeyed.below entry hold)
    · exact Nat.lt_succ_self _
  · intro first hfirst second hsecond hsame
    rcases mem_add.mp hfirst with hold | rfl <;> rcases mem_add.mp hsecond with hold' | rfl
    · exact hkeyed.unique first hold second hold' hsame
    · exact absurd hsame (hnew hold)
    · exact absurd hsame.symm (hnew hold')
    · rfl

theorem remove (hkeyed : registry.Keyed) (added : ListenerId) :
    (registry.remove added).2.Keyed := by
  constructor
  · intro entry hmem
    exact hkeyed.below entry (mem_remove.mp hmem).1
  · intro first hfirst second hsecond
    exact hkeyed.unique first (mem_remove.mp hfirst).1 second (mem_remove.mp hsecond).1

end Keyed

end Registry

/-! ## The steps that change the registry -/

section Registry

variable {world after : World} {view : LockView} {thread : ThreadId} {signal : Signal}
  {frame : Frame} {next : Next}

theorem Frame.keyed_registryAfter (frame : Frame) (hkeyed : world.registry.Keyed) :
    (frame.registryAfter world).Keyed := by
  fun_cases frame.registryAfter world with
  | case1 => exact hkeyed.add _
  | case2 => exact hkeyed.remove _
  | case3 => exact hkeyed

/-- A listener is removed by a run that has its identifier. -/
theorem Frame.mem_registryAfter (frame : Frame) {entry : ListenerId × Watch}
    (hmem : entry ∈ world.registry.listeners) :
    entry ∈ (frame.registryAfter world).listeners ∨
      ∃ owner, frame = .run owner (some entry.1) .unwatch := by
  fun_cases frame.registryAfter world with
  | case1 => exact .inl (Registry.mem_add.mpr (.inl hmem))
  | case2 owner added =>
    by_cases hsame : entry.1 = added
    · exact .inr ⟨owner, by rw [hsame]⟩
    · exact .inl (Registry.mem_remove.mpr ⟨hmem, hsame⟩)
  | case3 => exact .inl hmem

theorem Frame.step_watch {id : ExecutorId} {l : Option ListenerId}
    (hstep : (Frame.run id l .watch).step world view thread signal = some (after, next)) :
    next = .goto (.run id (some world.registry.nextId) .announce) := by
  cases signal <;> simp [Frame.step, stepRun, stepSetup, RunPoint.inSetup,
    RunPoint.holdsSetup, Registry.add] at hstep
  exact hstep.2.symm

end Registry

/-! ## The watch of a run -/

/-- The points of a run that has no watch yet. -/
def RunPoint.isUnlisted : RunPoint → Bool
  | .start | .enrol | .lockSetup | .inspect | .building | .keepTree | .watch => true
  | _ => false

/-- The points of a run that has no watch any more. -/
def RunPoint.isUnwatched : RunPoint → Bool
  | .conclude | .ensureCause | .drain | .reporting | .retire => true
  | _ => false

section Transitions

variable {view : LockView} {thread : ThreadId} {id : ExecutorId} {frame : Frame}
  {signal : Signal} {executor executor' : Executor} {next : Next}

/-- A run with an identifier has kept it, or has just been given it. -/
theorem Transition.listener_pushed
    (htransition : Transition view thread id frame signal executor next executor')
    (hcore : frame.isCore id = true) {added : ListenerId} {point : RunPoint}
    (hpushed : .run id (some added) point ∈ next.frames) :
    (∃ l, frame = .run id l .watch) ∨
      ∃ point', frame = .run id (some added) point' ∧ (point'.isUnlisted = false →
        point.isUnlisted = false ∧
          (point.isUnwatched = false → point'.isUnwatched = false ∧ point' ≠ .unwatch)) := by
  cases htransition
  case aside houtside _ _ => simp [houtside] at hcore
  all_goals simp at hpushed
  all_goals obtain ⟨rfl, rfl⟩ := hpushed
  case watched => exact .inl ⟨_, rfl⟩
  all_goals exact .inr ⟨_, rfl, by simp [RunPoint.isUnlisted, RunPoint.isUnwatched]⟩

end Transitions

namespace System

/-- The watch of an executor on its foreman. -/
def watch (system : System) (id : ExecutorId) : Watch :=
  ⟨id, (system.executor id).fragment.identity.foreman⟩

/-- The watch of an executor is registered under an identifier. -/
def Watches (system : System) (id : ExecutorId) (added : ListenerId) : Prop :=
  (added, system.watch id) ∈ system.world.registry.listeners

section Watches

variable {fragments : List Fragment} {host : Host} {permitted : Command → Prop}
  {system after : System} {id : ExecutorId} {thread : ThreadId} {frame : Frame}
  {rest : List Frame} {next : Next} {added : ListenerId}

theorem Advance.watch_eq (hadvance : system.Advance after thread frame rest next)
    (id : ExecutorId) : after.watch id = system.watch id := by
  have hfragment : (after.executor id).fragment = (system.executor id).fragment :=
    (Frame.step_transition id hadvance.step).grows.fragment
  rw [watch, hfragment, watch]

theorem Watches.turnover {root : Frame} (hwatches : system.Watches id added)
    (hturn : system.Turnover after thread root) : after.Watches id added := by
  rw [Watches, watch, hturn.registry, hturn.executor_eq]
  exact hwatches

theorem ReachableUnder.keyed
    (hreach : (ofFragments fragments host).ReachableUnder permitted system) :
    system.world.registry.Keyed := by
  refine hreach.invariant (fun system => system.world.registry.Keyed) Registry.keyed_empty ?_ ?_
  · intro system after thread root hturn hkeyed
    rw [hturn.registry]
    exact hkeyed
  · intro system after thread frame rest next _ hadvance hkeyed
    rw [Frame.step_registry hadvance.step]
    exact frame.keyed_registryAfter hkeyed

/-- A watch stays registered until a run that has its identifier removes it. -/
theorem Watches.of_advance (hwatches : system.Watches id added)
    (hadvance : system.Advance after thread frame rest next) :
    after.Watches id added ∨ ∃ owner, frame = .run owner (some added) .unwatch := by
  rw [Watches, hadvance.watch_eq, Frame.step_registry hadvance.step]
  exact frame.mem_registryAfter hwatches

/-- A run that has an identifier has a watch until it removes it. -/
theorem ReachableUnder.watches_of_run
    (hreach : (ofFragments fragments host).ReachableUnder permitted system)
    {point : RunPoint} (hmem : .run id (some added) point ∈ system.frames thread) :
    point.isUnlisted = false ∧ (point.isUnwatched = false → system.Watches id added) := by
  refine hreach.invariant (fun system => ∀ thread id added point,
    .run id (some added) point ∈ system.frames thread →
      point.isUnlisted = false ∧ (point.isUnwatched = false → system.Watches id added))
    ?_ ?_ ?_ thread id added point hmem
  · intro thread id added point hmem
    cases hmem
  · intro system after mover root hturn hholds thread id added point hmem
    have hcore : (Frame.run id (some added) point).isCore id = true := by simp [Frame.isCore]
    have hsame := hturn.frames_of_core hmem hcore
    obtain ⟨hlisted, hwatches⟩ := hholds thread id added point (hsame ▸ hmem)
    exact ⟨hlisted, fun hpoint => (hwatches hpoint).turnover hturn⟩
  · intro system after mover frame rest next hreach hadvance hholds thread id added point hmem
    have htop : frame ∈ system.frames mover := hadvance.frames ▸ List.mem_cons_self
    have hcore : (Frame.run id (some added) point).isCore id = true := by simp [Frame.isCore]
    rcases hadvance.mem_cases hmem hcore with ⟨rfl, hpushed⟩ | hbeside
    · have htransition := Frame.step_transition id hadvance.step
      have hmover : frame.isCore id = true := by
        by_contra houtside
        obtain ⟨hframes, -⟩ := htransition.outside (by simpa using houtside)
        cases hframes _ (List.mem_append_left _ hpushed) hcore
      rcases htransition.listener_pushed hmover hpushed with ⟨l, rfl⟩ | ⟨point', rfl, hlater⟩
      · obtain rfl := Frame.step_watch hadvance.step
        obtain ⟨rfl, rfl⟩ : added = system.world.registry.nextId ∧ point = .announce := by
          simpa using hpushed
        refine ⟨rfl, fun _ => ?_⟩
        rw [Watches, hadvance.watch_eq, Frame.step_registry hadvance.step]
        exact Registry.mem_add.mpr (.inr rfl)
      · obtain ⟨hlisted, hwatches⟩ := hholds thread id added point' htop
        obtain ⟨hpoint, hbefore⟩ := hlater hlisted
        refine ⟨hpoint, fun hunwatched => ?_⟩
        obtain ⟨hpoint', hne⟩ := hbefore hunwatched
        rcases (hwatches hpoint').of_advance hadvance with hafter | ⟨owner, hframe⟩
        · exact hafter
        · cases hframe
          exact absurd rfl hne
    · obtain ⟨hlisted, hwatches⟩ := hholds thread id added point (hadvance.mem_of_beside hbeside)
      refine ⟨hlisted, fun hunwatched => ?_⟩
      rcases (hwatches hunwatched).of_advance hadvance with hafter | ⟨owner, rfl⟩
      · exact hafter
      · -- the run that removes the watch has it, so it is a run of the same executor
        have hother := (hholds mover owner added .unwatch htop).2 rfl
        have hentry := hreach.keyed.unique _ hother _ (hwatches hunwatched) rfl
        obtain rfl : owner = id := congrArg (fun entry => entry.2.executor) hentry
        rw [hadvance.not_live_beside hreach (by simp) hbeside] at hlisted
        cases hlisted

/-- A watch stays registered until the run of its executor removes it. -/
theorem Watches.advance
    (hreach : (ofFragments fragments host).ReachableUnder permitted system)
    (hwatches : system.Watches id added)
    (hadvance : system.Advance after thread frame rest next) :
    after.Watches id added ∨ frame = .run id (some added) .unwatch := by
  rcases hwatches.of_advance hadvance with hafter | ⟨owner, rfl⟩
  · exact .inl hafter
  · have hother := (hreach.watches_of_run (hadvance.frames ▸ List.mem_cons_self)).2 rfl
    have hentry := hreach.keyed.unique _ hother _ hwatches rfl
    obtain rfl : owner = id := congrArg (fun entry => entry.2.executor) hentry
    exact .inr rfl

end Watches

end System

end FragmentLifecycle
