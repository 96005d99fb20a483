import FragmentLifecycle.Proofs.Listeners
import FragmentLifecycle.Proofs.OwnFrames
import FragmentLifecycle.Proofs.ShutGate

/-!
# Systems at rest

A system is at rest where every executor is before its run or after the end of it, or stands
with its run in a call of the tree or at the pause.  Then every listener belongs to a fragment
with a tree behind an open gate (`System.IsAtRest.held_of_listed`), so a cancellation of it does
not wait and does not close anything.
-/

namespace FragmentLifecycle

/-- The points of a run that waits for its tree or for the end of its pause. -/
def RunPoint.isStanding : RunPoint → Bool
  | .pausing _ | .advancing _ => true
  | _ => false

theorem RunPoint.isRunning_of_isStanding {point : RunPoint} (hpoint : point.isStanding = true) :
    point.isRunning = true := by
  cases point <;> first | rfl | cases hpoint

theorem RunPoint.ne_start_of_isStanding {point : RunPoint} (hpoint : point.isStanding = true) :
    point ≠ .start := by
  rintro rfl
  cases hpoint

namespace System

/-- The fragment runs, and its foreman is among `nodes`. -/
def IsAffected (system : System) (nodes : NodeSet) (id : ExecutorId) : Prop :=
  (system.executor id).state = .running ∧
    (system.executor id).fragment.identity.foreman ∈ nodes

/-- The run of `id` waits on `thread` for its tree or for the end of its pause.  The thread
serves this executor only, and nobody is in the setup section of the executor. -/
structure IsParked (system : System) (id : ExecutorId) (thread : ThreadId) : Prop where
  run : ∃ l point, .run id l point ∈ system.frames thread ∧ point.isStanding = true
  own : ∀ frame ∈ system.frames thread, frame.isOwn id = true
  unlocked : system.held (.setup id) = false

/-- Every executor is before its run or after the normal end of it, or its run is parked. -/
def IsAtRest (system : System) : Prop :=
  ∀ id, (system.executor id).course = .notStarted ∨
    (∃ thread, (system.executor id).course = .ended thread) ∨
    ∃ thread, (system.executor id).course = .underWay thread ∧ system.IsParked id thread

section Rest

variable {fragments : List Fragment} {host : Host} {permitted : Command → Prop}
  {system : System} {nodes : NodeSet} {id : ExecutorId} {thread : ThreadId}
  {added : ListenerId} {watch : Watch}

theorem IsParked.unique {other : ExecutorId} (hparked : system.IsParked id thread)
    (hother : system.IsParked other thread) : id = other := by
  obtain ⟨l, point, hrun, -⟩ := hparked.run
  simpa [Frame.isOwn] using hother.own _ hrun

theorem IsAtRest.parked_of_listed
    (hreach : (ofFragments fragments host).ReachableUnder permitted system)
    (hrest : system.IsAtRest) (hmem : (added, watch) ∈ system.world.registry.listeners) :
    ∃ thread, (system.executor watch.executor).course = .underWay thread ∧
      system.IsParked watch.executor thread := by
  rcases hrest watch.executor with hnew | hended | hparked
  · exact absurd rfl (hreach.not_listed (.inl hnew) _ hmem)
  · exact absurd rfl (hreach.not_listed (.inr hended) _ hmem)
  · exact hparked

/-- A listener is the watch of a parked run. -/
theorem IsAtRest.run_of_listed
    (hreach : (ofFragments fragments host).ReachableUnder permitted system)
    (hrest : system.IsAtRest) (hmem : (added, watch) ∈ system.world.registry.listeners) :
    watch = system.watch watch.executor ∧ ∃ thread point,
      .run watch.executor (some added) point ∈ system.frames thread ∧ point.isStanding = true := by
  obtain ⟨thread, hcourse, hparked⟩ := hrest.parked_of_listed hreach hmem
  obtain ⟨l, point, hrun, hpoint⟩ := hparked.run
  obtain ⟨hwatch, ⟨owner, hunwound⟩ | ⟨owner, point', hrun', -⟩⟩ := hreach.owned hmem
  · rw [hcourse] at hunwound
    cases hunwound
  · have hlive : point' ≠ .start := by
      rintro rfl
      cases (hreach.watches_of_run hrun').1
    obtain ⟨rfl, rfl, rfl⟩ :=
      hreach.live_unique hrun (RunPoint.ne_start_of_isStanding hpoint) hrun' hlive
    exact ⟨hwatch, thread, point, hrun, hpoint⟩

/-- A fragment with a listener has its tree, behind an open gate. -/
theorem IsAtRest.held_of_listed
    (hreach : (ofFragments fragments host).ReachableUnder permitted system)
    (hrest : system.IsAtRest) (hmem : (added, watch) ∈ system.world.registry.listeners) :
    (system.executor watch.executor).treeHeld = true ∧
      (system.executor watch.executor).gate.isOpen = true := by
  obtain ⟨-, thread, point, hrun, hpoint⟩ := hrest.run_of_listed hreach hmem
  have hheld := hreach.treeHeld_of_listed hrun (RunPoint.isRunning_of_isStanding hpoint)
  refine ⟨hheld, ?_⟩
  -- a run on its way to the gate would be a second one
  by_contra hshut
  obtain ⟨owner, l, point', hrun', hbarring⟩ := hreach.run_of_barred ⟨hheld, by simpa using hshut⟩
  have hlive : point' ≠ .start := by
    rintro rfl
    cases hbarring
  obtain ⟨-, -, rfl⟩ :=
    hreach.live_unique hrun (RunPoint.ne_start_of_isStanding hpoint) hrun' hlive
  cases point <;> first | exact Bool.noConfusion hpoint | exact Bool.noConfusion hbarring

/-- A fragment with a listener is running, unless it has stopped. -/
theorem IsAtRest.running_of_listed
    (hreach : (ofFragments fragments host).ReachableUnder permitted system)
    (hrest : system.IsAtRest) (hmem : (added, watch) ∈ system.world.registry.listeners)
    (hcontinues : (system.executor watch.executor).state.continues = true) :
    (system.executor watch.executor).state = .running := by
  obtain ⟨-, thread, point, hrun, hpoint⟩ := hrest.run_of_listed hreach hmem
  exact hreach.running_of_continues hrun (RunPoint.isRunning_of_isStanding hpoint) hcontinues

theorem IsAffected.listed
    (hreach : (ofFragments fragments host).ReachableUnder permitted system)
    (haffected : system.IsAffected nodes id) :
    ∃ added, (added, system.watch id) ∈ system.world.registry.listeners :=
  (hreach.driven haffected.1).watched

theorem IsAtRest.parked_of_affected
    (hreach : (ofFragments fragments host).ReachableUnder permitted system)
    (hrest : system.IsAtRest) (haffected : system.IsAffected nodes id)
    (hcourse : (system.executor id).course = .underWay thread) : system.IsParked id thread := by
  obtain ⟨added, hlisted⟩ := haffected.listed hreach
  obtain ⟨owner, howner, hparked⟩ := hrest.parked_of_listed hreach hlisted
  obtain rfl := Course.underWay.inj (hcourse.symm.trans howner)
  exact hparked

/-- No executor has two listeners. -/
theorem IsAtRest.snapshot_distinct
    (hreach : (ofFragments fragments host).ReachableUnder permitted system)
    (hrest : system.IsAtRest) :
    system.world.registry.snapshot.Pairwise fun first second =>
      first.executor ≠ second.executor := by
  refine List.pairwise_map.mpr (List.Pairwise.imp_of_mem ?_ hreach.ordered)
  rintro ⟨added, watch⟩ ⟨added', watch'⟩ hmem hmem' hlt hsame
  obtain ⟨-, thread, point, hrun, hpoint⟩ := hrest.run_of_listed hreach hmem
  obtain ⟨-, thread', point', hrun', hpoint'⟩ := hrest.run_of_listed hreach hmem'
  dsimp only at hsame hrun hrun'
  rw [← hsame] at hrun'
  obtain ⟨-, hlistener, -⟩ := hreach.live_unique hrun (RunPoint.ne_start_of_isStanding hpoint)
    hrun' (RunPoint.ne_start_of_isStanding hpoint')
  obtain rfl := Option.some.inj hlistener
  exact Nat.lt_irrefl _ hlt

end Rest

end System

end FragmentLifecycle
