import FragmentLifecycle.Proofs.RunningTree

/-!
# A tree behind a shut gate

A tree is stored before the gate is opened, so a cancellation may find a tree and have to
wait.  In the meantime the run is on its way to the gate: through the announcement of its
tree, or, when this fails, through the record of the failure
(`System.ReachableUnder.run_of_barred`).
-/

namespace FragmentLifecycle

/-- The points of a run that has stored its tree and is yet to open the gate. -/
def RunPoint.isBarring : RunPoint → Bool
  | .watch | .announce | .announcing | .openGate | .recording | .releaseWaiters => true
  | .settleFault fault => fault.outOfMemory?.isNone
  | _ => false

/-- The points of a run between its tree and the gate, as long as nothing fails. -/
def RunPoint.isAnnouncing : RunPoint → Bool
  | .watch | .announce | .announcing | .openGate => true
  | _ => false

/-- Weighs the runs on their way to the gate. -/
def Frame.barring : Frame → Nat
  | .run _ _ point => point.isBarring.toNat
  | _ => 0

/-- A tree that the gate still keeps from the callers. -/
def Executor.IsBarred (executor : Executor) : Prop :=
  executor.treeHeld = true ∧ executor.gate.isOpen = false

theorem Executor.IsBarred.of_untouched {thread : ThreadId} {before after : Executor}
    (hbarred : after.IsBarred) (hsame : before.Untouched thread after) : before.IsBarred := by
  rwa [IsBarred, ← hsame.treeHeld, ← hsame.gate]

/-- What a frame that waits for another one has called is on the stack above it. -/
theorem Linked.exists_callee_mem {frame outer : Frame} {rest : List Frame}
    (hlinked : Linked (frame :: rest)) (hmem : outer ∈ rest) :
    ∃ callee ∈ frame :: rest, outer.Awaits callee.role := by
  induction rest generalizing frame with
  | nil => cases hmem
  | cons caller outermost ih =>
    rcases List.mem_cons.mp hmem with rfl | hbelow
    · exact ⟨frame, List.mem_cons_self, hlinked.awaits⟩
    · obtain ⟨callee, hcallee, hawaits⟩ := ih hlinked.tail hbelow
      exact ⟨callee, List.mem_cons_of_mem _ hcallee, hawaits⟩

/-- A failure is recorded by the innermost frame. -/
theorem Linked.not_fail_mem {frame : Frame} {rest : List Frame} {id : ExecutorId} {cause : Fault}
    {point : FailPoint} (hlinked : Linked (frame :: rest)) :
    .fail id cause point ∉ rest := by
  intro hmem
  obtain ⟨role, hawaits⟩ := hlinked.exists_callee hmem
  cases hawaits

/-- A frame that waits for the record of a failure stands below it. -/
theorem Linked.innermost_of_recording {frame outer : Frame} {rest : List Frame}
    (hlinked : Linked (frame :: rest)) (hmem : outer ∈ rest)
    (hrecords : ∀ role, outer.Awaits role → ∃ id cause, role = .fail id cause) :
    ∃ id cause point, frame = .fail id cause point := by
  obtain ⟨callee, hcallee, hawaits⟩ := hlinked.exists_callee_mem hmem
  obtain ⟨id, cause, hrole⟩ := hrecords _ hawaits
  obtain ⟨point, rfl⟩ := Frame.eq_fail_of_role hrole
  rcases List.mem_cons.mp hcallee with rfl | hbelow
  · exact ⟨id, cause, point, rfl⟩
  · exact absurd hbelow hlinked.not_fail_mem

section Transitions

variable {view : LockView} {thread : ThreadId} {id : ExecutorId} {frame : Frame}
  {signal : Signal} {executor executor' : Executor} {next : Next}

/-- A run that has stored its tree stays on its way until it opens the gate. -/
theorem Transition.barring_le
    (htransition : Transition view thread id frame signal executor next executor')
    (hcore : frame.isCore id = true) (hbarred : executor'.IsBarred) :
    0 < (next.frames.map (within id Frame.barring)).sum ∨
      (frame.barring = 0 ∧ executor.IsBarred) := by
  obtain ⟨hheld, hshut⟩ := hbarred
  cases htransition
  case aside houtside _ _ => simp [houtside] at hcore
  case gateOpened | waitersReleased => cases hshut
  case treeTaken => cases hheld
  case treeKept | watched | runAccepted | announced | announceUnwinds | failureRecorded =>
    exact .inl (by simp [Frame.barring, RunPoint.isBarring])
  case runRefused =>
    exact .inl (by simp [Frame.barring, RunPoint.isBarring, Fault.outOfMemory?])
  case faultSettled => exact .inl (by simp [Frame.barring, RunPoint.isBarring])
  case alarmBegins hmemory _ =>
    exact .inr ⟨by simp [Frame.barring, RunPoint.isBarring, hmemory], hheld, hshut⟩
  case callProceeds hsame _ => exact .inr ⟨rfl, hsame.treeHeld ▸ hheld, hsame.gate ▸ hshut⟩
  all_goals exact .inr ⟨rfl, hheld, hshut⟩

theorem Transition.announcing_pushed
    (htransition : Transition view thread id frame signal executor next executor')
    (hcore : frame.isCore id = true) {l : Option ListenerId} {point : RunPoint}
    (hpushed : .run id l point ∈ next.frames) (hpoint : point.isAnnouncing = true) :
    executor'.treeHeld = true ∨
      ∃ l' point', frame = .run id l' point' ∧ point'.isAnnouncing = true ∧
        executor'.treeHeld = executor.treeHeld := by
  cases htransition
  case aside houtside _ _ => simp [houtside] at hcore
  all_goals simp at hpushed
  all_goals try obtain ⟨rfl, rfl⟩ := hpushed
  all_goals try cases hpoint
  case treeKept => exact .inl rfl
  all_goals exact .inr ⟨_, _, rfl, rfl, rfl⟩

/-- A cancellation that comes to wait at the gate has found a tree. -/
theorem Transition.waiting_pushed
    (htransition : Transition view thread id frame signal executor next executor')
    (hcore : frame.isCore id = true) (hpushed : .cancel id .waitGate ∈ next.frames) :
    executor.treeHeld = true ∧ executor' = executor := by
  cases htransition
  case aside houtside _ _ => simp [houtside] at hcore
  all_goals simp at hpushed
  case cancelFindsTree hheld => exact ⟨hheld, rfl⟩

end Transitions

namespace System

section Barred

variable {fragments : List Fragment} {host : Host} {permitted : Command → Prop}
  {system after : System} {id : ExecutorId} {thread : ThreadId}

/-- The run is on its way to the gate that keeps the callers from a tree. -/
theorem ReachableUnder.run_of_barred
    (hreach : (ofFragments fragments host).ReachableUnder permitted system)
    (hbarred : (system.executor id).IsBarred) :
    ∃ thread l point, .run id l point ∈ system.frames thread ∧ point.isBarring = true := by
  have hpositive : 0 < system.total (within id Frame.barring) := by
    refine hreach.invariant (fun system => (system.executor id).IsBarred →
      0 < system.total (within id Frame.barring)) ?_ ?_ ?_ hbarred
    · rintro ⟨⟨⟩, -⟩
    · intro system after thread root hturn hholds
      rw [hturn.executor_eq, hturn.total_within]
      exact hholds
    · intro system after thread frame rest next hreach hadvance hholds hbarred
      have htransition := Frame.step_transition id hadvance.step
      have hlaw := hadvance.total_within id Frame.barring
      by_cases hcore : frame.isCore id = true
      · have htop := weight_le_total (within id Frame.barring)
          (hadvance.frames ▸ List.mem_cons_self)
        rw [within, if_pos hcore] at hlaw htop
        rcases htransition.barring_le hcore hbarred with hpushed | ⟨hzero, hbefore⟩
        · omega
        · have hpositive := hholds hbefore
          omega
      · have houtside : frame.isCore id = false := by simpa using hcore
        obtain ⟨-, hsame⟩ := htransition.outside houtside
        have hpositive := hholds (hbarred.of_untouched hsame)
        rw [within_outside id _ houtside] at hlaw
        omega
  obtain ⟨thread, frame, hmem, hweighs⟩ := exists_of_total_pos _ hpositive
  obtain ⟨hcore, hbarring⟩ := within_pos id _ hweighs
  cases frame with
  | run owner l point =>
    obtain rfl : owner = id := by simpa [Frame.isCore] using hcore
    exact ⟨thread, l, point, hmem, by simpa [Frame.barring, Nat.pos_iff_ne_zero] using hbarring⟩
  | _ => cases hbarring

/-- A tree that is held stays where it is as long as the gate is shut. -/
theorem Advance.treeHeld_of_shut {frame : Frame} {rest : List Frame} {next : Next}
    (hreach : (ofFragments fragments host).ReachableUnder permitted system)
    (hadvance : system.Advance after thread frame rest next)
    (hheld : (system.executor id).treeHeld = true) :
    (after.executor id).treeHeld = true ∨ (after.executor id).gate.isOpen = true := by
  rcases hadvance.treeHeld_of_held hreach hheld with hstill | ⟨l, hclosing⟩
  · exact .inl hstill
  · exact .inr ((Frame.step_transition id hadvance.step).grows.gate
      (hreach.open_of_run hclosing rfl))

/-- A cancellation that waits at the gate waits for one that is shut before a tree. -/
theorem ReachableUnder.barred_of_waiting
    (hreach : (ofFragments fragments host).ReachableUnder permitted system)
    (hmem : .cancel id .waitGate ∈ system.frames thread)
    (hshut : (system.executor id).gate.isOpen = false) : (system.executor id).IsBarred := by
  refine ⟨?_, hshut⟩
  have hfound : (system.executor id).treeHeld = true ∨
      (system.executor id).gate.isOpen = true := by
    refine hreach.everywhere id (fun executor _ frame => frame = .cancel id .waitGate →
      executor.treeHeld = true ∨ executor.gate.isOpen = true) ?_ ?_ ?_ hmem (by simp [Frame.isCore])
      rfl
    · rintro executor thread _ ⟨⟩ ⟨⟩
    · rintro system after thread frame rest next _ _ htransition hcore - _ hpushed - rfl
      obtain ⟨hheld, hsame⟩ := htransition.waiting_pushed hcore hpushed
      exact .inl (hsame ▸ hheld)
    · rintro system after thread frame rest next hreach hadvance htransition owner _ - - hother rfl
      rcases hother rfl with hheld | hopen
      · exact hadvance.treeHeld_of_shut hreach hheld
      · exact .inr (htransition.grows.gate hopen)
  rcases hfound with hheld | hopen
  · exact hheld
  · rw [hshut] at hopen
    cases hopen

/-- The tree is there while the run announces it. -/
theorem ReachableUnder.treeHeld_of_announcing
    (hreach : (ofFragments fragments host).ReachableUnder permitted system)
    {l : Option ListenerId} {point : RunPoint} (hmem : .run id l point ∈ system.frames thread)
    (hpoint : point.isAnnouncing = true) : (system.executor id).treeHeld = true :=
  hreach.treeHeld_at_points RunPoint.isAnnouncing rfl rfl
    (fun htransition hcore _ _ hpushed hpoint => htransition.announcing_pushed hcore hpushed hpoint)
    hmem hpoint

end Barred

end System

end FragmentLifecycle
