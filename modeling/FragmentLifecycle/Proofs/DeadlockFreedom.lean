import FragmentLifecycle.Proofs.Progress
import FragmentLifecycle.Proofs.ShutGate

/-!
# Freedom from deadlock

Where no collaborator calls back, threads never block each other for good.  Whoever holds
the closing lock is inside a call that needs nothing; whoever holds the setup lock is the
run, which needs nothing more there, or a cancellation; and a cancellation that waits at the
gate waits for a run that has left the setup section and opens the gate before it closes
anything (`System.some_thread_not_blocked`).
-/

namespace FragmentLifecycle

/-- The actions that may wait for another thread. -/
def Action.callsBack : Action → Bool
  | .run | .cancel | .finished _ | .depart _ => true
  | _ => false

/-- No collaborator calls an entry point that waits. -/
def Script.Quiet (script : Script) : Prop :=
  ∀ call, ∀ action ∈ (script.planOf call).actions, action.callsBack = false

theorem Script.quiet_vacant : Fragment.vacant.script.Quiet := by
  rintro (_ | _ | _ | _ | _ | _ | _) action ⟨⟩

/-- The roles of what a quiet collaborator does. -/
def Role.isHarmless : Role → Bool
  | .call _ _ | .fail _ _ | .pause _ _ => true
  | .perform _ action => !action.callsBack
  | _ => false

/-- The frames that wait for a collaborator, or for nothing. -/
def Frame.callsOut : Frame → Bool
  | .run _ _ point => point ≠ .closing
  | .cancel _ point => point ≠ .closing
  | .closeResources _ _ => true
  | _ => false

theorem Frame.not_blocked_of_harmless {world : World} {view : LockView} {frame : Frame}
    (hharmless : frame.role.isHarmless = true) : ¬ frame.Blocked world view := by
  rintro ⟨⟩ <;> cases hharmless

theorem Frame.not_blocked_of_run {world : World} {view : LockView} {id : ExecutorId}
    {l : Option ListenerId} {point : RunPoint}
    (hpoint : point.holdsSetup = true ∨ point.isBarring = true) :
    ¬ (Frame.run id l point).Blocked world view := by
  rintro ⟨⟩
  rcases hpoint with ⟨⟨⟩⟩ | ⟨⟨⟩⟩

theorem Action.isHarmless_entry {action : Action} {id : ExecutorId} {role : Role}
    (hquiet : action.callsBack = false) (hentry : action.entry? id = some role) :
    role.isHarmless = true := by
  cases action <;> first
  | (cases hquiet; done)
  | (cases hentry; done)
  | (cases hentry; rfl)

namespace System

/-- The innermost frame of a thread finds a lock held or the gate shut. -/
def IsBlocked (system : System) (thread : ThreadId) : Prop :=
  ∃ frame rest, system.frames thread = frame :: rest ∧
    frame.Blocked system.world (system.view thread)

/-- A thread that has not ended and is not blocked. -/
def IsFree (system : System) (thread : ThreadId) : Prop :=
  system.frames thread ≠ [] ∧ ¬ system.IsBlocked thread

/-- The run of `id` has begun or is called. -/
def IsCalled (system : System) (id : ExecutorId) : Prop :=
  (system.executor id).course ≠ .notStarted ∨ ∃ thread, ∃ frame ∈ system.frames thread,
    frame.role = .perform id .run ∨ ∃ handle, frame.role = .hosted id handle

/-- Whoever works for `id` under a lock, or on the way to the gate, has what makes a thread
`free`, unless the closing lock, the setup lock or the gate stops it. -/
structure Frees (system : System) (id : ExecutorId) (free : ThreadId → Prop) : Prop where
  running : ∀ {thread l point}, .run id l point ∈ system.frames thread →
    point.holdsSetup = true ∨ point.isBarring = true → free thread
  cancelling : ∀ {thread point}, .cancel id point ∈ system.frames thread → point ≠ .closing →
    ¬ (Frame.cancel id point).Blocked system.world (system.view thread) → free thread
  closing : ∀ {thread point}, .closeResources id point ∈ system.frames thread →
    ¬ (Frame.closeResources id point).Blocked system.world (system.view thread) → free thread
  returning : ∀ {thread rest}, system.frames thread = .cancel id .closing :: rest → free thread

section Blocking

variable {fragments : List Fragment} {host : Host} {permitted : Command → Prop}
  {system : System} {id : ExecutorId} {thread : ThreadId} {frame : Frame} {rest : List Frame}

theorem quiet_of_mem (hquiet : ∀ fragment ∈ fragments, fragment.script.Quiet) (id : ExecutorId) :
    ((fragments[id]?).getD .vacant).script.Quiet := by
  cases hfragment : fragments[id]? with
  | none => exact Script.quiet_vacant
  | some fragment => exact hquiet fragment (List.mem_of_getElem? hfragment)

/-! ### Threads that are free -/

theorem IsFree.of_top (hframes : system.frames thread = frame :: rest)
    (hblocked : ¬ frame.Blocked system.world (system.view thread)) : system.IsFree thread := by
  refine ⟨by simp [hframes], ?_⟩
  rintro ⟨top, below, htop, htopBlocked⟩
  obtain ⟨rfl, rfl⟩ := List.cons.inj (htop.symm.trans hframes)
  exact hblocked htopBlocked

theorem exists_top (hmem : frame ∈ system.frames thread) :
    ∃ top rest, system.frames thread = top :: rest :=
  List.exists_cons_of_ne_nil (List.ne_nil_of_mem hmem)

/-- Inside a call on a quiet collaborator everything is harmless. -/
theorem ReachableUnder.harmless_above
    (hquiet : ∀ fragment ∈ fragments, fragment.script.Quiet)
    (hreach : (ofFragments fragments host).ReachableUnder permitted system)
    (hframes : system.frames thread = frame :: rest) {outer : Frame} (houter : outer ∈ rest)
    (hcalls : outer.callsOut = true) : frame.role.isHarmless = true := by
  have hlinked := hframes ▸ hreach.linked thread
  refine hlinked.innermost (fun frame => frame.callsOut = true)
    (fun frame => frame.role.isHarmless = true) ?_ ⟨outer, houter, hcalls⟩
  intro caller hcaller callee hawaits habove
  generalize callee.role = role at hawaits
  cases hawaits with
  | action =>
    have hmem := hreach.mem_plan (hframes ▸ List.mem_cons_of_mem _ hcaller)
    simpa [Role.isHarmless] using quiet_of_mem hquiet _ _ _ hmem
  | entry hentry =>
    have hharmless := habove.resolve_left (by simp [Frame.callsOut])
    exact Action.isHarmless_entry (by simpa [Frame.role, Role.isHarmless] using hharmless) hentry
  | _ => simp_all [Frame.callsOut, Frame.role, Role.isHarmless]

/-- A thread is free where a frame calls out and would not be blocked itself. -/
theorem ReachableUnder.free_of_callsOut
    (hquiet : ∀ fragment ∈ fragments, fragment.script.Quiet)
    (hreach : (ofFragments fragments host).ReachableUnder permitted system)
    (hmem : frame ∈ system.frames thread) (hcalls : frame.callsOut = true)
    (hblocked : ¬ frame.Blocked system.world (system.view thread)) : system.IsFree thread := by
  obtain ⟨top, rest, hframes⟩ := exists_top hmem
  rcases List.mem_cons.mp (hframes ▸ hmem) with rfl | hbelow
  · exact .of_top hframes hblocked
  · have hharmless := hreach.harmless_above hquiet hframes hbelow hcalls
    exact .of_top hframes (Frame.not_blocked_of_harmless hharmless)

/-- Where collaborators are quiet, no such thread is blocked. -/
theorem ReachableUnder.frees_of_quiet
    (hquiet : ∀ fragment ∈ fragments, fragment.script.Quiet)
    (hreach : (ofFragments fragments host).ReachableUnder permitted system) (id : ExecutorId) :
    system.Frees id system.IsFree where
  running hmem hpoint := by
    refine hreach.free_of_callsOut hquiet hmem ?_ (Frame.not_blocked_of_run hpoint)
    simp only [Frame.callsOut, ne_eq, decide_not, Bool.not_eq_true', decide_eq_false_iff_not]
    rintro rfl
    rcases hpoint with ⟨⟨⟩⟩ | ⟨⟨⟩⟩
  cancelling hmem hpoint := hreach.free_of_callsOut hquiet hmem (by simpa [Frame.callsOut])
  closing hmem := hreach.free_of_callsOut hquiet hmem rfl
  returning hframes := .of_top hframes (by rintro ⟨⟩)

/-! ### Who holds a lock -/

section Frees

variable {free : ThreadId → Prop} (hfrees : system.Frees id free)

include hfrees

/-- Who closes the resources is free. -/
theorem Frees.exists_of_closing (hheld : (system.view thread).closingHeld id = true) :
    ∃ owner, free owner := by
  obtain ⟨owner, frame, hmem, hholds⟩ := held_iff.mp hheld
  obtain ⟨point, rfl, hpoint⟩ := Frame.eq_closeResources_of_holds hholds
  refine ⟨owner, hfrees.closing hmem ?_⟩
  rintro ⟨⟩
  cases hpoint

/-- Who closes the resources for a cancellation is free, or waits for somebody who is. -/
theorem Frees.exists_of_cancelClosing
    (hreach : (ofFragments fragments host).ReachableUnder permitted system)
    (hmem : .cancel id .closing ∈ system.frames thread) : ∃ owner, free owner := by
  obtain ⟨top, rest, hframes⟩ := exists_top hmem
  rcases List.mem_cons.mp (hframes ▸ hmem) with rfl | hbelow
  · exact ⟨thread, hfrees.returning hframes⟩
  · obtain ⟨callee, hcallee, hawaits⟩ := (hframes ▸ hreach.linked thread).exists_callee_mem hbelow
    generalize hrole : callee.role = role at hawaits
    cases hawaits with
    | cancelClose =>
      obtain ⟨point, rfl⟩ := Frame.eq_closeResources_of_role hrole
      by_cases hblocked :
          (Frame.closeResources id point).Blocked system.world (system.view thread)
      · cases hblocked with
        | closing hheld => exact hfrees.exists_of_closing hheld
      · exact ⟨thread, hfrees.closing (hframes ▸ hcallee) hblocked⟩

/-- A cancellation past the setup lock is free, or waits for somebody who is. -/
theorem Frees.exists_of_cancel_inside
    (hreach : (ofFragments fragments host).ReachableUnder permitted system)
    {point : CancelPoint} (hmem : .cancel id point ∈ system.frames thread)
    (hpoint : point ≠ .lockSetup) : ∃ owner, free owner := by
  by_cases hclosing : point = .closing
  · subst hclosing
    exact hfrees.exists_of_cancelClosing hreach hmem
  · by_cases hblocked : (Frame.cancel id point).Blocked system.world (system.view thread)
    · cases hblocked with
      | cancelSetup => exact absurd rfl hpoint
      | cancelGate hshut =>
        obtain ⟨runner, l, point, hrun, hbarring⟩ :=
          hreach.run_of_barred (hreach.barred_of_waiting hmem hshut)
        exact ⟨runner, hfrees.running hrun (.inr hbarring)⟩
    · exact ⟨thread, hfrees.cancelling hmem hclosing hblocked⟩

/-- Who holds the setup lock is free, or waits for somebody who is. -/
theorem Frees.exists_of_setup
    (hreach : (ofFragments fragments host).ReachableUnder permitted system)
    (hheld : (system.view thread).setupHeldElsewhere id = true) : ∃ owner, free owner := by
  obtain ⟨owner, -, frame, hmem, hholds⟩ := heldElsewhere_iff.mp hheld
  cases frame with
  | run other l point =>
    simp only [Frame.holds, Bool.and_eq_true, decide_eq_true_eq, Lock.setup.injEq] at hholds
    obtain ⟨hpoint, rfl⟩ := hholds
    exact ⟨owner, hfrees.running hmem (.inl hpoint)⟩
  | cancel other point =>
    simp only [Frame.holds, Bool.and_eq_true, decide_eq_true_eq, Lock.setup.injEq] at hholds
    obtain ⟨hpoint, rfl⟩ := hholds
    refine hfrees.exists_of_cancel_inside hreach hmem ?_
    rintro rfl
    cases hpoint
  | _ => simp [Frame.holds] at hholds

/-- A cancellation is free, or waits for somebody who is. -/
theorem Frees.exists_of_cancel
    (hreach : (ofFragments fragments host).ReachableUnder permitted system)
    {point : CancelPoint} (hmem : .cancel id point ∈ system.frames thread) :
    ∃ owner, free owner := by
  by_cases hpoint : point = .lockSetup
  · subst hpoint
    by_cases hblocked : (Frame.cancel id .lockSetup).Blocked system.world (system.view thread)
    · cases hblocked with
      | cancelSetup hheld => exact hfrees.exists_of_setup hreach hheld
    · exact ⟨thread, hfrees.cancelling hmem (by simp) hblocked⟩
  · exact hfrees.exists_of_cancel_inside hreach hmem hpoint

end Frees

/-- Who is to call a run that has not begun is free. -/
theorem ReachableUnder.free_of_caller
    (hreach : (ofFragments fragments host).ReachableUnder permitted system)
    (hnew : (system.executor id).course = .notStarted) (hmem : frame ∈ system.frames thread)
    (hcaller : frame.role = .perform id .run ∨ ∃ handle, frame.role = .hosted id handle) :
    system.IsFree thread := by
  obtain ⟨top, rest, hframes⟩ := exists_top hmem
  have hcalls (role : Role) (hawaits : frame.Awaits role) : role = .run id := by
    generalize hrole : frame.role = own at hcaller
    rcases hcaller with rfl | ⟨handle, rfl⟩
    · obtain ⟨point, rfl⟩ := Frame.eq_perform_of_role hrole
      cases hawaits with
      | entry hentry => exact (Option.some.inj hentry).symm
    · cases hawaits <;> cases hrole
      rfl
  rcases List.mem_cons.mp (hframes ▸ hmem) with rfl | hbelow
  · refine .of_top hframes ?_
    rintro ⟨⟩ <;> simp [Frame.role] at hcaller
  · have hlinked := hframes ▸ hreach.linked thread
    obtain ⟨callee, hcallee, hawaits⟩ := hlinked.exists_callee_mem hbelow
    obtain ⟨l, point, rfl⟩ := Frame.eq_run_of_role (hcalls _ hawaits)
    have hstart : point = .start := by
      by_contra hlive
      have hcourse := hreach.course_of_run (hframes ▸ hcallee) hlive
      rw [hnew] at hcourse
      cases hcourse
    subst hstart
    rcases List.mem_cons.mp hcallee with rfl | hinner
    · exact .of_top hframes (by rintro ⟨⟩)
    · obtain ⟨role, hwaits⟩ := hlinked.exists_callee hinner
      cases hwaits

/-- The run that a caller at the gate waits for is free, or waits for somebody who is. -/
theorem ReachableUnder.free_of_shut
    (hquiet : ∀ fragment ∈ fragments, fragment.script.Quiet)
    (hreach : (ofFragments fragments host).ReachableUnder permitted system)
    (htrusted : tally Entry.isBreach (system.executor id).journal = 0)
    (hshut : (system.executor id).gate.isOpen = false) (hcalled : system.IsCalled id) :
    ∃ owner, system.IsFree owner := by
  cases hcourse : (system.executor id).course with
  | notStarted =>
    obtain ⟨owner, frame, hmem, hcaller⟩ := hcalled.resolve_left (absurd hcourse)
    exact ⟨owner, hreach.free_of_caller hcourse hmem hcaller⟩
  | underWay owner =>
    obtain ⟨l, point, hmem, -⟩ := hreach.run_of_course hcourse
    by_cases hclosing : point = .closing
    · subst hclosing
      rw [hreach.open_of_run hmem rfl] at hshut
      cases hshut
    · by_cases hblocked : (Frame.run id l point).Blocked system.world (system.view owner)
      · cases hblocked with
        | runSetup hheld => exact (hreach.frees_of_quiet hquiet id).exists_of_setup hreach hheld
      · exact ⟨owner, hreach.free_of_callsOut hquiet hmem (by simpa [Frame.callsOut]) hblocked⟩
  | ended owner =>
    rw [hreach.open_of_ended hcourse] at hshut
    cases hshut
  | unwound owner =>
    have hbreach := hreach.breach_of_unwound hcourse
    omega

/-- The run that a cancellation at the gate waits for is on another thread, past the setup
section and before its close, and free. -/
theorem ReachableUnder.free_of_waiting
    (hquiet : ∀ fragment ∈ fragments, fragment.script.Quiet)
    (hreach : (ofFragments fragments host).ReachableUnder permitted system)
    (hmem : .cancel id .waitGate ∈ system.frames thread)
    (hshut : (system.executor id).gate.isOpen = false) :
    ∃ owner l point, owner ≠ thread ∧ .run id l point ∈ system.frames owner ∧
      (point = .recording ∨ point = .releaseWaiters ∨ ∃ fault, point = .settleFault fault) ∧
      system.IsFree owner := by
  obtain ⟨owner, l, point, hrun, hbarring⟩ :=
    hreach.run_of_barred (hreach.barred_of_waiting hmem hshut)
  have hfree := (hreach.frees_of_quiet hquiet id).running hrun (.inr hbarring)
  have hother : owner ≠ thread := by
    -- a thread that waits at the shut gate is not free
    rintro rfl
    obtain ⟨top, rest, hframes⟩ := exists_top hmem
    rcases List.mem_cons.mp (hframes ▸ hmem) with rfl | hbelow
    · exact hfree.2 ⟨_, rest, hframes, .cancelGate hshut⟩
    · obtain ⟨role, hawaits⟩ := (hframes ▸ hreach.linked owner).exists_callee hbelow
      cases hawaits
  have houtside : point.holdsSetup = false := by
    by_contra hinside
    rw [Bool.not_eq_false] at hinside
    have hrunning : 0 < within id Frame.setup (.run id l point) := by simp [Frame.setup, hinside]
    have hwaiting : 0 < within id Frame.setup (.cancel id .waitGate) := by
      simp [Frame.setup, CancelPoint.holdsSetup]
    exact hother (hreach.setup_exclusive hrun hmem hrunning hwaiting)
  refine ⟨owner, l, point, hother, hrun, ?_, hfree⟩
  cases point with
  | recording => exact .inl rfl
  | releaseWaiters => exact .inr (.inl rfl)
  | settleFault fault => exact .inr (.inr ⟨fault, rfl⟩)
  | watch | announce | announcing | openGate => cases houtside
  | _ => cases hbarring

end Blocking

variable {fragments : List Fragment} {host : Host} {system : System}

/-- Threads do not block each other for good, in any number, at any point of a run, of
cancellations, failures, departures and the other calls, if no collaborator calls back and
whoever waits at the gate waits for a fragment whose run has been called and whose reporter,
context and handler have not panicked.  As long as a thread has not ended, some thread is
not blocked, and where nobody rests, some thread takes a step.  A cancellation that waits at
the gate, and holds the setup lock meanwhile, waits for a run that has left the setup
section, has not come to its close, and is not blocked. -/
theorem some_thread_not_blocked (hquiet : ∀ fragment ∈ fragments, fragment.script.Quiet)
    (hreach : (ofFragments fragments host).Reachable system)
    (hcalled : ∀ thread id receiver rest,
      system.frames thread = .finished id receiver .waitGate :: rest →
        system.IsCalled id ∧ tally Entry.isBreach (system.executor id).journal = 0) :
    (∀ thread, system.frames thread ≠ [] → ∃ owner, system.IsFree owner) ∧
      (system.world.exit = none →
        (∀ thread frame rest, system.frames thread = frame :: rest →
          ¬ frame.Rests system.world thread) →
        ∀ thread, system.frames thread ≠ [] → ∃ owner after, system.step owner = some after) ∧
      ∀ thread id, .cancel id .waitGate ∈ system.frames thread →
        (system.executor id).gate.isOpen = false →
        ∃ owner l point, owner ≠ thread ∧ .run id l point ∈ system.frames owner ∧
          (point = .recording ∨ point = .releaseWaiters ∨ ∃ fault, point = .settleFault fault) ∧
          system.IsFree owner := by
  have hunder := hreach.unrestricted
  have hfree (thread : ThreadId) (hbusy : system.frames thread ≠ []) :
      ∃ owner, system.IsFree owner := by
    by_cases hblocked : system.IsBlocked thread
    · obtain ⟨frame, rest, hframes, hframe⟩ := hblocked
      cases hframe with
      | runSetup hheld | cancelSetup hheld =>
        exact (hunder.frees_of_quiet hquiet _).exists_of_setup hunder hheld
      | closing hheld => exact (hunder.frees_of_quiet hquiet _).exists_of_closing hheld
      | cancelGate hshut =>
        obtain ⟨owner, -, -, -, -, -, hfree⟩ :=
          hunder.free_of_waiting hquiet (hframes ▸ List.mem_cons_self) hshut
        exact ⟨owner, hfree⟩
      | finishedGate hshut =>
        obtain ⟨hcalled, htrusted⟩ := hcalled thread _ _ rest hframes
        exact hunder.free_of_shut hquiet htrusted hshut hcalled
    · exact ⟨thread, hbusy, hblocked⟩
  refine ⟨hfree, fun hexit hrests thread hbusy => ?_,
    fun thread id => hunder.free_of_waiting hquiet⟩
  obtain ⟨owner, howner, hunblocked⟩ := hfree thread hbusy
  obtain ⟨frame, rest, hframes⟩ := List.exists_cons_of_ne_nil howner
  refine ⟨owner, Option.ne_none_iff_exists'.mp fun hstuck => ?_⟩
  rcases hunder.stuck_cases hexit hframes hstuck with hblocked | hrest
  · exact hunblocked ⟨frame, rest, hframes, hblocked⟩
  · exact hrests owner frame rest hframes hrest

/-- A run that is refused the running state while one cancellation waits at the gate with
the setup lock, another one waits for the lock, and a request for early termination waits at
the gate. -/
theorem some_thread_not_blocked_of_refused_run :
    ∃ system, (ofFragments [.vacant] { slots := { free := 0 } }).Reachable system ∧
      system.frames 2 = [.cancel 0 .waitGate, .perform 0 .cancel .waiting] ∧
      system.frames 3 = [.finished 0 Fragment.vacant.identity.handle .waitGate,
        .perform 0 (.finished Fragment.vacant.identity.handle) .waiting] ∧
      system.frames 4 = [.cancel 0 .lockSetup, .perform 0 .cancel .waiting] ∧
      (system.step 2).isNone = true ∧ (system.step 3).isNone = true ∧
      (system.step 4).isNone = true ∧ ∃ owner after, system.step owner = some after := by
  obtain ⟨system, hreach, hend⟩ := exists_of_moves
    (ofFragments [.vacant] { slots := { free := 0 } })
    (.call (.act 0 .run) :: List.replicate 10 (.step 0) ++
      .call (.act 0 (.heldFail substituteCause)) :: List.replicate 4 (.step 1) ++
      .step 0 :: .call (.act 0 .cancel) :: List.replicate 3 (.step 2) ++
      [.call (.act 0 (.finished Fragment.vacant.identity.handle)), .step 3,
        .call (.act 0 .cancel), .step 4])
    (fun system => (system.threads.map Thread.frames, (system.executor 0).course,
      tally Entry.isBreach (system.executor 0).journal, system.world.exit,
      (system.step 2).isNone, (system.step 3).isNone, (system.step 4).isNone))
    ([[.run 0 (some 0) (.settleFault (.execution (.invalidTransition .failed .running))),
          .perform 0 .run .waiting], [],
        [.cancel 0 .waitGate, .perform 0 .cancel .waiting],
        [.finished 0 Fragment.vacant.identity.handle .waitGate,
          .perform 0 (.finished Fragment.vacant.identity.handle) .waiting],
        [.cancel 0 .lockSetup, .perform 0 .cancel .waiting]],
      .underWay 0, 0, none, true, true, true) rfl
  simp only [Prod.mk.injEq] at hend
  obtain ⟨hthreads, hcourse, htrusted, hexit, hstuck⟩ := hend
  have hframes (thread : ThreadId) : system.frames thread = _ :=
    (frames_eq_getD system thread).trans (by rw [hthreads])
  obtain ⟨-, hsteps, -⟩ := some_thread_not_blocked (by simpa using Script.quiet_vacant) hreach (by
    intro thread id receiver rest htop
    obtain ⟨rfl, rfl⟩ : thread = 3 ∧ id = 0 := by
      rw [hframes] at htop
      rcases thread with _ | _ | _ | _ | _ | thread <;> simp_all
    exact ⟨.inl (by simp [hcourse]), htrusted⟩)
  refine ⟨system, hreach, hframes 2, hframes 3, hframes 4, hstuck.1, hstuck.2.1, hstuck.2.2, ?_⟩
  refine hsteps hexit ?_ 2 (by simp [hframes])
  intro thread frame rest htop hrests
  rw [hframes] at htop
  rcases thread with _ | _ | _ | _ | _ | thread <;> cases hrests <;> simp at htop

end System

end FragmentLifecycle
