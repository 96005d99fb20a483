import FragmentLifecycle.Proofs.Returns
import FragmentLifecycle.Proofs.RunningTree

/-!
# Wake-ups of the worker

An operator tree that parks the thread of the run looks at the state on every wake-up.  A
cancellation stops the fragment first and sets the park token of the recorded thread last,
so a thread that has looked before the state changed finds its token, and one that looks
after it does not park.  Tokens are used up only by the thread that wakes up, and so no
cancelled worker is left parked (`System.cancelled_worker_wakes`).
-/

namespace FragmentLifecycle

/-- The end of the report of a cancellation by a panic, which ends the cancellation too. -/
def Entry.isLostCancellation : Entry → Bool
  | .left (.stateChanged .cancellationRequested) unwound => unwound
  | _ => false

section Transitions

variable {view : LockView} {thread : ThreadId} {id : ExecutorId} {frame : Frame}
  {signal : Signal} {executor executor' : Executor} {next : Next}

theorem State.cancellationRequested_of_apply_decide {state : State} (target : State)
    (hrequested : (state.decide target).apply state = .cancellationRequested) :
    state = .cancellationRequested ∨
      (target = .cancellationRequested ∧ state.continues = true) := by
  revert hrequested
  cases state <;> cases target <;> decide

/-- The cancellation that has its request accepted goes on to report it. -/
theorem Transition.cancellationRequested_cases
    (htransition : Transition view thread id frame signal executor next executor')
    (hstate : executor'.state = .cancellationRequested) :
    executor.state = .cancellationRequested ∨ .cancel id .announcing ∈ next.frames := by
  rcases htransition.state_cases with hsame | ⟨target, hasks, hdecided⟩
  · exact .inl (hsame.symm.trans hstate)
  · rcases State.cancellationRequested_of_apply_decide target (hdecided.symm.trans hstate) with
      hstill | ⟨rfl, hcontinues⟩
    · exact .inl hstill
    · cases hasks
      cases htransition with
      | cancelAccepted => exact .inr (by simp)
      | cancelIgnored hstopped =>
        rw [hcontinues] at hstopped
        cases hstopped
      | aside houtside => simp [Frame.isCore] at houtside

/-- A cancellation past the decision on its request wakes the worker next, or a panic of its
report has come back to it. -/
theorem Transition.decided_cases {point : CancelPoint}
    (htransition : Transition view thread id (.cancel id point) signal executor next executor')
    (hdecided : point.isDecided = true) :
    next.frames = [.cancel id .wake] ∨ (point = .announcing ∧ ∃ payload, signal = .raised payload) ∨
      point = .wake := by
  cases htransition
  case aside houtside _ _ => simp [Frame.isCore] at houtside
  case cancelAnnounced => exact .inl rfl
  case cancelReportUnwinds => exact .inr (.inl ⟨rfl, _, rfl⟩)
  case cancelEnds => exact .inr (.inr rfl)
  all_goals cases hdecided

theorem Transition.lost_of_raised {point : CallPoint} {payload : Payload}
    (htransition : Transition view thread id
      (.call id (.stateChanged .cancellationRequested) point) signal executor next executor')
    (hraised : next.signal = .raised payload) :
    0 < tally Entry.isLostCancellation executor'.journal := by
  cases htransition with
  | callPanics | callUnwinds => simp [Entry.isLostCancellation]
  | aside houtside => simp [Frame.isCore] at houtside
  | _ => cases hraised

/-- Only a call that has looked at the state parks. -/
theorem Transition.parking_of_parked {call : Call}
    (htransition : Transition view thread id frame signal executor next executor')
    (hpushed : .call id call .parked ∈ next.frames) : frame = .call id call .parking := by
  cases htransition
  case aside hframes _ =>
    cases hframes _ (List.mem_append_left _ hpushed) (by simp [Frame.isCore])
  case callProceeds hpoints _ _ =>
    simp at hpushed
    obtain ⟨rfl, rfl⟩ := hpushed
    cases hpoints
    rfl
  all_goals simp at hpushed

/-- A call parks where the fragment goes on. -/
theorem Frame.continues_of_parked {world after : World} {call : Call}
    (hstep : frame.step world view thread signal = some (after, next))
    (hpushed : .call id call .parked ∈ next.frames) :
    (world.executors id).state.continues = true := by
  obtain rfl := (Frame.step_transition id hstep).parking_of_parked hpushed
  by_contra hstopped
  cases signal <;> simp [Frame.step, stepCall, hstopped] at hstep
  obtain ⟨-, rfl⟩ := hstep
  cases hpushed

/-- A token is taken from the thread that wakes up. -/
theorem Frame.tokensAfter_of_token {world : World} {owner : ThreadId}
    (htoken : world.tokens owner = true) :
    frame.tokensAfter world thread owner = true ∨
      (owner = thread ∧ ∃ id call, frame = .call id call .parked) := by
  fun_cases frame.tokensAfter world thread with
  | case1 id =>
    left
    unfold World.wakeWorker
    split
    · exact htoken
    · by_cases howner : owner = ‹ThreadId›
      · simp [World.setToken, overwrite, howner]
      · simp [World.setToken, overwrite, howner, htoken]
  | case2 id call =>
    by_cases howner : owner = thread
    · exact .inr ⟨howner, id, call, rfl⟩
    · exact .inl (by simp [World.setToken, overwrite, howner, htoken])
  | case3 => exact .inl htoken

end Transitions

namespace System

/-- No thread is parked in an advance of the tree without the token that wakes it. -/
def NoneStranded (system : System) (id : ExecutorId) : Prop :=
  ∀ thread index rest, system.frames thread = .call id (.next index) .parked :: rest →
    system.world.tokens thread = true

section WakeUps

variable {fragments : List Fragment} {host : Host} {permitted : Command → Prop}
  {system after : System} {id : ExecutorId} {thread owner : ThreadId} {frame : Frame}
  {rest below : List Frame} {next : Next} {index : Nat}

theorem not_awaits_of_parked {call : Call} {role : Role} :
    ¬ (Frame.call id call .parked).Awaits role := by
  rintro ⟨⟩

/-- Nothing stands on a parked frame. -/
theorem Advance.not_parked_beneath
    (hreach : (ofFragments fragments host).ReachableUnder permitted system) {call : Call}
    (hadvance : system.Advance after thread frame (.call id call .parked :: rest) next) :
    False := by
  have hlinked := hadvance.frames ▸ hreach.linked thread
  exact not_awaits_of_parked hlinked.awaits

/-- A thread that is parked after its step has just looked at the state. -/
theorem Advance.parks
    (hreach : (ofFragments fragments host).ReachableUnder permitted system) {call : Call}
    (hadvance : system.Advance after thread frame below next)
    (hframes : after.frames thread = .call id call .parked :: rest) :
    frame = .call id call .parking ∧ below = rest ∧ after.world = system.world ∧
      (system.executor id).state.continues = true := by
  have hown := hadvance.own.symm.trans hframes
  cases hnext : next.frames with
  | nil =>
    rw [hnext, List.nil_append] at hown
    subst hown
    exact (hadvance.not_parked_beneath hreach).elim
  | cons top pushed =>
    rw [hnext, List.cons_append] at hown
    obtain ⟨rfl, hbelow⟩ := List.cons.inj hown
    have hpushed : .call id call .parked ∈ next.frames := hnext ▸ List.mem_cons_self
    have hcontinues := Frame.continues_of_parked hadvance.step hpushed
    obtain rfl := (Frame.step_transition id hadvance.step).parking_of_parked hpushed
    have hgo : system.signal thread = .go :=
      hreach.signal_go hadvance.frames (by rintro role ⟨⟩)
    have hstep := hadvance.step
    rw [hgo] at hstep
    simp only [Frame.step, stepCall, hcontinues, if_true, Option.some.injEq, Prod.mk.injEq] at hstep
    obtain ⟨hworld, rfl⟩ := hstep
    obtain rfl : pushed = [] := (List.cons.inj hnext).2.symm
    exact ⟨rfl, hbelow, hworld.symm, hcontinues⟩

/-- A thread that is parked after a step was parked before, or parks in this step as the
fragment goes on. -/
theorem Advance.parked_cases
    (hreach : (ofFragments fragments host).ReachableUnder permitted system) {call : Call}
    (hadvance : system.Advance after thread frame below next)
    (hframes : after.frames owner = .call id call .parked :: rest) :
    (owner ≠ thread ∧ system.frames owner = .call id call .parked :: rest) ∨
      (system.executor id).state.continues = true := by
  by_cases howner : owner = thread
  · subst howner
    exact .inr (hadvance.parks hreach hframes).2.2.2
  · have hcore : (Frame.call id call .parked).isCore id = true := by simp [Frame.isCore]
    exact .inl ⟨howner, (hadvance.frames_of_core howner (hframes ▸ List.mem_cons_self)
      hcore).symm.trans hframes⟩

theorem NoneStranded.turnover {root : Frame} (hnone : system.NoneStranded id)
    (hturn : system.Turnover after thread root) : after.NoneStranded id := by
  intro owner index rest hframes
  have hsame := hturn.frames_of_core (hframes ▸ List.mem_cons_self)
    (show (Frame.call id (.next index) .parked).isCore id = true by simp [Frame.isCore])
  rw [hturn.tokens]
  exact hnone owner index rest (hsame.symm.trans hframes)

/-- Once a fragment has stopped, nobody parks any more, and nobody loses a token. -/
theorem NoneStranded.advance
    (hreach : (ofFragments fragments host).ReachableUnder permitted system)
    (hnone : system.NoneStranded id) (hstopped : (system.executor id).state.continues = false)
    (hadvance : system.Advance after thread frame below next) : after.NoneStranded id := by
  intro owner index rest hframes
  rcases hadvance.parked_cases hreach hframes with ⟨howner, hbefore⟩ | hcontinues
  · rw [(Frame.step_shared hadvance.step).2]
    refine (Frame.tokensAfter_of_token (hnone owner index rest hbefore)).resolve_right ?_
    rintro ⟨hsame, -⟩
    exact howner hsame
  · rw [hstopped] at hcontinues
    cases hcontinues

/-- A cancellation that returns leaves nobody parked without a token: who is parked in an
advance of the tree is the worker. -/
theorem Advance.noneStranded_of_wake
    (hreach : (ofFragments fragments host).ReachableUnder permitted system)
    (hadvance : system.Advance after thread (.cancel id .wake) below next) :
    after.NoneStranded id := by
  intro owner index rest hframes
  have hstopped := (hreach.released_of_cancel (hadvance.frames ▸ List.mem_cons_self)).2 rfl
  rcases hadvance.parked_cases hreach hframes with ⟨-, hbefore⟩ | hcontinues
  · obtain ⟨l, previous, hrun⟩ := hreach.advancing_of_next (hbefore ▸ List.mem_cons_self)
    obtain ⟨worker, hworker, hcourse⟩ := hreach.worker_of_run hrun rfl
    rw [hreach.course_of_run hrun (by simp)] at hcourse
    obtain rfl : owner = worker := Course.underWay.inj hcourse
    rw [System.executor] at hworker
    rw [(Frame.step_shared hadvance.step).2]
    simp [Frame.tokensAfter, World.wakeWorker, hworker, World.setToken, overwrite]
  · rw [hstopped] at hcontinues
    cases hcontinues

/-- What a stopped fragment is once nobody is left parked. -/
theorem ReachableUnder.noneStranded_later
    (hreach : (ofFragments fragments host).ReachableUnder permitted system)
    (hnone : system.NoneStranded id) (hstopped : (system.executor id).state.continues = false)
    {later : System} (hlater : system.ReachableUnder permitted later) : later.NoneStranded id := by
  refine (ReachableUnder.since (fun system => system.NoneStranded id ∧
    (system.executor id).state.continues = false) hreach ⟨hnone, hstopped⟩ ?_ ?_ hlater).1
  · rintro system after thread root hturn ⟨hnone, hstopped⟩
    rw [hturn.executor_eq]
    exact ⟨hnone.turnover hturn, hstopped⟩
  · rintro system after thread frame rest next hreach hadvance ⟨hnone, hstopped⟩
    exact ⟨hnone.advance hreach hstopped hadvance,
      (Frame.step_transition id hadvance.step).grows.stopped hstopped⟩

/-- From the return of a cancellation on nobody is left parked. -/
theorem noneStranded_of_returns (hreach : (ofFragments fragments host).Reachable system)
    {point : CancelPoint} (hreturns : system.Returns thread (.cancel id point) after)
    {later : System} (hlater : after.Reachable later) : later.NoneStranded id := by
  obtain ⟨before, last, rest, next, reply, hbefore, hlast, hrole, hreply⟩ :=
    hreturns.exists_last hreach
  obtain ⟨point', rfl⟩ := Frame.eq_cancel_of_role hrole
  have hunder := hbefore.unrestricted
  have htransition := Frame.step_transition id hlast.step
  obtain rfl := htransition.cancel_replied hreply
  have hstopped := (hunder.released_of_cancel (hlast.frames ▸ List.mem_cons_self)).2 rfl
  exact (hreach.of_returns hreturns).unrestricted.noneStranded_later
    (hlast.noneStranded_of_wake hunder) (htransition.grows.stopped hstopped) hlater.unrestricted

/-! ### While cancellations are in progress -/

/-- A cancellation that a panic of its report has come back to has lost its report. -/
theorem ReachableUnder.lost_of_raised
    (hreach : (ofFragments fragments host).ReachableUnder permitted system) {payload : Payload}
    (hframes : system.frames thread = .cancel id .announcing :: rest)
    (hsignal : system.signal thread = .raised payload) :
    0 < tally Entry.isLostCancellation (system.executor id).journal := by
  refine hreach.on_return id (fun executor _ caller signal => caller = .cancel id .announcing →
    ∀ payload, signal = .raised payload → 0 < tally Entry.isLostCancellation executor.journal)
    ?_ ?_ hframes (by simp [hsignal]) rfl payload hsignal
  · rintro system after thread frame caller rest next hreach hadvance htransition hawaits _ - rfl
      payload hraised
    generalize hrole : frame.role = role at hawaits
    cases hawaits with
    | cancelReport =>
      obtain ⟨point, rfl⟩ := Frame.eq_call_of_role hrole
      exact htransition.lost_of_raised hraised
  · intro system after thread frame rest next hreach hadvance htransition owner caller signal _ _
      hholds hcaller payload hraised
    exact Nat.lt_of_lt_of_le (hholds hcaller payload hraised)
      (tally_mono _ _ htransition.grows.journal)

/-- A cancellation past the decision on its request goes on to wake the worker, unless a
panic of its report ends it. -/
def IsWaking (system : System) (id : ExecutorId) : Prop :=
  ∃ thread point, .cancel id point ∈ system.frames thread ∧ point.isDecided = true

theorem IsWaking.advance
    (hreach : (ofFragments fragments host).ReachableUnder permitted system)
    (hwaking : system.IsWaking id) (hadvance : system.Advance after thread frame below next) :
    after.IsWaking id ∨ 0 < tally Entry.isLostCancellation (after.executor id).journal ∨
      after.NoneStranded id := by
  obtain ⟨owner, point, hmem, hdecided⟩ := hwaking
  by_cases howner : owner = thread
  · subst howner
    rw [hadvance.frames] at hmem
    rcases List.mem_cons.mp hmem with rfl | hbelow
    · have htransition := Frame.step_transition id hadvance.step
      rcases htransition.decided_cases hdecided with hnext | ⟨rfl, payload, hsignal⟩ | rfl
      · exact .inl ⟨owner, .wake, by simp [hadvance.own, hnext], rfl⟩
      · have hlost := hreach.lost_of_raised hadvance.frames hsignal
        exact .inr (.inl (Nat.lt_of_lt_of_le hlost (tally_mono _ _ htransition.grows.journal)))
      · exact .inr (.inr (hadvance.noneStranded_of_wake hreach))
    · refine .inl ⟨owner, point, ?_, hdecided⟩
      rw [hadvance.own]
      exact List.mem_append_right _ hbelow
  · have hsame := hadvance.same_of_busy howner (List.ne_nil_of_mem hmem)
    exact .inl ⟨owner, point, hsame.1 ▸ hmem, hdecided⟩

/-- A fragment with a requested cancellation is about to wake its worker, or has done so,
or has lost the cancellation. -/
theorem ReachableUnder.waking_or_noneStranded
    (hreach : (ofFragments fragments host).ReachableUnder permitted system)
    (hstate : (system.executor id).state = .cancellationRequested) :
    system.IsWaking id ∨ 0 < tally Entry.isLostCancellation (system.executor id).journal ∨
      system.NoneStranded id := by
  refine hreach.invariant (fun system => (system.executor id).state = .cancellationRequested →
    system.IsWaking id ∨ 0 < tally Entry.isLostCancellation (system.executor id).journal ∨
      system.NoneStranded id) ?_ ?_ ?_ hstate
  · intro hstate
    cases hstate
  · intro system after thread root hturn hholds hstate
    rw [hturn.executor_eq] at hstate ⊢
    rcases hholds hstate with ⟨owner, point, hmem, hdecided⟩ | hlost | hnone
    · have hcore : (Frame.cancel id point).isCore id = true := by simp [Frame.isCore]
      exact .inl ⟨owner, point, (hturn.same_of_core hmem hcore).1 ▸ hmem, hdecided⟩
    · exact .inr (.inl hlost)
    · exact .inr (.inr (hnone.turnover hturn))
  · intro system after thread frame rest next hreach hadvance hholds hstate
    have htransition := Frame.step_transition id hadvance.step
    rcases htransition.cancellationRequested_cases hstate with hbefore | hpushed
    · rcases hholds hbefore with hwaking | hlost | hnone
      · exact hwaking.advance hreach hadvance
      · exact .inr (.inl (Nat.lt_of_lt_of_le hlost (tally_mono _ _ htransition.grows.journal)))
      · refine .inr (.inr (hnone.advance hreach ?_ hadvance))
        rw [System.executor, hbefore]
        rfl
    · -- the request is accepted, and the worker is woken after its report
      refine .inl ⟨thread, .announcing, ?_, rfl⟩
      rw [hadvance.own]
      exact List.mem_append_left _ hpushed

/-! ### Waking up -/

/-- Who is parked with a token in an advance of a stopped tree returns. -/
theorem ReachableUnder.returns_of_token
    (hreach : (ofFragments fragments host).ReachableUnder permitted system)
    (hexit : system.world.exit = none) (hstopped : (system.executor id).state.continues = false)
    (hframes : system.frames thread = .call id (.next index) .parked :: rest)
    (htoken : system.world.tokens thread = true) :
    ∃ after, system.moves [.step thread, .step thread] = some after ∧
      after.frames thread = rest ∧ after.signal thread = .replied (.progress true) := by
  have hsignal := hreach.signal_go hframes fun role => not_awaits_of_parked
  have hwake : (Frame.call id (.next index) .parked).step system.world (system.view thread) thread
      (system.signal thread) =
        some (system.world.setToken thread false, .goto (.call id (.next index) .parking)) := by
    simp [hsignal, Frame.step, stepCall, htoken]
  obtain ⟨woken, hwoken, hworld, hadvance⟩ := exists_advance hexit hframes hwake
  have hlook : (Frame.call id (.next index) .parking).step woken.world (woken.view thread) thread
      (woken.signal thread) =
        some (woken.world.record id thread (.left (.next index) false),
          .reply (.progress true)) := by
    rw [System.executor] at hstopped
    simp [hadvance.ownSignal, hworld, Frame.step, stepCall, hstopped, Call.replyTo]
  obtain ⟨after, hafter, -, hadvance'⟩ := exists_advance (hworld ▸ hexit) hadvance.own hlook
  exact ⟨after, by simp [moves, System.move, hwoken, hafter], hadvance'.own, hadvance'.ownSignal⟩

end WakeUps

variable {fragments : List Fragment} {host : Host} {system : System}

/-- No cancelled worker is left parked.  Where the cancellation of a fragment is requested,
no cancellation of it is in progress, and none was ended by a panic of its report, whoever
is parked in an advance of the tree has its token.  A cancellation that has returned leaves
it so for good, also where the fragment had failed before.  Whoever is parked with its token
in the tree of a stopped fragment wakes up, looks at the state and returns. -/
theorem cancelled_worker_wakes (hreach : (ofFragments fragments host).Reachable system)
    (id : ExecutorId) :
    ((system.executor id).state = .cancellationRequested →
      (∀ thread point, .cancel id point ∉ system.frames thread) →
      tally Entry.isLostCancellation (system.executor id).journal = 0 →
      system.NoneStranded id) ∧
    (∀ thread after later, system.Returns thread (.cancel id .lockSetup) after →
      after.Reachable later → later.NoneStranded id) ∧
    (system.NoneStranded id → (system.executor id).state.continues = false →
      system.world.exit = none → ∀ thread index rest,
      system.frames thread = .call id (.next index) .parked :: rest →
      ∃ after, system.moves [.step thread, .step thread] = some after ∧
        after.frames thread = rest ∧ after.signal thread = .replied (.progress true)) := by
  have hunder := hreach.unrestricted
  refine ⟨fun hstate hidle hkept => ?_, ?_, ?_⟩
  · rcases hunder.waking_or_noneStranded hstate with ⟨thread, point, hmem, -⟩ | hlost | hnone
    · exact absurd hmem (hidle thread point)
    · omega
    · exact hnone
  · intro thread after later hreturns hlater
    exact noneStranded_of_returns hreach hreturns hlater
  · intro hnone hstopped hexit thread index rest hframes
    exact hunder.returns_of_token hexit hstopped hframes (hnone thread index rest hframes)

/-- A fragment whose tree parks when it is advanced. -/
def drowsy : Fragment :=
  { Fragment.vacant with script := { steps := [{ outcome := .park }] } }

/-- A cancellation that returns while the worker of such a fragment is parked: the worker has
its token, wakes up and returns from the advance. -/
theorem cancelled_worker_wakes_of_parked_tree :
    ∃ system after, (ofFragments [drowsy] { slots := { free := 0 } }).Reachable system ∧
      system.Returns 1 (.cancel 0 .lockSetup) after ∧
      (after.executor 0).state = .cancellationRequested ∧
      after.frames 0 = [.call 0 (.next 0) .parked, .run 0 (some 0) (.advancing none),
        .perform 0 .run .waiting] ∧
      after.NoneStranded 0 ∧ after.world.tokens 0 = true ∧
      ∃ later, after.moves [.step 0, .step 0] = some later ∧
        later.frames 0 = [.run 0 (some 0) (.advancing none), .perform 0 .run .waiting] ∧
        later.signal 0 = .replied (.progress true) := by
  obtain ⟨system, after, hreach, hreturns, hend⟩ := exists_returns_of_moves
    (ofFragments [drowsy] { slots := { free := 0 } })
    (.call (.act 0 .run) :: List.replicate 23 (.step 0) ++ [.call (.act 0 .cancel), .step 1])
    1 6 (fun system => (system.threads.map Thread.frames, (system.executor 0).state,
      tally Entry.isLostCancellation (system.executor 0).journal, system.world.exit))
    ([[.call 0 (.next 0) .parked, .run 0 (some 0) (.advancing none), .perform 0 .run .waiting],
      [.perform 0 .cancel .waiting]], .cancellationRequested, 0, none)
    (show _ = some [.cancel 0 .lockSetup, .perform 0 .cancel .waiting] from rfl)
    (by decide +kernel) rfl
  obtain ⟨hthreads, hstate, hkept, hexit⟩ : _ ∧ _ ∧ _ ∧ _ := by
    simpa only [Prod.mk.injEq] using hend
  have hframes (thread : ThreadId) : after.frames thread = _ :=
    (frames_eq_getD after thread).trans (by rw [hthreads])
  have hafter := hreach.of_returns hreturns
  have hidle (thread : ThreadId) (point : CancelPoint) :
      .cancel 0 point ∉ after.frames thread := by
    rw [hframes]
    rcases thread with _ | _ | thread <;> simp
  obtain ⟨hquiet, -, hwakes⟩ := cancelled_worker_wakes hafter 0
  have hnone := hquiet hstate hidle hkept
  have hreturned := (cancelled_worker_wakes hreach 0).2.1 1 after after hreturns .refl
  obtain ⟨later, hmoves, hrest, hreply⟩ := hwakes hreturned (by rw [hstate]; rfl) hexit 0 0 _
    (hframes 0)
  exact ⟨system, after, hreach, hreturns, hstate, hframes 0, hnone, hnone 0 0 _ (hframes 0),
    later, hmoves, hrest, hreply⟩

end System

end FragmentLifecycle
