import FragmentLifecycle.Proofs.CancelCalls
import FragmentLifecycle.Proofs.Resources
import FragmentLifecycle.Proofs.Succession

/-!
# A run that has been stopped

The run looks at the state before it builds and before each advance.  A cancellation asks
for its state inside the setup section, so no build follows a request that was there
before.  An advance may be about to be entered when the state changes, but only one, and
none where the thread of the run makes the change itself (`System.cancellation_stops_run`).
-/

namespace FragmentLifecycle

/-- The entries that stand for the request of a cancellation. -/
def Entry.isCancellation : Entry → Bool
  | .requested _ target => target = .cancellationRequested
  | _ => false

/-- Weighs the advances that are yet to be entered. -/
def Frame.nextDue : Frame → Nat
  | .call _ (.next _) .enter => 1
  | _ => 0

theorem Frame.call_of_nextDue {id : ExecutorId} {frame : Frame}
    (hweighs : 0 < within id Frame.nextDue frame) :
    ∃ index, frame = .call id (.next index) .enter := by
  obtain ⟨hcore, hweight⟩ := within_pos id _ hweighs
  cases frame with
  | call owner call point =>
    obtain rfl : owner = id := by simpa [Frame.isCore] using hcore
    cases call <;> cases point <;> first | exact ⟨_, rfl⟩ | cases hweight
  | _ => cases hweight

section Transitions

variable {view : LockView} {thread : ThreadId} {id : ExecutorId} {frame : Frame}
  {signal : Signal} {executor executor' : Executor} {next : Next}

/-- Advances are entered as they fall due, and fall due where the run finds that the
fragment goes on. -/
theorem Transition.next_balance
    (htransition : Transition view thread id frame signal executor next executor')
    (hcore : frame.isCore id = true) :
    tally (Entry.isEntered Call.isNext) executor'.journal +
        (next.frames.map (within id Frame.nextDue)).sum =
      tally (Entry.isEntered Call.isNext) executor.journal + frame.nextDue ∨
    ((∃ l previous, frame = .run id l (.check previous)) ∧ executor.state.continues = true ∧
      (next.frames.map (within id Frame.nextDue)).sum = 1 ∧
      executor'.journal = executor.journal) := by
  cases htransition
  case aside houtside _ _ => simp [houtside] at hcore
  case advances hstate => exact .inr ⟨⟨_, _, rfl⟩, hstate, by simp [Frame.nextDue], rfl⟩
  case callProceeds hpoints hsame hjournal =>
    left
    rw [hjournal]
    cases hpoints <;> simp [Frame.nextDue]
  case callEntered call hcall =>
    left
    cases call <;> simp [Frame.nextDue, Entry.isEntered, Call.isNext]
  all_goals
    left
    simp [Frame.nextDue, Entry.isEntered, Call.isNext]

/-- A build is entered from the frame that the run has called for it. -/
theorem Frame.Writes.build_of_entered {entry : Entry} (hwrites : frame.Writes id executor entry)
    (hentry : entry.isEntered Call.isBuild = true) : frame = .call id .build .enter := by
  cases hwrites with
  | @entered call => cases call <;> first | rfl | cases hentry
  | _ => cases hentry

theorem Frame.Writes.cancel_of_cancellation {entry : Entry}
    (hwrites : frame.Writes id executor entry) (hentry : entry.isCancellation = true) :
    frame = .cancel id .request := by
  cases hwrites <;> first | rfl | cases hentry

/-- The request of a cancellation leaves the fragment stopped. -/
theorem Transition.stopped_of_request
    (htransition : Transition view thread id (.cancel id .request) signal executor next executor') :
    executor'.state.continues = false := by
  cases htransition with
  | aside houtside => simp [Frame.isCore] at houtside
  | cancelAccepted hstate =>
    rw [Executor.state_request, State.decide_cancellationRequested, if_pos hstate]
    rfl
  | cancelIgnored hstate => exact State.continues_apply_decide _ hstate

/-- A build is called where the fragment goes on. -/
theorem Transition.build_pushed
    (htransition : Transition view thread id frame signal executor next executor')
    (hcore : frame.isCore id = true) (hpushed : .call id .build .enter ∈ next.frames) :
    executor.state.continues = true ∧ executor' = executor := by
  cases htransition
  case aside houtside _ _ => simp [houtside] at hcore
  case callProceeds hpoints _ _ => cases hpoints <;> simp at hpushed
  case buildBegins hstate => exact ⟨hstate, rfl⟩
  all_goals simp at hpushed

end Transitions

namespace System

section Stopped

variable {fragments : List Fragment} {host : Host} {permitted : Command → Prop}
  {system after : System} {id : ExecutorId} {thread : ThreadId} {frame : Frame}
  {rest : List Frame} {next : Next}

/-! ### No build -/

/-- The fragment has stopped where a cancellation has asked for its state. -/
theorem ReachableUnder.stopped_of_cancellation
    (hreach : (ofFragments fragments host).ReachableUnder permitted system)
    (hrequest : 0 < tally Entry.isCancellation (system.executor id).journal) :
    (system.executor id).state.continues = false := by
  refine hreach.always id (fun executor => 0 < tally Entry.isCancellation executor.journal →
    executor.state.continues = false) ?_ ?_ hrequest
  · intro fragment hnone
    cases hnone
  · intro system after thread frame rest next _ _ htransition hholds hrequest
    rcases htransition.journal_cases with hsame | ⟨entry, hwrites, hlonger⟩
    · rw [hsame] at hrequest
      exact htransition.grows.stopped (hholds hrequest)
    · by_cases hentry : entry.isCancellation = true
      · obtain rfl := hwrites.cancel_of_cancellation hentry
        exact htransition.stopped_of_request
      · rw [hlonger, tally_append] at hrequest
        simp only [hentry, Bool.toNat_false, Nat.add_zero] at hrequest
        exact htransition.grows.stopped (hholds hrequest)

/-- Where the builder is about to be entered, no cancellation has asked for its state: the
request and the call of the builder are both made inside the setup section. -/
theorem ReachableUnder.not_requested_of_build
    (hreach : (ofFragments fragments host).ReachableUnder permitted system)
    (hmem : .call id .build .enter ∈ system.frames thread) :
    tally Entry.isCancellation (system.executor id).journal = 0 := by
  refine hreach.innermost id (fun frame => frame = .call id .build .enter)
    (fun system _ _ => tally Entry.isCancellation (system.executor id).journal = 0)
    ?_ ?_ ?_ ?_ ?_ hmem (by simp [Frame.isCore]) rfl
  · rintro frame role rfl hawaits
    cases hawaits
  · rintro frame ⟨⟩ ⟨⟩
  · intro system after thread root hturn owner frame _ hnone
    rwa [hturn.executor_eq]
  · rintro system after thread frame rest next hreach hadvance htransition hcore _ hpushed rfl
    obtain ⟨hcontinues, hsame⟩ := htransition.build_pushed hcore hpushed
    rw [hsame]
    by_contra hrequest
    rw [hreach.stopped_of_cancellation (Nat.pos_of_ne_zero hrequest)] at hcontinues
    cases hcontinues
  · rintro system after thread frame rest next hreach hadvance htransition owner _ howner hother rfl
      - hnone
    rcases htransition.journal_cases with hsame | ⟨entry, hwrites, hlonger⟩
    · rw [hsame]
      exact hnone
    · rw [hlonger, tally_append, hnone]
      by_contra hentry
      obtain rfl := hwrites.cancel_of_cancellation (by simpa using hentry)
      obtain ⟨l, hbuilding⟩ := hreach.building_of_build hother
      have hrun : 0 < within id Frame.setup (.run id l .building) := by
        simp [Frame.setup, RunPoint.holdsSetup]
      have hcancel : 0 < within id Frame.setup (.cancel id .request) := by
        simp [Frame.setup, CancelPoint.holdsSetup]
      exact howner
        (hreach.setup_exclusive hbuilding (hadvance.frames ▸ List.mem_cons_self) hrun hcancel)

/-- A builder that was not entered before a cancellation asked for its state never is. -/
theorem ReachableUnder.never_built
    (hreach : (ofFragments fragments host).ReachableUnder permitted system)
    (hrequest : 0 < tally Entry.isCancellation (system.executor id).journal)
    (hunbuilt : tally (Entry.isEntered Call.isBuild) (system.executor id).journal = 0)
    {later : System} (hlater : system.ReachableUnder permitted later) :
    tally (Entry.isEntered Call.isBuild) (later.executor id).journal = 0 := by
  refine (ReachableUnder.since (fun system =>
    0 < tally Entry.isCancellation (system.executor id).journal ∧
      tally (Entry.isEntered Call.isBuild) (system.executor id).journal = 0) hreach
    ⟨hrequest, hunbuilt⟩ ?_ ?_ hlater).2
  · intro system after thread root hturn hholds
    rw [hturn.executor_eq]
    exact hholds
  · rintro system after thread frame rest next hreach hadvance ⟨hrequest, hunbuilt⟩
    have htransition := Frame.step_transition id hadvance.step
    refine ⟨Nat.lt_of_lt_of_le hrequest (tally_mono _ _ htransition.grows.journal), ?_⟩
    rcases htransition.journal_cases with hsame | ⟨entry, hwrites, hlonger⟩
    · rw [System.executor, hsame]
      exact hunbuilt
    · by_cases hentry : entry.isEntered Call.isBuild = true
      · obtain rfl := hwrites.build_of_entered hentry
        have hnone := hreach.not_requested_of_build (hadvance.frames ▸ List.mem_cons_self)
        omega
      · rw [System.executor, hlonger, tally_append]
        simp only [hentry, Bool.toNat_false, Nat.add_zero]
        exact hunbuilt

/-! ### One advance at most -/

/-- At most one advance is about to be entered. -/
theorem ReachableUnder.nextDue_le
    (hreach : (ofFragments fragments host).ReachableUnder permitted system) (id : ExecutorId) :
    system.total (within id Frame.nextDue) ≤ 1 := by
  refine hreach.invariant (fun system => system.total (within id Frame.nextDue) ≤ 1)
    (Nat.zero_le 1) ?_ ?_
  · intro system after thread root hturn hle
    rwa [hturn.total_within]
  · intro system after thread frame rest next hreach hadvance hle
    have htransition := Frame.step_transition id hadvance.step
    by_cases hcore : frame.isCore id = true
    · have hlaw := hadvance.total_within id Frame.nextDue
      rw [within, if_pos hcore] at hlaw
      rcases htransition.next_balance hcore with hbalance | ⟨⟨l, previous, rfl⟩, -, hone, -⟩
      · have hmono := tally_mono (Entry.isEntered Call.isNext) _ htransition.grows.journal
        omega
      · -- the run that checks has no advance under way
        have hnone : system.total (within id Frame.nextDue) = 0 := by
          refine total_eq_zero _ fun owner other hmem => ?_
          by_contra hweighs
          obtain ⟨index, rfl⟩ := Frame.call_of_nextDue (Nat.pos_of_ne_zero hweighs)
          obtain ⟨l', previous', hrun⟩ := hreach.advancing_of_next hmem
          have hsame := hreach.live_unique hrun (by simp) (hadvance.frames ▸ List.mem_cons_self)
            (by simp)
          cases hsame.2.2
        omega
    · rwa [hadvance.total_outside (by simpa using hcore) Frame.nextDue
        (by rintro frame ⟨⟩ <;> rfl)]

/-- A fragment that has stopped enters the advances that were due, and no others. -/
theorem Advance.next_total (hadvance : system.Advance after thread frame rest next)
    (hstopped : (system.executor id).state.continues = false) :
    tally (Entry.isEntered Call.isNext) (after.executor id).journal +
        after.total (within id Frame.nextDue) =
      tally (Entry.isEntered Call.isNext) (system.executor id).journal +
        system.total (within id Frame.nextDue) := by
  have htransition := Frame.step_transition id hadvance.step
  simp only [System.executor] at hstopped ⊢
  by_cases hcore : frame.isCore id = true
  · have hlaw := hadvance.total_within id Frame.nextDue
    rw [within, if_pos hcore] at hlaw
    rcases htransition.next_balance hcore with hbalance | ⟨-, hcontinues, -⟩
    · omega
    · rw [hstopped] at hcontinues
      cases hcontinues
  · have houtside : frame.isCore id = false := by simpa using hcore
    obtain ⟨-, hsame⟩ := htransition.outside houtside
    rw [hsame.tally_eq fun _ => rfl,
      hadvance.total_outside houtside Frame.nextDue (by rintro frame ⟨⟩ <;> rfl)]

theorem ReachableUnder.next_total
    (hreach : (ofFragments fragments host).ReachableUnder permitted system)
    (hstopped : (system.executor id).state.continues = false) {later : System}
    (hlater : system.ReachableUnder permitted later) :
    tally (Entry.isEntered Call.isNext) (later.executor id).journal +
        later.total (within id Frame.nextDue) =
      tally (Entry.isEntered Call.isNext) (system.executor id).journal +
        system.total (within id Frame.nextDue) := by
  refine (ReachableUnder.since (fun later => (later.executor id).state.continues = false ∧
    tally (Entry.isEntered Call.isNext) (later.executor id).journal +
        later.total (within id Frame.nextDue) =
      tally (Entry.isEntered Call.isNext) (system.executor id).journal +
        system.total (within id Frame.nextDue)) hreach ⟨hstopped, rfl⟩ ?_ ?_ hlater).2
  · intro system after thread root hturn hholds
    rw [hturn.executor_eq, hturn.total_within]
    exact hholds
  · rintro system after thread frame rest next hreach hadvance ⟨hstopped, htotal⟩
    have hafter := (Frame.step_transition id hadvance.step).grows.stopped hstopped
    exact ⟨hafter, (hadvance.next_total hstopped).trans htotal⟩

/-- Where the thread of the run stops the fragment, no advance is due. -/
theorem ReachableUnder.nextDue_of_own_change
    (hreach : (ofFragments fragments host).ReachableUnder permitted system)
    (hcourse : (system.executor id).course = .underWay thread)
    (hstep : system.step thread = some after)
    (hcontinues : (system.executor id).state.continues = true)
    (hstopped : (after.executor id).state.continues = false) :
    after.total (within id Frame.nextDue) = 0 := by
  have hafter : (ofFragments fragments host).ReachableUnder permitted after :=
    hreach.move (.step thread) trivial hstep
  obtain ⟨frame, rest, next, hadvance⟩ := advance_of_step hstep
  have htransition := Frame.step_transition id hadvance.step
  have hmono := tally_mono (Entry.isEntered Call.isNext) _ htransition.grows.journal
  refine total_eq_zero _ fun owner other hmem => ?_
  by_contra hweighs
  obtain ⟨index, rfl⟩ := Frame.call_of_nextDue (Nat.pos_of_ne_zero hweighs)
  obtain ⟨l, previous, hrun⟩ := hafter.advancing_of_next hmem
  have hthread : (after.executor id).course.thread? = some thread :=
    hadvance.thread_of_course hreach (congrArg Course.thread? hcourse)
  rw [hafter.course_of_run hrun (by simp)] at hthread
  obtain rfl : owner = thread := Option.some.inj hthread
  have hlifecycle : (Frame.call id (.next index) .enter).isCore id = true := by
    simp [Frame.isCore]
  rcases hadvance.mem_cases hmem hlifecycle with ⟨-, hpushed⟩ | hbeside
  · rcases htransition.state_cases with hsame | ⟨target, hasks, -⟩
    · rw [System.executor, hsame] at hstopped
      rw [System.executor, hstopped] at hcontinues
      cases hcontinues
    · -- a frame that asks for a state calls no advance
      have hpushes : within id Frame.nextDue (.call id (.next index) .enter) ≤
          (next.frames.map (within id Frame.nextDue)).sum :=
        List.le_sum_of_mem (List.mem_map_of_mem hpushed)
      have hasking : frame.isCore id = true ∧ frame.nextDue = 0 ∧
          ∀ l previous, frame ≠ .run id l (.check previous) := by
        cases hasks <;> simp [Frame.isCore, Frame.nextDue]
      obtain ⟨hcore, hnone, hother⟩ := hasking
      rcases htransition.next_balance hcore with hbalance | ⟨⟨l, previous, hcheck⟩, -⟩
      · omega
      · exact hother l previous hcheck
  · rcases hbeside with ⟨-, hrest⟩ | ⟨hne, -⟩
    · obtain ⟨role, hawaits⟩ := (hadvance.frames ▸ hreach.linked owner).exists_callee hrest
      cases hawaits
    · exact hne rfl

end Stopped

variable {fragments : List Fragment} {host : Host} {system : System}

/-- A cancellation is final and stops the run.  When a call that cancels has returned, each
fragment that it was to cancel has stopped for good.  If a cancellation asks for its state
before the builder is entered, the builder never is.  Once the fragment has stopped, at most one
more advance is entered, the one that the run was about to enter; and none where the thread
of the run made the change. -/
theorem cancellation_stops_run (hreach : (ofFragments fragments host).Reachable system)
    (id : ExecutorId) :
    (∀ thread frame after, system.Returns thread frame after → id ∈ frame.cancels system.world →
      ∀ later, after.Reachable later → (later.executor id).state.continues = false) ∧
      (∀ record ∈ (system.executor id).journal, record.entry.isCancellation = true →
        tally (Entry.isEntered Call.isBuild) (system.executor id).journal = 0 →
        ∀ later, system.Reachable later →
          tally (Entry.isEntered Call.isBuild) (later.executor id).journal = 0) ∧
      ((system.executor id).state = .cancellationRequested ∨
          (system.executor id).state.isTerminal = true →
        ∀ later, system.Reachable later →
          tally (Entry.isEntered Call.isNext) (later.executor id).journal ≤
            tally (Entry.isEntered Call.isNext) (system.executor id).journal + 1) ∧
      (∀ thread after, (system.executor id).course = .underWay thread →
        system.step thread = some after → (system.executor id).state.continues = true →
        (after.executor id).state.continues = false → ∀ later, after.Reachable later →
          tally (Entry.isEntered Call.isNext) (later.executor id).journal =
            tally (Entry.isEntered Call.isNext) (after.executor id).journal) := by
  have hunder := hreach.unrestricted
  refine ⟨?_, ?_, ?_, ?_⟩
  · intro thread frame after hreturns hcancels later hlater
    exact (hlater.unrestricted.grows id).stopped (stopped_of_returns hreach hreturns hcancels)
  · intro record hmem hrequest hunbuilt later hlater
    have hasked : 0 < tally Entry.isCancellation (system.executor id).journal :=
      (tally_pos_iff _ _).mpr ⟨record, hmem, hrequest⟩
    exact hunder.never_built hasked hunbuilt hlater.unrestricted
  · intro hstate later hlater
    have hstopped : (system.executor id).state.continues = false := by
      rcases hstate with hrequested | hterminal
      · rw [hrequested]
        rfl
      · exact State.continues_of_isTerminal hterminal
    have htotal := hunder.next_total hstopped hlater.unrestricted
    have hdue := hunder.nextDue_le id
    omega
  · intro thread after hcourse hstep hcontinues hstopped later hlater
    have hafter : (ofFragments fragments host).Reachable after := .move (.step thread) hreach hstep
    have hnone := hunder.nextDue_of_own_change hcourse hstep hcontinues hstopped
    have htotal := hafter.unrestricted.next_total hstopped hlater.unrestricted
    have hmono := tally_mono (Entry.isEntered Call.isNext) _ (hlater.unrestricted.grows id).journal
    omega

/-- Moves that host a fragment, bring its run to an advance and call to cancel all. -/
private def hostedAdvance : List Move :=
  .call (.start 0 none) :: List.replicate 4 (.step 0) ++ List.replicate 20 (.step 1) ++
    [.call (.host (.cancelAll []))]

/-- A call that cancels all fragments while the run of one is about to advance: the advance
is entered all the same, and it is the last. -/
theorem cancellation_stops_run_of_cancelled_host :
    ∃ system after, (ofFragments [.vacant] { slots := { free := 1 } }).Reachable system ∧
      (system.executor 0).state = .running ∧
      0 ∈ (Frame.host (.cancelAll []) .start).cancels system.world ∧
      system.Returns 2 (.host (.cancelAll []) .start) after ∧
      tally (Entry.isEntered Call.isNext) (after.executor 0).journal = 0 ∧
      (∃ later, after.Reachable later ∧
        tally (Entry.isEntered Call.isNext) (later.executor 0).journal = 1) ∧
      ∀ later, after.Reachable later → (later.executor 0).state.continues = false ∧
        tally (Entry.isEntered Call.isNext) (later.executor 0).journal ≤ 1 := by
  have hbegin : ((ofFragments [.vacant] { slots := { free := 1 } }).moves hostedAdvance).map
      (fun system => ((system.executor 0).state, system.world.host.running.map Prod.snd,
        system.frames 2)) = some (.running, [0], [.host (.cancelAll []) .start]) := rfl
  have hheights : ∀ taken ≤ 10, ((ofFragments [.vacant] { slots := { free := 1 } }).moves
      (hostedAdvance ++ List.replicate (taken + 1) (.step 2))).map
        (fun system => decide (0 < (system.frames 2).length)) = some true := by
    decide +kernel
  have hafter : ((ofFragments [.vacant] { slots := { free := 1 } }).moves
      (hostedAdvance ++ List.replicate 12 (.step 2))).map
        (fun system => ((system.executor 0).state, system.frames 2, system.signal 2,
          tally (Entry.isEntered Call.isNext) (system.executor 0).journal)) =
        some (.cancellationRequested, [], .replied (.answer .none), 0) := rfl
  have hlate : ((ofFragments [.vacant] { slots := { free := 1 } }).moves
      (hostedAdvance ++ List.replicate 12 (.step 2) ++ [.step 1])).map
        (fun system => tally (Entry.isEntered Call.isNext) (system.executor 0).journal) =
        some 1 := rfl
  obtain ⟨system, hsystem, hend⟩ := Option.map_eq_some_iff.mp hbegin
  obtain ⟨hstate, hrunning, hframes⟩ : _ ∧ _ ∧ _ := by simpa only [Prod.mk.injEq] using hend
  have hmoved (moves : List Move) : system.moves moves =
      (ofFragments [.vacant] { slots := { free := 1 } }).moves (hostedAdvance ++ moves) := by
    rw [moves_append, hsystem, Option.bind_some]
  rw [← hmoved] at hafter
  obtain ⟨after, hcancelled, hend⟩ := Option.map_eq_some_iff.mp hafter
  obtain ⟨hrequested, hover, hreply, hnone⟩ : _ ∧ _ ∧ _ ∧ _ := by
    simpa only [Prod.mk.injEq] using hend
  rw [List.append_assoc, ← hmoved, moves_append, hcancelled, Option.bind_some] at hlate
  obtain ⟨later, hlater, hone⟩ := Option.map_eq_some_iff.mp hlate
  have hreach : (ofFragments [.vacant] { slots := { free := 1 } }).Reachable system :=
    Reachable.refl.of_moves hsystem
  have hcancels : 0 ∈ (Frame.host (.cancelAll []) .start).cancels system.world := by
    rw [Frame.cancels, ((system.world.host.listing_perm []).map Prod.snd).mem_iff, hrunning]
    exact List.mem_singleton_self 0
  have hreturns : system.Returns 2 (.host (.cancelAll []) .start) after := by
    obtain ⟨started, hstart, hrest⟩ := Option.bind_eq_some_iff.mp hcancelled
    refine returns_of_steps hframes hstart (fun taken htaken => ?_) hrest hover hreply
    have hheight := hheights taken htaken
    rw [← hmoved] at hheight
    obtain ⟨before, hbefore, hhigh⟩ := Option.map_eq_some_iff.mp hheight
    obtain ⟨same, hsame, hbefore⟩ := Option.bind_eq_some_iff.mp hbefore
    obtain rfl : same = started := Option.some.inj (hsame.symm.trans hstart)
    exact ⟨before, hbefore, of_decide_eq_true hhigh⟩
  have hstops := (cancellation_stops_run hreach 0).1 2 _ after hreturns hcancels
  have hlast := (cancellation_stops_run (hreach.of_moves hcancelled) 0).2.2.1 (.inl hrequested)
  rw [hnone, Nat.zero_add] at hlast
  exact ⟨system, after, hreach, hstate, hcancels, hreturns, hnone,
    ⟨later, Reachable.refl.of_moves hlater, hone⟩,
    fun next hnext => ⟨hstops next hnext, hlast next hnext⟩⟩

end System

end FragmentLifecycle
