import FragmentLifecycle.Proofs.FailurePaths

/-!
# The failures behind an outcome

Every failure of a fragment is recorded, and the failed state asked for, before the run
reads the state that it reports, and nothing else is recorded but what was handed to a
sink.  So the outcome of a run can be told from its failures and from the cancellations
that were accepted (`System.outcome_of_report`).
-/

namespace FragmentLifecycle

namespace System

section Failures

variable {fragments : List Fragment} {host : Host} {permitted : Command → Prop}
  {system after : System} {id : ExecutorId} {thread owner : ThreadId} {role : Role}
  {cause : Fault} {frame : Frame} {rest : List Frame} {next : Next} {entry : Entry}
  {seen : List Record}

/-- Where the reporter is told that the fragment runs, the run announces it. -/
theorem ReachableUnder.announcing_of_call
    (hreach : (ofFragments fragments host).ReachableUnder permitted system) {point : CallPoint}
    {caller : Frame} (hpair : [.call id (.stateChanged .running) point, caller] <:+:
      system.frames thread) (hawaits : caller.Awaits (.call id (.stateChanged .running))) :
    ∃ l, caller = .run id l .announcing := by
  have hunconcluded : ∀ l, caller ≠ .run id l .reporting := by
    refine hreach.on_call (fun _ _ callee caller => ∀ point,
      callee = .call id (.stateChanged .running) point → ∀ l, caller ≠ .run id l .reporting)
      ?_ ?_ ?_ ?_ hpair point rfl
    · intro system after thread root _ owner callee caller hholds
      exact hholds
    · rintro system after thread frame rest _ _ hreach hadvance point rfl l rfl
      have hlinks := Frame.step_links hadvance.step
      obtain ⟨l', point', rfl⟩ := Frame.eq_run_of_role hlinks.1.symm
      have hsettled := hreach.settled (hadvance.frames ▸ List.mem_cons_self)
      have htransition := Frame.step_transition id hadvance.step
      simp only [System.executor] at hsettled
      generalize system.world.executors id = executor, after.world.executors id = executor',
        system.signal thread = signal at htransition hsettled
      generalize hnext : Next.call _ _ = next at htransition
      cases htransition
      case concludes =>
        have hstate : executor.state = .running := by simp_all
        have hterminal := hsettled.terminal rfl
        rw [hstate] at hterminal
        cases hterminal
      case aside houtside _ _ => simp [Frame.isCore] at houtside
      all_goals cases hnext
    · rintro system after thread frame caller rest next hreach hadvance hholds callee - hrole point
        rfl
      obtain ⟨point', rfl⟩ := Frame.eq_call_of_role hrole.symm
      exact hholds point' rfl
    · intro system after thread frame rest next _ _ owner callee caller _ _ hholds
      exact hholds
  cases hawaits with
  | running => exact ⟨_, rfl⟩
  | stateReport => exact absurd rfl (hunconcluded _)
  | entry hentry => cases (Action.entry?_eq_call hentry).2.2

/-- A call that has ended hands its end to the frame that waits for it. -/
theorem Advance.end_of_left
    (hreach : (ofFragments fragments host).ReachableUnder permitted system)
    (hadvance : system.Advance after thread frame rest next) {call : Call} {unwound : Bool}
    (hwrites : frame.Writes id (system.executor id) (.left call unwound))
    (hjournal : (after.executor id).journal =
      (system.executor id).journal ++ [⟨thread, .left call unwound⟩]) :
    ∃ caller below, after.frames thread = caller :: below ∧ caller.Awaits (.call id call) ∧
      (call = .stateChanged .running → ∃ l, caller = .run id l .announcing) ∧
      ((unwound = true ∧ ∃ payload, after.signal thread = .raised payload) ∨
        (unwound = false ∧ ∀ fault,
          ((system.executor id).fragment.script.planOf call).outcome = .error fault →
            after.signal thread = .replied (call.replyTo (.failed fault)))) := by
  obtain ⟨point, rfl⟩ : ∃ point, frame = .call id call point := by
    cases hwrites <;> exact ⟨_, rfl⟩
  have hframes := hadvance.frames
  have htransition := Frame.step_transition id hadvance.step
  have hplays := hreach.plays (hframes ▸ List.mem_cons_self)
  obtain ⟨hgone, hend⟩ := htransition.signal_of_left hplays hjournal
  have hlinked := hframes ▸ hreach.linked thread
  cases rest with
  | nil => cases hlinked
  | cons caller below =>
    refine ⟨caller, below, by simp [hadvance.own, hgone], hlinked.awaits, ?_,
      hadvance.ownSignal ▸ hend⟩
    rintro rfl
    have hpair : [.call id (.stateChanged .running) point, caller] <:+: system.frames thread := by
      rw [hframes]
      exact (List.prefix_append [_, caller] below).isInfix
    exact hreach.announcing_of_call hpair hlinked.awaits

/-- The record of a failure is written where its result is handed to the frame that is to
record it. -/
theorem Advance.conveys
    (hreach : (ofFragments fragments host).ReachableUnder permitted system)
    (hadvance : system.Advance after thread frame rest next)
    (hwrites : frame.Writes id (system.executor id) entry)
    (hjournal : (after.executor id).journal = (system.executor id).journal ++ [⟨thread, entry⟩])
    (htells : entry.Tells (system.executor id).fragment.script id role cause) :
    ∃ cause, entry.Tells (system.executor id).fragment.script id role cause ∧
      Conveys id role cause (after.frames thread) (after.signal thread) := by
  cases htells with
  | @erred call fault hcall houtcome =>
    obtain ⟨caller, below, hframes, hawaits, -, hsignal⟩ :=
      hadvance.end_of_left hreach hwrites hjournal
    have hreplied := (hsignal.resolve_left (by simp)).2 fault houtcome
    refine ⟨_, .erred hcall houtcome, ?_⟩
    rw [hframes, hreplied]
    cases hawaits with
    | build => exact .returned .built
    | next => exact .returned .advanced
    | entry hentry =>
      rw [(Action.entry?_eq_call hentry).2.2] at hcall
      cases hcall
    | _ => cases hcall
  | @panicked call _ hcall =>
    obtain ⟨caller, below, hframes, hawaits, hannounced, hsignal⟩ :=
      hadvance.end_of_left hreach hwrites hjournal
    obtain ⟨payload, hraised⟩ := (hsignal.resolve_right (by simp)).2
    refine ⟨_, .panicked payload hcall, ?_⟩
    rw [hframes, hraised]
    rcases hcall with hcall | rfl
    · cases hawaits with
      | build | next => exact .raised rfl
      | entry hentry =>
        rw [(Action.entry?_eq_call hentry).2.2] at hcall
        cases hcall
      | _ => cases hcall
    · obtain ⟨l, rfl⟩ := hannounced rfl
      exact .raised rfl
  | @refused current hrefused =>
    have htransition := Frame.step_transition id hadvance.step
    refine ⟨_, .refused hrefused, ?_⟩
    rw [hadvance.own, hadvance.ownSignal]
    simp only [System.executor] at htransition hwrites hjournal
    generalize system.world.executors id = executor, after.world.executors id = executor',
      system.signal thread = signal at htransition hwrites hjournal
    cases hwrites with
    | running =>
      cases htransition with
      | aside houtside => simp [Frame.isCore] at houtside
      | runAccepted hstate =>
        rw [hstate] at hrefused
        cases hrefused
      | runRefused =>
        rw [← (Fault.IsInternal.refused executor.state .running).settled]
        exact .returned .due
  | unclosed houtcome =>
    obtain ⟨caller, below, hframes, hawaits, -, hsignal⟩ :=
      hadvance.end_of_left hreach hwrites hjournal
    have hreplied := (hsignal.resolve_left (by simp)).2 _ houtcome
    refine ⟨_, .unclosed houtcome, ?_⟩
    rw [hframes, hreplied]
    cases hawaits with
    | closeRoot => exact .unclosed
    | entry hentry => cases (Action.entry?_eq_call hentry).2.2
  | closePanicked =>
    obtain ⟨caller, below, hframes, hawaits, -, hsignal⟩ :=
      hadvance.end_of_left hreach hwrites hjournal
    obtain ⟨payload, hraised⟩ := (hsignal.resolve_right (by simp)).2
    refine ⟨_, .closePanicked payload, ?_⟩
    rw [hframes, hraised]
    cases hawaits with
    | closeRoot => exact .closePanicked
    | entry hentry => cases (Action.entry?_eq_call hentry).2.2

/-! ### The course of a failure -/

/-- How far a failure has come since it was told by the last record of `seen`: it is on its
way, it was recorded, or it was lost with its run. -/
inductive FailureComes (system : System) (id : ExecutorId) (thread : ThreadId) (role : Role)
    (cause : Fault) (seen : List Record) : Prop
  | conveyed (hgrows : seen <+: (system.executor id).journal)
      (hconveys : Conveys id role cause (system.frames thread) (system.signal thread))
  | recorded {current : State} {later : List Record}
      (hjournal : (system.executor id).journal = seen ++ later)
      (htook : TookUp thread cause current later)
      (hcurrent : role = .run id → current ≠ .finished)
  | lost (hcourse : (system.executor id).course = .unwound thread)

namespace FailureComes

theorem turnover {root : Frame} (hcomes : system.FailureComes id thread role cause seen)
    (hturn : system.Turnover after owner root) : after.FailureComes id thread role cause seen := by
  cases hcomes with
  | conveyed hgrows hconveys =>
    obtain ⟨frame, hmem, hcore⟩ := hconveys.exists_core
    obtain ⟨hframes, hsignal⟩ := hturn.same_of_core hmem hcore
    rw [← hframes, ← hsignal] at hconveys
    exact .conveyed (hturn.executor_eq id ▸ hgrows) hconveys
  | recorded hjournal htook hcurrent =>
    exact .recorded (hturn.executor_eq id ▸ hjournal) htook hcurrent
  | lost hcourse => exact .lost (hturn.executor_eq id ▸ hcourse)

/-- The request that follows the record of a failure takes it up. -/
theorem request (hreach : (ofFragments fragments host).ReachableUnder permitted system)
    {record : Record} (hgrows : seen ++ [record] <+: (system.executor id).journal)
    (howner : record.thread = thread) (hother : record.entry ≠ .recorded cause) {caller : Frame}
    {below : List Frame} (hcaller : caller.role = role)
    (hawaits : caller.Awaits (.fail id cause))
    (hadvance : system.Advance after thread (.fail id cause .request) (caller :: below) next) :
    after.FailureComes id thread role cause (seen ++ [record]) := by
  have hmem : caller ∈ system.frames thread := by simp [hadvance.frames]
  have hlast := hreach.cause_of_failure (hadvance.frames ▸ List.mem_cons_self)
  have htransition := Frame.step_transition id hadvance.step
  obtain ⟨later, hlater⟩ := hgrows
  rw [List.append_assoc, List.singleton_append] at hlater
  rw [← hlater, ← howner] at hlast
  have hjournal : (after.executor id).journal = (system.executor id).journal ++
      [⟨thread, .requested (system.executor id).state .failed⟩] := by
    simp only [System.executor]
    generalize system.world.executors id = executor, after.world.executors id = executor',
      system.signal thread = signal at htransition ⊢
    cases htransition with
    | aside houtside => simp [Frame.isCore] at houtside
    | failureRequested => rfl
  have htook : TookUp thread cause (system.executor id).state
      (later ++ [⟨thread, .requested (system.executor id).state .failed⟩]) :=
    ⟨later, [], rfl, howner ▸ hlast.since.of_cons hother⟩
  refine .recorded ?_ htook ?_
  · rw [hjournal, ← hlater]
    simp
  · rintro rfl hfinished
    obtain ⟨l, point, rfl⟩ := Frame.eq_run_of_role hcaller
    cases hawaits
    exact hreach.unfinished_of_recording hmem (.inl hfinished)

theorem advance (hreach : (ofFragments fragments host).ReachableUnder permitted system)
    {record : Record} (howner : record.thread = thread)
    (hother : ∀ cause, record.entry ≠ .recorded cause)
    (hcomes : system.FailureComes id thread role cause (seen ++ [record]))
    (hadvance : system.Advance after owner frame rest next) :
    after.FailureComes id thread role cause (seen ++ [record]) := by
  have hgrowth := (Frame.step_transition id hadvance.step).grows
  cases hcomes with
  | conveyed hgrows hconveys =>
    have hlonger := hgrows.trans hgrowth.journal
    by_cases hmover : thread = owner
    · subst hmover
      rw [hadvance.frames] at hconveys
      rcases hconveys.step hadvance.step with
        hstill | hlost | ⟨rfl, caller, below, rfl, hcaller, hawaits⟩
      · rw [← hadvance.own, ← hadvance.ownSignal] at hstill
        exact .conveyed hlonger hstill
      · exact .lost hlost
      · exact request hreach hgrows howner (hother cause) hcaller hawaits hadvance
    · obtain ⟨top, hmem, -⟩ := hconveys.exists_core
      obtain ⟨hframes, hsignal⟩ := hadvance.same_of_busy hmover (List.ne_nil_of_mem hmem)
      rw [← hframes, ← hsignal] at hconveys
      exact .conveyed hlonger hconveys
  | recorded hjournal htook hcurrent =>
    obtain ⟨more, hmore⟩ := hgrowth.journal
    refine .recorded ?_ (htook.append more) hcurrent
    rw [← List.append_assoc, ← hjournal]
    exact hmore.symm
  | lost hcourse => exact .lost (hadvance.unwound_of_unwound hreach hcourse)

/-- Where the run reads the state that it reports, every failure has been recorded. -/
theorem recorded_of_conclude
    (hreach : (ofFragments fragments host).ReachableUnder permitted system)
    {l : Option ListenerId} (hmem : .run id l .conclude ∈ system.frames owner)
    (hcomes : system.FailureComes id thread role cause seen)
    (hrole : role = .run id ∨ role = .closeResources id) :
    ∃ current later, (system.executor id).journal = seen ++ later ∧
      TookUp thread cause current later ∧ (role = .run id → current ≠ .finished) := by
  cases hcomes with
  | conveyed hgrows hconveys =>
    rcases hrole with rfl | rfl
    · obtain ⟨l', point, hrun, hpoint, hsettled⟩ := hconveys.exists_run
      obtain ⟨-, -, rfl⟩ := hreach.live_unique hmem (by simp) hrun hpoint
      cases hsettled
    · -- the resources were closed before the run came to its end
      obtain ⟨point, hclosing, hholds⟩ := hconveys.exists_closing
      obtain ⟨-, hnone⟩ := hreach.closed_of_past hmem rfl
      have hweighs := weight_le_total (within id Frame.closing) hclosing
      simp [Frame.closing, hholds] at hweighs
      omega
  | recorded hjournal htook hcurrent => exact ⟨_, _, hjournal, htook, hcurrent⟩
  | lost hcourse =>
    rw [hreach.course_of_run hmem (by simp)] at hcourse
    cases hcourse

end FailureComes

/-! ### What the journal tells of the failures -/

/-- What is on its way to be recorded has been told. -/
theorem ReachableUnder.told_of_conveys
    (hreach : (ofFragments fragments host).ReachableUnder permitted system)
    (hrole : role = .run id ∨ role = .closeResources id)
    (hconveys : Conveys id role cause (system.frames thread) (system.signal thread)) :
    ∃ failure ∈ (system.executor id).journal, failure.thread = thread ∧
      failure.entry.Tells (system.executor id).fragment.script id role cause := by
  refine hreach.invariant (fun system => ∀ thread cause,
    Conveys id role cause (system.frames thread) (system.signal thread) →
      ∃ failure ∈ (system.executor id).journal, failure.thread = thread ∧
        failure.entry.Tells (system.executor id).fragment.script id role cause)
    ?_ ?_ ?_ thread cause hconveys
  · intro thread cause hconveys
    obtain ⟨frame, hmem, -⟩ := hconveys.exists_core
    cases hmem
  · intro system after thread root hturn hholds owner cause hconveys
    obtain ⟨frame, hmem, hcore⟩ := hconveys.exists_core
    rw [hturn.frames_of_core hmem hcore] at hmem
    obtain ⟨hframes, hsignal⟩ := hturn.same_of_core hmem hcore
    rw [hframes, hsignal] at hconveys
    rw [hturn.executor_eq]
    exact hholds owner cause hconveys
  · intro system after thread frame rest next hreach hadvance hholds owner cause hconveys
    have hgrows := (Frame.step_transition id hadvance.step).grows
    have hkept {owner : ThreadId}
        (hbefore : Conveys id role cause (system.frames owner) (system.signal owner)) :
        ∃ failure ∈ (after.executor id).journal, failure.thread = owner ∧
          failure.entry.Tells (after.executor id).fragment.script id role cause := by
      obtain ⟨failure, hmem, howner, htells⟩ := hholds owner cause hbefore
      exact ⟨failure, hgrows.journal.subset hmem, howner, hgrows.fragment ▸ htells⟩
    by_cases howner : owner = thread
    · subst howner
      have hbefore : Conveys id role cause (frame :: rest) (system.signal owner) ∨
          ∃ entry : Entry, entry.Tells (system.executor id).fragment.script id role cause ∧
            (after.executor id).journal =
              (system.executor id).journal ++ [⟨owner, entry⟩] := by
        rw [hadvance.own, hadvance.ownSignal] at hconveys
        by_cases hgo : next.signal = .go
        · exact hconveys.of_go hadvance.step hrole hgo
        · rw [Next.frames_of_signal hgo, List.nil_append] at hconveys
          exact hconveys.of_end hadvance.step (hadvance.frames ▸ hreach.linked owner) hgo
      rcases hbefore with hbefore | ⟨entry, htells, hjournal⟩
      · exact hkept (hadvance.frames ▸ hbefore)
      · refine ⟨⟨owner, entry⟩, by simp [hjournal], rfl, ?_⟩
        exact hgrows.fragment ▸ htells
    · obtain ⟨top, hmem, hcore⟩ := hconveys.exists_core
      have hframes := hadvance.frames_of_core howner hmem hcore
      have hbusy := List.ne_nil_of_mem (hframes ▸ hmem)
      obtain ⟨-, hsignal⟩ := hadvance.same_of_busy howner hbusy
      exact hkept (hframes ▸ hsignal ▸ hconveys)

/-- Every failure is recorded, and its request made, before the run reads the state that it
reports. -/
theorem ReachableUnder.taken_up_of_concluded
    (hreach : (ofFragments fragments host).ReachableUnder permitted system) (id : ExecutorId) :
    Consistent (fun before record => ∀ state, record.entry = .concluded state →
      ∀ seen failure later role cause, before = seen ++ failure :: later →
        failure.entry.Tells ((fragments[id]?).getD .vacant).script id role cause →
        ∃ cause current, failure.entry.Tells ((fragments[id]?).getD .vacant).script id role cause ∧
          TookUp failure.thread cause current later ∧ (role = .run id → current ≠ .finished))
      (system.executor id).journal := by
  refine hreach.consistent id _ fun {system after thread frame rest next} hreach hadvance entry
    hwrites state hentry seen failure later role cause hjournal htells => ?_
  cases hwrites with
  | concluded =>
    obtain ⟨before, told, _, _, _, hbefore, hstep, htold, hlater, hseen, hjournal', hwritten⟩ :=
      hreach.written hjournal
    rw [← hbefore.fragment_eq id] at htells
    obtain ⟨cause, htells, hconveys⟩ :=
      hstep.conveys hbefore hwritten (hseen ▸ hjournal') htells
    have hrole : role = .run id ∨ role = .closeResources id := by
      generalize failure.entry = entry at htells
      cases htells <;> simp
    have hother (cause : Fault) : failure.entry ≠ .recorded cause := by
      intro hrecorded
      rw [hrecorded] at htells
      cases htells
    have hcomes : system.FailureComes id failure.thread role cause (seen ++ [failure]) := by
      refine htold.since (fun system => system.FailureComes id failure.thread role cause
        (seen ++ [failure])) ?_ (fun hturn hcomes => hcomes.turnover hturn)
        (fun hreach hadvance hcomes => hcomes.advance hreach rfl hother hadvance) hlater
      exact .conveyed (hjournal' ▸ List.prefix_refl _) hconveys
    obtain ⟨current, later', hsplit, htook, hcurrent⟩ :=
      hcomes.recorded_of_conclude hreach (hadvance.frames ▸ List.mem_cons_self) hrole
    obtain rfl : later = later' := by simpa using hjournal.symm.trans hsplit
    exact ⟨cause, current, hbefore.fragment_eq id ▸ htells, htook, hcurrent⟩
  | _ => cases hentry

/-- A cause that is recorded was told, or handed to a sink. -/
theorem ReachableUnder.caused
    (hreach : (ofFragments fragments host).ReachableUnder permitted system)
    {later : List Record}
    (hjournal : (system.executor id).journal = seen ++ ⟨thread, .recorded cause⟩ :: later) :
    (∃ failure ∈ seen, failure.thread = thread ∧
        ∃ role, failure.entry.Tells ((fragments[id]?).getD .vacant).script id role cause) ∨
      ∃ recording action below, (ofFragments fragments host).ReachableUnder permitted recording ∧
        (recording.executor id).journal = seen ∧ recording.frames thread =
          .fail id cause .append :: .perform id action .waiting :: below ∧
        (action = .fail cause ∨ action = .heldFail cause) := by
  obtain ⟨recording, told, frame, rest, next, hrecording, hadvance, -, -, rfl, hlonger, hwrites⟩ :=
    hreach.written hjournal
  have htop := hadvance.frames ▸ List.mem_cons_self
  have htransition := Frame.step_transition id hadvance.step
  cases hwrites with
  | substitute =>
    -- a run that looks for a cause finds one
    have hcause := hrecording.cause_of_ensureCause htop
    simp only [System.executor] at hcause hlonger
    generalize recording.world.executors id = executor, told.world.executors id = executor',
      recording.signal thread = signal at htransition hcause hlonger
    cases htransition with
    | aside houtside => simp [Frame.isCore] at houtside
    | causePresent => simp at hlonger
    | causeSubstituted hempty =>
      rw [hempty] at hcause
      cases hcause
  | cause =>
    have hframes := hadvance.frames
    have hlinked := hframes ▸ hrecording.linked thread
    cases rest with
    | nil => cases hlinked
    | cons caller below =>
      have hawaits := hlinked.awaits
      have hsignal : recording.signal thread = .go :=
        hrecording.signal_go hframes fun role hawaits => by cases hawaits
      have hconveys : Conveys id caller.role cause (recording.frames thread)
          (recording.signal thread) := by
        rw [hframes, hsignal]
        exact .recording hawaits
      have hfragment := hrecording.fragment_eq id
      simp only [Frame.role] at hawaits
      cases hawaits with
      | failure =>
        obtain ⟨failure, hmem, howner, htells⟩ := hrecording.told_of_conveys (.inl rfl) hconveys
        exact .inl ⟨failure, hmem, howner, _, hfragment ▸ htells⟩
      | closeFailure =>
        obtain ⟨failure, hmem, howner, htells⟩ := hrecording.told_of_conveys (.inr rfl) hconveys
        exact .inl ⟨failure, hmem, howner, _, hfragment ▸ htells⟩
      | @entry owner action _ hentry =>
        obtain ⟨rfl, haction⟩ : owner = id ∧ (action = .fail cause ∨ action = .heldFail cause) := by
          cases action <;> simp_all [Action.entry?]
        exact .inr ⟨recording, action, below, hrecording, rfl, hframes, haction⟩

/-- A call of a sink that returns has recorded its cause and made its request. -/
theorem Returns.taken_up {during ended : System}
    (hreach : (ofFragments fragments host).Reachable during)
    (hreturns : during.Returns thread (.fail id cause .append) ended) :
    ∃ current later, (ended.executor id).journal = (during.executor id).journal ++ later ∧
      TookUp thread cause current later := by
  have hframes := hreturns.frames_eq
  obtain ⟨started, before, last, rest, next, reply, hstart, hlater, hlast, hrole, hreply⟩ :=
    hreturns.exists_steps
  have hbefore : (ofFragments fragments host).ReachableUnder (fun _ => True) before :=
    (hreach.unrestricted.move (.step thread) trivial hstart).trans hlater.unrestricted
  have hrecorded : (started.executor id).journal =
      (during.executor id).journal ++ [⟨thread, .recorded cause⟩] := by
    obtain ⟨frame, below, first, hfirst⟩ := advance_of_step hstart
    obtain ⟨outer, hframes⟩ := hframes
    obtain ⟨rfl, -⟩ := List.cons.inj (hfirst.frames.symm.trans hframes)
    have htransition := Frame.step_transition id hfirst.step
    simp only [System.executor]
    generalize during.world.executors id = executor, started.world.executors id = executor',
      during.signal thread = signal at htransition ⊢
    cases htransition with
    | aside houtside => simp [Frame.isCore] at houtside
    | causeAppended => rfl
  obtain ⟨more, hmore⟩ := (hlater.unrestricted.grows id).journal
  rw [hrecorded, List.append_assoc, List.singleton_append] at hmore
  obtain ⟨point, rfl⟩ := Frame.eq_fail_of_role hrole
  have htransition := Frame.step_transition id hlast.step
  have hrequested : point = .request ∧ (ended.executor id).journal = (before.executor id).journal ++
      [⟨thread, .requested (before.executor id).state .failed⟩] := by
    simp only [System.executor]
    generalize before.world.executors id = executor, ended.world.executors id = executor',
      before.signal thread = signal at htransition ⊢
    cases htransition with
    | aside houtside => simp [Frame.isCore] at houtside
    | causeAppended => cases hreply
    | failureRequested => exact ⟨rfl, rfl⟩
  obtain ⟨rfl, hrequested⟩ := hrequested
  have htook := hbefore.cause_of_failure (hlast.frames ▸ List.mem_cons_self)
  rw [← hmore] at htook
  refine ⟨(before.executor id).state, ⟨thread, .recorded cause⟩ :: more ++
    [⟨thread, .requested (before.executor id).state .failed⟩], ?_, _, [], rfl, htook.since⟩
  rw [hrequested, ← hmore, List.append_assoc]

end Failures

variable {fragments : List Fragment} {host : Host} {system : System}

/-- The outcome is told by the failures themselves: up to a point of the journal, every
failure that was told and every cause that was handed to a sink has been recorded, with the
request that follows, and nothing else has.  A failure that the run records is taken up
before the fragment has finished. -/
structure FailuresRecorded (start : System) (script : Script) (id : ExecutorId)
    (journal : List Record) : Prop where
  told : ∀ seen failure later role cause, journal = seen ++ failure :: later →
    failure.entry.Tells script id role cause →
    ∃ cause current, failure.entry.Tells script id role cause ∧
      TookUp failure.thread cause current later ∧ (role = .run id → current ≠ .finished)
  sunk : ∀ thread cause during ended, start.Reachable during →
    during.Returns thread (.fail id cause .append) ended →
    (ended.executor id).journal <+: journal →
    ∃ current later, journal = (during.executor id).journal ++ later ∧
      TookUp thread cause current later
  caused : ∀ seen thread cause later, journal = seen ++ ⟨thread, .recorded cause⟩ :: later →
    (∃ failure ∈ seen, failure.thread = thread ∧
        ∃ role, failure.entry.Tells script id role cause) ∨
      ∃ recording action below, start.Reachable recording ∧
        (recording.executor id).journal = seen ∧ recording.frames thread =
          .fail id cause .append :: .perform id action .waiting :: below ∧
        (action = .fail cause ∨ action = .heldFail cause)

theorem ReachableUnder.failuresRecorded
    (hreach : (ofFragments fragments host).ReachableUnder (fun _ => True) system)
    {id : ExecutorId} {before gap : List Record} {thread : ThreadId} {state : State}
    (hread : (system.executor id).journal = before ++ ⟨thread, .concluded state⟩ :: gap) :
    FailuresRecorded (ofFragments fragments host) (system.executor id).fragment.script id
      before where
  told seen failure later role cause hbefore htells := by
    rw [hreach.fragment_eq id] at htells ⊢
    exact hreach.taken_up_of_concluded id before _ gap hread state rfl seen failure later role
      cause hbefore htells
  sunk thread cause during ended hduring hreturns hprior := by
    obtain ⟨current, later, hended, htook⟩ := hreturns.taken_up hduring
    obtain ⟨more, rfl⟩ := hprior
    refine ⟨current, later ++ more, ?_, htook.append more⟩
    rw [hended, List.append_assoc]
  caused seen thread cause later hbefore := by
    rw [hreach.fragment_eq id]
    rw [hbefore, List.append_assoc, List.cons_append] at hread
    rcases hreach.caused hread with htold | ⟨recording, action, below, hrecording, hsunk⟩
    · exact .inl htold
    · exact .inr ⟨recording, action, below, hrecording.reachable, hsunk⟩

/-- Which outcome is reported.  A terminal report tells the state that the run read once,
on the same thread, before it made the report.  Up to this reading, the journal decides:
the report is of a failure exactly where one was recorded whose request for the failed
state was decided before the fragment had finished, of a cancellation exactly where there
was no such failure and a request to cancel was accepted, and of a finished fragment
otherwise.  What was recorded are the failures: each error and each panic of the build, of
an advance and of the close of the tree, a refusal of the running state, a panic of the
report that the fragment runs, and each cause that was handed to a sink.  So a run that
meets a failure of its own reports one, and a failed close of the tree turns a cancelled
run into a failed one, and changes nothing for a run that had finished. -/
theorem outcome_of_report (hreach : (ofFragments fragments host).Reachable system)
    (id : ExecutorId) {seen after : List Record} {thread : ThreadId} {call : Call}
    (hjournal : (system.executor id).journal = seen ++ ⟨thread, .entered call⟩ :: after)
    (hreport : call.isTerminalReport = true) :
    ∃ before state gap, seen = before ++ ⟨thread, .concluded state⟩ :: gap ∧
      tally Entry.isConclusion (system.executor id).journal = 1 ∧
      ((∃ report, call = .fail report) ↔ FailureTook before) ∧
      (call = .stateChanged .cancelled ↔ ¬ FailureTook before ∧ CancellationTook before) ∧
      (call = .stateChanged .finished ↔ ¬ FailureTook before ∧ ¬ CancellationTook before) ∧
      FailuresRecorded (ofFragments fragments host) (system.executor id).fragment.script id
        before ∧
      (∀ failure ∈ before, ∀ cause,
        failure.entry.Tells (system.executor id).fragment.script id (.run id) cause →
        ∃ report, call = .fail report) ∧
      ∀ earlier failure later, before = earlier ++ failure :: later →
        failure.entry.IsCloseFailure (system.executor id).fragment.script →
        (CancellationTook earlier → ∃ report, call = .fail report) ∧
          (replay earlier = .finished → call = .stateChanged .finished) := by
  have hunder := hreach.unrestricted
  obtain ⟨before, state, gap, rfl, hread, hreported, hstate, hterminal⟩ :=
    hunder.conclusion_of_report hjournal hreport
  have hprior : before <+: (system.executor id).journal := hread ▸ List.prefix_append _ _
  have hfaithful := (hunder.faithful id).earlier hprior
  have hpaired := (hunder.paired id).earlier hprior
  have hone : tally Entry.isConclusion (system.executor id).journal = 1 := by
    have hmost := hunder.conclusion_le id
    have hleast : 0 < tally Entry.isConclusion (system.executor id).journal :=
      (tally_pos_iff _ _).mpr ⟨⟨thread, .concluded state⟩, by simp [hread], rfl⟩
    omega
  rw [hstate] at hreported hterminal
  obtain ⟨hfailed, hcancelled, hfinished⟩ := replay_terminal hfaithful hpaired hterminal
  have hsame (outcome : State) : call.reported? = some outcome ↔ replay before = outcome := by
    rw [hreported, Option.some.injEq]
  have hrecorded := hunder.failuresRecorded hread
  rw [← Call.reported?_eq_failed_iff, ← Call.reported?_eq_cancelled_iff,
    ← Call.reported?_eq_finished_iff, hsame, hsame, hsame]
  refine ⟨before, state, gap, rfl, hone, hfailed, hcancelled, hfinished, hrecorded, ?_, ?_⟩
  · intro failure hmem cause htells
    obtain ⟨earlier, later, rfl⟩ := List.append_of_mem hmem
    obtain ⟨cause, current, -, htook, hcurrent⟩ :=
      hrecorded.told earlier failure later _ cause rfl htells
    rw [List.append_cons] at hfailed ⊢
    exact hfailed.mpr ((htook.prepend (earlier ++ [failure])).failureTook (hcurrent rfl))
  · rintro earlier failure later rfl hfailure
    constructor
    · intro hcancellation
      obtain ⟨cause, htells⟩ := hfailure.exists_tells id
      obtain ⟨cause, current, -, htook, -⟩ :=
        hrecorded.told earlier failure later _ cause rfl htells
      rw [List.append_cons] at hfaithful hfailed ⊢
      refine hfailed.mpr ((htook.prepend (earlier ++ [failure])).failureTook ?_)
      exact htook.current_ne_finished hfaithful (cancellationTook_append _ hcancellation)
    · exact replay_of_finished (failure :: later)

/-- A fragment that cancels itself while it is driven, and whose advance fails then. -/
def failedAfterCancel : Fragment :=
  { Fragment.vacant with
    script := { steps := [{ actions := [.cancel], outcome := .error (.message "m") }] } }

/-- A failure outweighs the cancellation that was accepted before it. -/
theorem outcome_of_report_of_failure_after_cancel :
    ∃ system seen report,
      (ofFragments [failedAfterCancel] { slots := { free := 0 } }).Reachable system ∧
      ((system.executor 0).journal = seen ++ [⟨0, .entered (.fail report)⟩] ∧
        (Call.fail report).isTerminalReport = true) ∧
      ∃ before, before <+: seen ∧ FailureTook before := by
  let report : FailureReport := .ofCauses ⟨.message "m", []⟩ Fragment.vacant.identity.endpoint
    Fragment.vacant.identity.handle
  obtain ⟨system, hreach, hjournal⟩ := exists_of_moves
    (ofFragments [failedAfterCancel] { slots := { free := 0 } })
    (.call (.act 0 .run) :: List.replicate 58 (.step 0))
    (fun system => (system.executor 0).journal.drop 19) [⟨0, .entered (.fail report)⟩] rfl
  have hsplit : (system.executor 0).journal =
      (system.executor 0).journal.take 19 ++ [⟨0, .entered (.fail report)⟩] := by
    rw [← hjournal, List.take_append_drop]
  obtain ⟨before, state, gap, hseen, -, hfailed, -⟩ := outcome_of_report hreach 0 hsplit rfl
  refine ⟨system, _, report, hreach, ⟨hsplit, rfl⟩, before, ?_, hfailed.mp ⟨report, rfl⟩⟩
  rw [hseen]
  exact List.prefix_append _ _

end System

end FragmentLifecycle
