import FragmentLifecycle.Proofs.Likeness

/-!
# Steps of two runs side by side

As long as a run with concealed fragments and one without them look alike, a frame that works
for another fragment can take a step in one of them exactly where it can in the other, and they
look alike afterwards (`Frame.step_echoes`).  A few steps have no counterpart
(`Frame.step_lingers`): to come to a concealed fragment on the way, and to fall asleep and wake
up.
-/

namespace FragmentLifecycle

/-! ## Step by step -/

section Mirrored

variable {handle : ExecutorId → Handle} {veiled : Handle → Bool} {world world' : World}
  {view view' : LockView} {thread thread' : ThreadId} {id : ExecutorId}
  {signal signal' : Signal}
  (hmirrored : Mirrored handle veiled world view thread world' view' thread')
  (hsight : veiled (handle id) = false) (hsignal : signal.Alike veiled signal')

include hmirrored hsight hsignal

private theorem stepSetup_echoes {listener listener' : Option ListenerId}
    (hlistens : listener'.isSome = listener.isSome) (point : RunPoint) :
    Option.Rel (Echoes handle veiled thread thread')
      (stepSetup world view thread id listener point signal)
      (stepSetup world' view' thread' id listener' point signal') := by
  have hseen := hmirrored.executors id hsight
  cases hsignal with
  | go =>
    cases point
    all_goals try exact .none
    case start =>
      cases hcourse : (world.executors id).course with
      | notStarted =>
        have hcourse' := (hmirrored.course_eq_notStarted hsight).mpr hcourse
        simp only [stepSetup, hcourse, hcourse']
        refine .some (hmirrored.changed rfl rfl ?_ (.goto (.run hlistens hsight)))
        exact congrArg (fun seen : Executor => { seen with course := .underWay 0 }) hseen
      | underWay | ended | unwound =>
        cases hcourse' : (world'.executors id).course with
        | notStarted =>
          rw [(hmirrored.course_eq_notStarted hsight).mp hcourse'] at hcourse
          cases hcourse
        | underWay | ended | unwound =>
          simp only [stepSetup, hcourse, hcourse']
          exact .some (hmirrored.kept rfl rfl .done)
    case enrol =>
      exact .some (hmirrored.changed rfl rfl hseen (.goto (.run hlistens hsight)))
    case lockSetup =>
      simp only [stepSetup, hmirrored.setup id hsight]
      split
      · exact .none
      · exact .some (hmirrored.kept rfl rfl (.goto (.run hlistens hsight)))
    case inspect =>
      simp only [stepSetup, hmirrored.state hsight]
      split
      · exact .some
          (hmirrored.kept rfl rfl (.call (.run hlistens hsight) (.plain rfl hsight)))
      · exact .some (hmirrored.kept rfl rfl (.goto (.run hlistens hsight)))
    case keepTree =>
      refine .some (hmirrored.changed rfl rfl ?_ (.goto (.run hlistens hsight)))
      exact congrArg (fun seen : Executor => { seen with treeHeld := true }) hseen
    case watch =>
      exact .some (hmirrored.kept rfl rfl (.goto (.run rfl hsight)))
    case announce =>
      obtain ⟨decision, next, next', hrequest, hrequest', hafter⟩ :=
        hmirrored.exists_request hsight .running
      simp only [stepSetup, hrequest, hrequest', hmirrored.state hsight]
      rcases decision with ⟨state, _ | _⟩ | _ | _
      · exact .some (hafter (.goto (.run hlistens hsight)))
      · exact .some (hafter (.call (.run hlistens hsight) (.plain rfl hsight)))
      · exact .some (hafter (.goto (.run hlistens hsight)))
      · exact .some (hafter (.goto (.run hlistens hsight)))
    case openGate =>
      refine .some (hmirrored.changed rfl rfl ?_ (.goto (.run hlistens hsight)))
      exact congrArg (fun seen : Executor => { seen with gate := seen.gate.opened }) hseen
  | raised payload =>
    cases point
    all_goals first
    | exact .none
    | exact .some (hmirrored.kept rfl rfl (.call (.run hlistens hsight) (.plain rfl hsight)))
  | replied hreply =>
    cases hreply
    all_goals cases point
    all_goals first
    | exact .none
    | exact .some (hmirrored.kept rfl rfl (.goto (.run hlistens hsight)))

private theorem stepDrive_echoes {listener listener' : Option ListenerId}
    (hlistens : listener'.isSome = listener.isSome) (point : RunPoint) :
    Option.Rel (Echoes handle veiled thread thread')
      (stepDrive world thread id listener point signal)
      (stepDrive world' thread' id listener' point signal') := by
  have hseen := hmirrored.executors id hsight
  cases hsignal with
  | go =>
    cases point
    all_goals try exact .none
    case assumePrincipal =>
      simp only [stepDrive, hmirrored.fragment hsight, hmirrored.principal]
      exact .some (hmirrored.repossessed _ (.call (.run hlistens hsight) (.plain rfl hsight)))
    case fetchTree previous =>
      simp only [stepDrive, hmirrored.treeHeld hsight]
      split <;> exact .some (hmirrored.kept rfl rfl (.goto (.run hlistens hsight)))
    case check previous =>
      simp only [stepDrive, hmirrored.state hsight, hmirrored.advances hsight]
      split
      · refine .some (hmirrored.changed rfl rfl ?_
          (.call (.run hlistens hsight) (.plain rfl hsight)))
        exact congrArg (fun seen : Executor => { seen with advances := seen.advances + 1 }) hseen
      · exact .some (hmirrored.kept rfl rfl (.goto (.run hlistens hsight)))
    case restorePrincipal previous ending =>
      cases ending with
      | completed | failed => exact .some (hmirrored.repossessed _ (.goto (.run hlistens hsight)))
      | panicked =>
        exact .some (hmirrored.repossessed _ (.call (.run hlistens hsight) (.plain rfl hsight)))
    case finish =>
      obtain ⟨decision, next, next', hrequest, hrequest', hafter⟩ :=
        hmirrored.exists_request hsight .finished
      simp only [stepDrive, hrequest, hrequest', hmirrored.state hsight]
      rcases decision with _ | _ | _ <;> exact .some (hafter (.goto (.run hlistens hsight)))
    case settleFault fault =>
      simp only [stepDrive]
      split
      · exact .some (hmirrored.kept rfl rfl (.call (.run hlistens hsight) (.plain rfl hsight)))
      · split <;>
          exact .some
            (hmirrored.kept rfl rfl (.call (.run hlistens hsight) (.plain rfl hsight)))
  | raised payload =>
    cases point
    all_goals first
    | exact .none
    | exact .some (hmirrored.kept rfl rfl (.goto (.run hlistens hsight)))
    | skip
    case alarming =>
      refine .some (hmirrored.changed rfl rfl ?_ (.raise payload))
      exact congrArg (fun seen : Executor => { seen with course := .unwound 0 }) hseen
  | replied hreply =>
    cases hreply
    all_goals cases point
    all_goals first
    | exact .none
    | exact .some (hmirrored.kept rfl rfl (.goto (.run hlistens hsight)))
    | exact .some (hmirrored.kept rfl rfl (.call (.run hlistens hsight) (.plain rfl hsight)))
    | skip
    case progress.advancing more previous =>
      cases more <;>
        exact .some (hmirrored.kept rfl rfl (.goto (.run hlistens hsight)))

private theorem stepWindDown_echoes {listener listener' : Option ListenerId}
    (hlistens : listener'.isSome = listener.isSome) (point : RunPoint) :
    Option.Rel (Echoes handle veiled thread thread')
      (stepWindDown world thread id listener point signal)
      (stepWindDown world' thread' id listener' point signal') := by
  have hseen := hmirrored.executors id hsight
  cases hsignal with
  | go =>
    cases point
    all_goals try exact .none
    case releaseWaiters =>
      refine .some (hmirrored.changed rfl rfl ?_
        (.call (.run hlistens hsight) (.plain rfl hsight)))
      exact congrArg (fun seen : Executor => { seen with gate := seen.gate.opened }) hseen
    case unwatch =>
      cases listener with
      | none =>
        cases listener' with
        | none => exact .some (hmirrored.kept rfl rfl (.goto (.run rfl hsight)))
        | some => cases hlistens
      | some =>
        cases listener' with
        | none => cases hlistens
        | some => exact .some (hmirrored.kept rfl rfl (.goto (.run rfl hsight)))
    case conclude =>
      simp only [stepWindDown, hmirrored.state hsight]
      split
      · refine .some (hmirrored.changed rfl rfl ?_ (.goto (.run hlistens hsight)))
        rw [Executor.seen_record, Executor.seen_record, hseen]
      · refine .some (hmirrored.changed rfl rfl ?_
          (.call (.run hlistens hsight) (.plain rfl hsight)))
        rw [Executor.seen_record, Executor.seen_record, hseen]
    case ensureCause =>
      simp only [stepWindDown, hmirrored.lifecycle hsight]
      split
      · refine .some (hmirrored.changed rfl rfl ?_ (.goto (.run hlistens hsight)))
        rw [Executor.seen_append, Executor.seen_append, hseen]
      · exact .some (hmirrored.kept rfl rfl (.goto (.run hlistens hsight)))
    case drain =>
      have hreport (causes : Composite) : (world'.executors id).failureReport causes =
          (world.executors id).failureReport causes :=
        Executor.eq_of_seen (fun executor => executor.failureReport causes) (fun _ => rfl) hseen
      simp only [stepWindDown, hmirrored.lifecycle hsight, hreport]
      split
      · exact .some (hmirrored.kept rfl rfl (.goto (.run hlistens hsight)))
      · rename_i causes lifecycle _
        refine .some (hmirrored.changed (World.core_record_modify _ _ _ _ _)
          (World.core_record_modify _ _ _ _ _) ?_
          (.call (.run hlistens hsight) (.plain rfl hsight)))
        have hdrained : { world'.executors id with lifecycle }.seen veiled =
            { world.executors id with lifecycle }.seen veiled :=
          congrArg (fun seen : Executor => { seen with lifecycle }) hseen
        rw [Executor.seen_record, Executor.seen_record, hdrained]
    case retire =>
      refine .some (hmirrored.changed rfl rfl ?_ .done)
      exact congrArg (fun seen : Executor => { seen with course := .ended 0 }) hseen
  | raised payload =>
    cases point
    all_goals try exact .none
    all_goals
      refine .some (hmirrored.changed rfl rfl ?_ (.raise payload))
      exact congrArg (fun seen : Executor => { seen with course := .unwound 0 }) hseen
  | replied hreply =>
    cases point
    all_goals first
    | exact .none
    | exact .some (hmirrored.kept rfl rfl (.goto (.run hlistens hsight)))

private theorem stepCancel_echoes (point : CancelPoint) :
    Option.Rel (Echoes handle veiled thread thread')
      (stepCancel world view thread id point signal)
      (stepCancel world' view' thread' id point signal') := by
  cases hsignal with
  | go =>
    cases point
    all_goals try exact .none
    case lockSetup =>
      simp only [stepCancel, hmirrored.setup id hsight]
      split
      · exact .none
      · exact .some (hmirrored.kept rfl rfl (.goto (.plain rfl hsight)))
    case inspect =>
      simp only [stepCancel, hmirrored.treeHeld hsight]
      split
      · exact .some (hmirrored.kept rfl rfl (.goto (.plain rfl hsight)))
      · exact .some
          (hmirrored.kept rfl rfl (.call (.plain rfl hsight) (.plain rfl hsight)))
    case waitGate =>
      simp only [stepCancel, hmirrored.gate hsight]
      split
      · exact .some (hmirrored.kept rfl rfl (.goto (.plain rfl hsight)))
      · exact .none
    case request =>
      obtain ⟨decision, next, next', hrequest, hrequest', hafter⟩ :=
        hmirrored.exists_request hsight .cancellationRequested
      simp only [stepCancel, hrequest, hrequest']
      rcases decision with ⟨state, _ | _⟩ | _ | _
      · exact .some (hafter (.goto (.plain rfl hsight)))
      · exact .some (hafter (.call (.plain rfl hsight) (.plain rfl hsight)))
      · exact .some (hafter (.goto (.plain rfl hsight)))
      · exact .some (hafter (.goto (.plain rfl hsight)))
    case wake =>
      exact .some (hmirrored.kept (World.core_wakeWorker _ _) (World.core_wakeWorker _ _) .done)
  | raised payload =>
    cases point
    all_goals first
    | exact .none
    | exact .some (hmirrored.kept rfl rfl (.raise payload))
  | replied hreply =>
    cases point
    all_goals first
    | exact .none
    | exact .some (hmirrored.kept rfl rfl (.goto (.plain rfl hsight)))

private theorem stepClose_echoes (point : ClosePoint) :
    Option.Rel (Echoes handle veiled thread thread')
      (stepClose world view id point signal) (stepClose world' view' id point signal') := by
  have hseen := hmirrored.executors id hsight
  cases hsignal with
  | go =>
    cases point
    all_goals try exact .none
    case lockClosing =>
      simp only [stepClose, hmirrored.closing id hsight, hmirrored.resourcesClosed hsight]
      split
      · exact .none
      · split
        · exact .some (hmirrored.kept rfl rfl .done)
        · refine .some (hmirrored.changed rfl rfl ?_ (.goto (.plain rfl hsight)))
          exact congrArg (fun seen : Executor => { seen with resourcesClosed := true }) hseen
    case takeTree =>
      simp only [stepClose, hmirrored.treeHeld hsight]
      split
      · refine .some (hmirrored.changed rfl rfl ?_
          (.call (.plain rfl hsight) (.plain rfl hsight)))
        exact congrArg (fun seen : Executor => { seen with treeHeld := false }) hseen
      · exact .some
          (hmirrored.kept rfl rfl (.call (.plain rfl hsight) (.plain rfl hsight)))
  | raised payload =>
    cases point
    all_goals first
    | exact .none
    | exact .some (hmirrored.kept rfl rfl (.raise payload))
    | exact .some (hmirrored.kept rfl rfl (.call (.plain rfl hsight) (.plain rfl hsight)))
  | replied hreply =>
    cases hreply
    all_goals cases point
    all_goals first
    | exact .none
    | exact .some (hmirrored.kept rfl rfl .done)
    | exact .some (hmirrored.kept rfl rfl (.call (.plain rfl hsight) (.plain rfl hsight)))

private theorem stepFail_echoes (cause : Fault) (point : FailPoint) :
    Option.Rel (Echoes handle veiled thread thread')
      (stepFail world thread id cause point signal)
      (stepFail world' thread' id cause point signal') := by
  have hseen := hmirrored.executors id hsight
  cases hsignal with
  | go =>
    cases point with
    | append =>
      refine .some (hmirrored.changed rfl rfl ?_ (.goto (.plain rfl hsight)))
      rw [Executor.seen_append, Executor.seen_append, hseen]
    | request =>
      obtain ⟨decision, next, next', hrequest, hrequest', hafter⟩ :=
        hmirrored.exists_request hsight .failed
      simp only [stepFail, hrequest, hrequest']
      exact .some (hafter .done)
  | raised | replied => cases point <;> exact .none

omit hsignal in
private theorem stepEnter_echoes (call : Call) :
    Echoes handle veiled thread thread' (stepEnter world thread id call)
      (stepEnter world' thread' id call) := by
  have hentered {next next' : Next} (hnext : next.Alike handle veiled next') :
      Echoes handle veiled thread thread' (world.record id thread (.entered call), next)
        (world'.record id thread' (.entered call), next') := by
    refine hmirrored.changed rfl rfl ?_ hnext
    rw [Executor.seen_record, Executor.seen_record, hmirrored.executors id hsight]
  simp only [stepEnter, hmirrored.fragment hsight]
  split
  · exact hentered (.goto (.plain rfl hsight))
  · -- the process exits
    exact ⟨hmirrored.executors, hmirrored.principal, rfl, .goto (.plain rfl hsight)⟩
  · exact hentered (.goto (.plain rfl hsight))

omit hsignal in
private theorem stepOutcome_echoes (call : Call) (outcome : Outcome) :
    Echoes handle veiled thread thread' (stepOutcome world thread id call outcome)
      (stepOutcome world' thread' id call outcome) := by
  have hleft (unwound : Bool) {next next' : Next} (hnext : next.Alike handle veiled next') :
      Echoes handle veiled thread thread' (world.record id thread (.left call unwound), next)
        (world'.record id thread' (.left call unwound), next') := by
    refine hmirrored.changed rfl rfl ?_ hnext
    rw [Executor.seen_record, Executor.seen_record, hmirrored.executors id hsight]
  cases outcome with
  | more | done | error => exact hleft _ (.reply (.refl _ _))
  | panic => exact hleft _ (.raise _)
  | park => exact hmirrored.kept rfl rfl (.goto (.plain rfl hsight))

private theorem stepCall_echoes (call : Call) (point : CallPoint)
    (hawake : point ≠ .parked)
    (hstays : signal = .go → point = .parking →
      (world.executors id).state.continues = false) :
    Option.Rel (Echoes handle veiled thread thread')
      (stepCall world thread id call point signal)
      (stepCall world' thread' id call point signal') := by
  have hseen := hmirrored.executors id hsight
  cases hsignal with
  | go =>
    cases point with
    | enter => exact .some (stepEnter_echoes hmirrored hsight call)
    | markClosed =>
      simp only [stepCall, hmirrored.context hsight, hmirrored.fragment hsight]
      split
      · exact .some (hmirrored.kept rfl rfl (.goto (.plain rfl hsight)))
      · refine .some (hmirrored.changed rfl rfl ?_ (.goto (.plain rfl hsight)))
        exact congrArg (fun seen : Executor => { seen with context := seen.context.markClosed })
          hseen
    | detach =>
      refine .some (hmirrored.changed rfl rfl ?_ (.goto (.plain rfl hsight)))
      exact congrArg (fun seen : Executor => { seen with context := seen.context.detach }) hseen
    | resumeAll =>
      simp only [stepCall, hmirrored.fragment hsight]
      refine .some (hmirrored.changed rfl rfl ?_ (.goto (.plain rfl hsight)))
      exact congrArg (fun seen : Executor => { seen with controls := seen.controls.unpauseAll })
        hseen
    | play actions =>
      cases actions with
      | nil =>
        simp only [stepCall, hmirrored.fragment hsight]
        exact .some (stepOutcome_echoes hmirrored hsight call _)
      | cons action rest =>
        exact .some
          (hmirrored.kept rfl rfl (.call (.plain rfl hsight) (.plain rfl hsight)))
    | acting => exact .none
    | parking =>
      simp only [stepCall, hmirrored.state hsight, hstays rfl rfl]
      refine .some (hmirrored.changed rfl rfl ?_ (.reply (.refl _ _)))
      rw [Executor.seen_record, Executor.seen_record, hseen]
    | parked => exact absurd rfl hawake
  | raised payload =>
    cases point
    all_goals try exact .none
    case play actions => cases actions <;> exact .none
    case acting =>
      refine .some (hmirrored.changed rfl rfl ?_ (.raise payload))
      rw [Executor.seen_record, Executor.seen_record, hseen]
  | replied hreply =>
    cases hreply
    all_goals cases point
    all_goals try exact .none
    case answer.play actions | progress.play actions | failed.play actions =>
      cases actions <;> exact .none
    case answer.acting hanswer action rest =>
      refine .some (hmirrored.changed rfl rfl ?_ (.goto (.plain rfl hsight)))
      rw [Executor.seen_record, Executor.seen_record, hseen]
      simp only [Entry.seen, hanswer]

private theorem stepPause_echoes (site : String) (point : PausePoint) :
    Option.Rel (Echoes handle veiled thread thread')
      (stepPause world id site point signal) (stepPause world' id site point signal') := by
  have hseen := hmirrored.executors id hsight
  cases hsignal with
  | go =>
    cases point with
    | reach =>
      simp only [stepPause, hmirrored.controls hsight]
      split
      · exact .some (hmirrored.kept rfl rfl (.reply (.refl _ _)))
      · rename_i generation controls _
        refine .some (hmirrored.changed rfl rfl ?_ (.goto (.plain rfl hsight)))
        exact congrArg (fun seen : Executor => { seen with controls }) hseen
    | paused generation =>
      simp only [stepPause, hmirrored.controls hsight]
      split
      · refine .some (hmirrored.changed rfl rfl ?_ (.reply (.refl _ _)))
        exact congrArg (fun seen : Executor => { seen with controls := seen.controls.leave }) hseen
      · exact .none
  | raised | replied => cases point <;> exact .none

private theorem stepFinished_echoes (receiver : Handle) (point : FinishedPoint) :
    Option.Rel (Echoes handle veiled thread thread')
      (stepFinished world thread id receiver point signal)
      (stepFinished world' thread' id receiver point signal') := by
  have hseen := hmirrored.executors id hsight
  cases hsignal with
  | go =>
    cases point with
    | waitGate =>
      simp only [stepFinished, hmirrored.gate hsight]
      split
      · exact .some (hmirrored.kept rfl rfl (.goto (.plain rfl hsight)))
      · exact .none
    | fetchTree =>
      simp only [stepFinished, hmirrored.treeHeld hsight]
      split <;> exact .some (hmirrored.kept rfl rfl (.goto (.plain rfl hsight)))
    | forward =>
      refine .some (hmirrored.changed rfl rfl ?_ .done)
      rw [Executor.seen_record, Executor.seen_record, hseen]
    | drop => exact .some (hmirrored.kept rfl rfl .done)
  | raised | replied => cases point <;> exact .none

private theorem stepPerform_echoes (action : Action) (point : PerformPoint) :
    Option.Rel (Echoes handle veiled thread thread')
      (stepPerform world thread id action point signal)
      (stepPerform world' thread' id action point signal') := by
  have hseen := hmirrored.executors id hsight
  have hanswered (answer : Answer) :
      Echoes handle veiled thread thread' (world, .reply (.answer answer))
        (world', .reply (.answer answer)) :=
    hmirrored.kept rfl rfl (.reply (.refl _ _))
  have hstart : Echoes handle veiled thread thread' (startAction world thread id action)
      (startAction world' thread' id action) := by
    have hcalled {callee : Frame} (hplain : callee.isPlain = true)
        (hcallee : callee.isConcealed handle veiled = false) :
        Echoes handle veiled thread thread' (world, .call (.perform id action .waiting) callee)
          (world', .call (.perform id action .waiting) callee) :=
      hmirrored.kept rfl rfl (.call (.plain rfl hsight) (.plain hplain hcallee))
    cases action with
    | run | cancel | closeContext | finished | heldFail | pause => exact hcalled rfl hsight
    | depart => exact hcalled rfl rfl
    | unpause =>
      refine hmirrored.changed rfl rfl ?_ .done
      exact congrArg (fun seen : Executor => { seen with controls := seen.controls.unpauseAll })
        hseen
    | status =>
      simp only [startAction, hmirrored.state hsight]
      split
      · exact hmirrored.kept rfl rfl (.goto (.plain rfl hsight))
      · exact hanswered _
    | display =>
      simp only [startAction, hmirrored.text hsight]
      exact hanswered _
    | fail cause =>
      simp only [startAction, hmirrored.context hsight]
      split
      · exact hcalled rfl hsight
      · exact hanswered _
    | sink =>
      simp only [startAction, hmirrored.state hsight, hmirrored.lifecycle hsight]
      exact hanswered _
    | principal =>
      simp only [startAction, hmirrored.principal]
      exact hanswered _
    | arm site =>
      refine hmirrored.changed rfl rfl ?_ .done
      exact congrArg (fun seen : Executor => { seen with controls := seen.controls.arm site })
        hseen
    | recordStat key value =>
      refine hmirrored.changed rfl rfl ?_ .done
      exact congrArg (fun seen : Executor =>
        { seen with context := seen.context.recordStat key value }) hseen
    | register => exact hmirrored.kept rfl rfl .done
    | listeners => exact hmirrored.kept rfl rfl (.reply (.answer rfl))
    | _ body =>
      -- a body that runs as other principals
      simp only [startAction, hmirrored.principal]
      split
      · exact hmirrored.repossessed _ (.reply (.refl _ _))
      · exact hmirrored.repossessed _ (.raise _)
  cases hsignal with
  | go =>
    cases point with
    | start => exact .some hstart
    | readStats =>
      simp only [stepPerform, hmirrored.handle_eq hsight, hmirrored.context hsight]
      exact .some (hanswered _)
    | waiting => exact .none
  | raised payload =>
    cases point
    all_goals first
    | exact .none
    | exact .some (hmirrored.kept rfl rfl (.raise payload))
  | @replied reply reply' hreply =>
    have hanswer : (action.answerTo reply').seen veiled = (action.answerTo reply).seen veiled := by
      cases hreply with
      | answer hanswer => cases action <;> first | rfl | exact hanswer
      | progress | failed => cases action <;> rfl
    cases point
    all_goals first
    | exact .none
    | exact .some (hmirrored.kept rfl rfl (.reply (.answer hanswer)))

private theorem stepStart_echoes (refusal : Option String) (point : StartPoint) :
    Option.Rel (Echoes handle veiled thread thread')
      (stepStart world thread id refusal point signal)
      (stepStart world' thread' id refusal point signal') := by
  cases hsignal with
  | go =>
    cases point
    all_goals try exact .none
    case requestSlot =>
      exact .some (hmirrored.kept rfl rfl (.goto (.plain rfl hsight)))
    case awaitSlot =>
      simp only [stepStart, Slots.take?, hmirrored.granted]
      split
      · exact .some (hmirrored.kept rfl rfl (.goto (.plain rfl hsight)))
      · exact .none
    case register =>
      simp only [stepStart, hmirrored.handle_eq hsight, hmirrored.named,
        hmirrored.executor?_eq hsight]
      split <;> exact .some (hmirrored.kept rfl rfl (.goto (.plain rfl hsight)))
    case reject =>
      simp only [stepStart, hmirrored.handle_eq hsight]
      exact .some (hmirrored.kept rfl rfl (.reply (.refl _ _)))
    case spawn =>
      simp only [stepStart, hmirrored.handle_eq hsight, hmirrored.named]
      split
      · have hstarted : (Frame.hosted id (handle id) .start).Alike handle veiled
            (.hosted id (handle id) .start) := .plain rfl hsight
        exact .some (hmirrored.kept rfl rfl (.fork (.refl _ _) hstarted _))
      · exact .some (hmirrored.kept rfl rfl (.goto (.plain rfl hsight)))
    case withdraw =>
      exact .some (hmirrored.kept rfl rfl (.call (.plain rfl hsight) (.plain rfl hsight)))
  | raised payload =>
    cases point
    all_goals first
    | exact .none
    | exact .some (hmirrored.kept rfl rfl (.raise payload))
  | replied hreply =>
    cases point
    all_goals first
    | exact .none
    | exact .some (hmirrored.kept rfl rfl (.reply (.refl _ _)))

private theorem stepHosted_echoes (handle' : Handle) (point : HostedPoint) :
    Option.Rel (Echoes handle veiled thread thread')
      (stepHosted world id handle' point signal)
      (stepHosted world' id handle' point signal') := by
  cases hsignal with
  | go =>
    cases point
    all_goals first
    | exact .none
    | exact .some (hmirrored.kept rfl rfl (.goto (.plain rfl hsight)))
    | exact .some (hmirrored.kept rfl rfl (.call (.plain rfl hsight) (.plain rfl hsight)))
    | exact .some (hmirrored.kept rfl rfl .done)
    | exact .some (hmirrored.kept rfl rfl (.raise _))
  | raised | replied =>
    cases point
    all_goals first
    | exact .none
    | exact .some (hmirrored.kept rfl rfl (.goto (.plain rfl hsight)))

omit hsight in
private theorem stepDepart_echoes (nodes : NodeSet) (point : DepartPoint)
    (hplain : (Frame.depart nodes point).isPlain = true) :
    Option.Rel (Echoes handle veiled thread thread') (stepDepart world nodes point signal)
      (stepDepart world' nodes point signal') := by
  cases point with
  | start =>
    cases hsignal with
    | go => exact .some (hmirrored.kept rfl rfl (.goto (.plain rfl rfl)))
    | raised | replied => exact .none
  | snapshot =>
    cases hsignal with
    | go =>
      simp only [stepDepart, hmirrored.watches]
      exact .some (hmirrored.kept rfl rfl (.goto .walk))
    | raised | replied => exact .none
  | walk | cancelling => cases hplain

omit hsight in
/-- Who walks along the watches meets the same fragment in both runs. -/
private theorem stepDepart_walk_echoes (nodes : NodeSet) (watches : List Watch)
    (hhead : signal = .go → ∀ watch ∈ watches.head?, veiled (handle watch.executor) = false) :
    Option.Rel (Echoes handle veiled thread thread')
      (stepDepart world nodes (.walk watches) signal)
      (stepDepart world' nodes
        (.walk (watches.filter fun watch => !veiled (handle watch.executor))) signal') := by
  cases hsignal with
  | go =>
    cases watches with
    | nil => exact .some (hmirrored.kept rfl rfl .done)
    | cons watch rest =>
      have hsight := hhead rfl watch rfl
      rw [List.filter_cons_of_pos (by simp [hsight])]
      simp only [stepDepart, hmirrored.released hsight]
      split
      · exact .some (hmirrored.kept rfl rfl (.call .cancelling (.plain rfl hsight)))
      · exact .some (hmirrored.kept rfl rfl (.goto .walk))
  | raised | replied =>
    generalize watches.filter _ = kept
    cases watches <;> cases kept <;> exact .none

omit hsight in
private theorem stepDepart_cancelling_echoes (nodes : NodeSet) (rest : List Watch) :
    Option.Rel (Echoes handle veiled thread thread')
      (stepDepart world nodes (.cancelling rest) signal)
      (stepDepart world' nodes
        (.cancelling (rest.filter fun watch => !veiled (handle watch.executor))) signal') := by
  cases hsignal with
  | go => exact .none
  | raised payload => exact .some (hmirrored.kept rfl rfl (.raise payload))
  | replied => exact .some (hmirrored.kept rfl rfl (.goto .walk))

omit hsight hsignal in
private theorem startHostCall_echoes (call : HostCall)
    (hsight : call.addressee?.any veiled = false) :
    Echoes handle veiled thread thread' (startHostCall world call)
      (startHostCall world' call) := by
  have hfound {wanted : Handle} {id : ExecutorId}
      (hlisted : world.host.executor? wanted = some id) : handle id = wanted :=
    (hmirrored.handles _ (Host.mem_of_executor? hlisted)).symm
  cases call with
  | cancel wanted | unpause wanted | finished wanted =>
    have hwanted : veiled wanted = false := hsight
    simp only [startHostCall, hmirrored.executor?_eq hwanted]
    split
    · rename_i id hlisted
      have hcallee : veiled (handle id) = false := hfound hlisted ▸ hwanted
      exact hmirrored.kept rfl rfl (.call (.plain rfl hsight) (.plain rfl hcallee))
    · exact hmirrored.kept rfl rfl (.reply (.refl _ _))
  | status wanted =>
    have hwanted : veiled wanted = false := hsight
    simp only [startHostCall, hmirrored.executor?_eq hwanted]
    split
    · exact hmirrored.kept rfl rfl (.reply (.refl _ _))
    · rename_i id hlisted
      rw [Executor.eq_of_seen Executor.status? (fun _ => rfl)
        (hmirrored.executors id (hfound hlisted ▸ hwanted))]
      exact hmirrored.kept rfl rfl (.reply (.refl _ _))
  | running order =>
    refine hmirrored.kept rfl rfl (.reply (.answer ?_))
    simp [Answer.seen, hmirrored.listing_eq, List.filter_map, Function.comp_def]
  | cancelAll order =>
    have hround : (world'.host.listing order).map Prod.snd =
        ((world.host.listing order).map Prod.snd).filter fun id => !veiled (handle id) := by
      rw [hmirrored.listing_eq, List.filter_map]
      refine congrArg _ (List.filter_congr fun entry hmem => ?_)
      rw [hmirrored.handles entry ((world.host.listing_perm order).mem_iff.mp hmem),
        Function.comp_apply]
    simp only [startHostCall, hround]
    exact hmirrored.kept rfl rfl (.goto .round)
  | waitIdle => exact hmirrored.kept rfl rfl (.goto .listening)

omit hsight in
private theorem stepHost_echoes (call : HostCall) (point : HostPoint)
    (hplain : (Frame.host call point).isPlain = true)
    (hsight : (Frame.host call point).isConcealed handle veiled = false) :
    Option.Rel (Echoes handle veiled thread thread') (stepHost world call point signal)
      (stepHost world' call point signal') := by
  cases point with
  | start =>
    cases hsignal with
    | go => exact .some (startHostCall_echoes hmirrored call hsight)
    | raised | replied => exact .none
  | waiting =>
    cases hsignal with
    | go => exact .none
    | raised payload => exact .some (hmirrored.kept rfl rfl (.raise payload))
    | replied => exact .some (hmirrored.kept rfl rfl (.reply (.refl _ _)))
  | walk | listening | asleep => cases hplain

omit hsight in
/-- Who walks along the entries of the table meets the same fragment in both runs. -/
private theorem stepHost_round_echoes (call : HostCall) (ids : List ExecutorId)
    (hhead : signal = .go → ∀ id ∈ ids.head?, veiled (handle id) = false) :
    Option.Rel (Echoes handle veiled thread thread') (stepHost world call (.walk ids) signal)
      (stepHost world' call (.walk (ids.filter fun id => !veiled (handle id))) signal') := by
  cases hsignal with
  | go =>
    cases ids with
    | nil => exact .some (hmirrored.kept rfl rfl .done)
    | cons id rest =>
      have hsight := hhead rfl id rfl
      rw [List.filter_cons_of_pos (by simp [hsight])]
      exact .some (hmirrored.kept rfl rfl (.call .round (.plain rfl hsight)))
  | raised payload =>
    simp only [stepHost]
    exact .some (hmirrored.kept rfl rfl (.raise payload))
  | replied =>
    simp only [stepHost]
    exact .some (hmirrored.kept rfl rfl (.goto .round))

omit hsight in
/-- Where the table is empty, what is in sight of it is empty. -/
private theorem stepHost_listening_echoes (call : HostCall) (signals signals' : Nat)
    (hempty : signal = .go → world.host.running = []) :
    Option.Rel (Echoes handle veiled thread thread')
      (stepHost world call (.listening signals) signal)
      (stepHost world' call (.listening signals') signal') := by
  cases hsignal with
  | go =>
    have hempty' : world'.host.running = [] := by
      rw [hmirrored.running, Host.inSight, hempty rfl, List.filter_nil]
    simp only [stepHost, hempty rfl, hempty', List.isEmpty_nil, if_true]
    exact .some (hmirrored.kept rfl rfl .done)
  | raised | replied => exact .none

end Mirrored

/-! ## All frames -/

section Steps

variable {handle : ExecutorId → Handle} {veiled : Handle → Bool} {world world' after : World}
  {view view' : LockView} {thread thread' : ThreadId} {signal signal' : Signal}
  {frame frame' : Frame} {next : Next}

/-- The steps that have no counterpart: to come to a concealed fragment on the way, and to fall
asleep or wake up. -/
def Frame.Lingers (handle : ExecutorId → Handle) (veiled : Handle → Bool) (world : World) :
    Frame → Signal → Prop
  | .call id _ .parking, .go => (world.executors id).state.continues = true
  | .call _ _ .parked, .go => True
  | .depart _ (.walk (watch :: _)), .go => veiled (handle watch.executor) = true
  | .host _ (.walk (id :: _)), .go => veiled (handle id) = true
  | .host _ (.listening _), .go => world.host.running ≠ []
  | .host _ (.asleep _), .go => True
  | _, _ => False

/-- A frame in sight can take a step where its likeness can, and the results are alike. -/
theorem Frame.step_echoes
    (hmirrored : Mirrored handle veiled world view thread world' view' thread')
    (hframe : frame.Alike handle veiled frame') (hsignal : signal.Alike veiled signal')
    (hstays : ¬ frame.Lingers handle veiled world signal) :
    Option.Rel (Echoes handle veiled thread thread') (frame.step world view thread signal)
      (frame'.step world' view' thread' signal') := by
  have hrun {id : ExecutorId} {l l' : Option ListenerId} {point : RunPoint}
      (hsight : veiled (handle id) = false) (hlistens : l'.isSome = l.isSome) :
      Option.Rel (Echoes handle veiled thread thread')
        (stepRun world view thread id l point signal)
        (stepRun world' view' thread' id l' point signal') := by
    unfold stepRun
    split
    · exact stepSetup_echoes hmirrored hsight hsignal hlistens point
    · split
      · exact stepWindDown_echoes hmirrored hsight hsignal hlistens point
      · exact stepDrive_echoes hmirrored hsight hsignal hlistens point
  cases hframe with
  | plain hplain hsight =>
    cases frame with
    | run => exact hrun hsight rfl
    | cancel => exact stepCancel_echoes hmirrored hsight hsignal _
    | closeResources => exact stepClose_echoes hmirrored hsight hsignal _
    | fail => exact stepFail_echoes hmirrored hsight hsignal _ _
    | call id call point =>
      refine stepCall_echoes hmirrored hsight hsignal call point ?_ ?_
      · rintro rfl
        cases hplain
      · rintro rfl rfl
        simpa [Lingers] using hstays
    | pause => exact stepPause_echoes hmirrored hsight hsignal _ _
    | finished => exact stepFinished_echoes hmirrored hsight hsignal _ _
    | depart => exact stepDepart_echoes hmirrored hsignal _ _ hplain
    | perform => exact stepPerform_echoes hmirrored hsight hsignal _ _
    | start => exact stepStart_echoes hmirrored hsight hsignal _ _
    | hosted => exact stepHosted_echoes hmirrored hsight hsignal _ _
    | host => exact stepHost_echoes hmirrored hsignal _ _ hplain hsight
  | run hlistens hsight => exact hrun hsight hlistens
  | parked =>
    cases hsignal with
    | go => exact absurd trivial hstays
    | raised | replied => exact .none
  | @walk nodes watches =>
    refine stepDepart_walk_echoes hmirrored hsignal nodes watches ?_
    rintro rfl watch hhead
    obtain ⟨rest, rfl⟩ := List.head?_eq_some_iff.mp hhead
    simpa [Lingers] using hstays
  | cancelling => exact stepDepart_cancelling_echoes hmirrored hsignal _ _
  | @round call rest =>
    refine stepHost_round_echoes hmirrored hsignal call rest ?_
    rintro rfl id hhead
    obtain ⟨rest, rfl⟩ := List.head?_eq_some_iff.mp hhead
    simpa [Lingers] using hstays
  | listening =>
    refine stepHost_listening_echoes hmirrored hsignal _ _ _ ?_
    rintro rfl
    simpa [Lingers] using hstays
  | asleep =>
    cases hsignal with
    | go => exact absurd trivial hstays
    | raised | replied => exact .none

/-- One who walks along watches or entries is held up by a concealed fragment; his likeness goes
on. -/
inductive Frame.HeldUp (handle : ExecutorId → Handle) (veiled : Handle → Bool) :
    Frame → Frame → Prop
  | departure {nodes : NodeSet} {rest : List Watch} :
      HeldUp handle veiled (.depart nodes (.cancelling rest))
        (.depart nodes (.walk (rest.filter fun watch => !veiled (handle watch.executor))))
  | round {call : HostCall} {rest : List ExecutorId} :
      HeldUp handle veiled (.host call (.walk rest))
        (.host call (.walk (rest.filter fun id => !veiled (handle id))))

/-- A step without a counterpart leaves what is seen as it is, and the frame goes on as before
or cancels a concealed fragment. -/
theorem Frame.step_lingers (hlingers : frame.Lingers handle veiled world signal)
    (hframe : frame.Alike handle veiled frame')
    (hstep : frame.step world view thread signal = some (after, next)) :
    (after.executors = world.executors ∧ after.principals = world.principals) ∧ signal = .go ∧
      ((∃ resumed, next = .goto resumed ∧ resumed.Alike handle veiled frame') ∨
        ∃ walker id, next = .call walker (.cancel id .lockSetup) ∧
          walker.HeldUp handle veiled frame' ∧ veiled (handle id) = true) := by
  revert hlingers
  fun_cases Lingers handle veiled world frame signal
  all_goals intro hlingers
  case case1 id call =>
    simp only [step, stepCall, hlingers, if_true, Option.some.injEq, Prod.mk.injEq] at hstep
    obtain ⟨rfl, rfl⟩ := hstep
    cases hframe with
    | plain hplain hsight => exact ⟨⟨rfl, rfl⟩, rfl, .inl ⟨_, rfl, .parked hsight⟩⟩
  case case2 id call =>
    simp only [step, stepCall] at hstep
    split at hstep
    · simp only [Option.some.injEq, Prod.mk.injEq] at hstep
      obtain ⟨rfl, rfl⟩ := hstep
      cases hframe with
      | plain hplain _ => cases hplain
      | parked hsight => exact ⟨⟨rfl, rfl⟩, rfl, .inl ⟨_, rfl, .plain rfl hsight⟩⟩
    · cases hstep
  case case3 nodes watch rest =>
    cases hframe with
    | plain hplain => cases hplain
    | walk =>
      rw [List.filter_cons_of_neg (by simp [hlingers])]
      simp only [step, stepDepart] at hstep
      split at hstep
      · simp only [Option.some.injEq, Prod.mk.injEq] at hstep
        obtain ⟨rfl, rfl⟩ := hstep
        exact ⟨⟨rfl, rfl⟩, rfl, .inr ⟨_, _, rfl, .departure, hlingers⟩⟩
      · simp only [Option.some.injEq, Prod.mk.injEq] at hstep
        obtain ⟨rfl, rfl⟩ := hstep
        exact ⟨⟨rfl, rfl⟩, rfl, .inl ⟨_, rfl, .walk⟩⟩
  case case4 call id rest =>
    cases hframe with
    | plain hplain => cases hplain
    | round =>
      rw [List.filter_cons_of_neg (by simp [hlingers])]
      simp only [step, stepHost, Option.some.injEq, Prod.mk.injEq] at hstep
      obtain ⟨rfl, rfl⟩ := hstep
      exact ⟨⟨rfl, rfl⟩, rfl, .inr ⟨_, _, rfl, .round, hlingers⟩⟩
  case case5 call signals =>
    simp only [step, stepHost, List.isEmpty_iff, hlingers, if_false, Option.some.injEq,
      Prod.mk.injEq] at hstep
    obtain ⟨rfl, rfl⟩ := hstep
    cases hframe with
    | plain hplain => cases hplain
    | listening => exact ⟨⟨rfl, rfl⟩, rfl, .inl ⟨_, rfl, .asleep⟩⟩
  case case6 call signals =>
    simp only [step, stepHost] at hstep
    split at hstep
    · cases hstep
    · simp only [Option.some.injEq, Prod.mk.injEq] at hstep
      obtain ⟨rfl, rfl⟩ := hstep
      cases hframe with
      | plain hplain => cases hplain
      | asleep => exact ⟨⟨rfl, rfl⟩, rfl, .inl ⟨_, rfl, .listening⟩⟩
  case case7 => exact hlingers.elim

end Steps

end FragmentLifecycle
