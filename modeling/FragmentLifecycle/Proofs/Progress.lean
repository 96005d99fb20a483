import FragmentLifecycle.Proofs.Setup

/-!
# What stops a thread

A frame that has been called goes on by itself, and a frame that waits for another one takes
up whatever this one gives back.  So a thread that has not ended takes a step, unless its
innermost frame finds a lock held or the gate shut, or rests: in a pause, without its park
token, before a slot or until the table of fragments is empty
(`System.ReachableUnder.stuck_cases`).
-/

namespace FragmentLifecycle

/-! ## What a frame waits for -/

/-- A frame that finds a lock held or the gate shut. -/
inductive Frame.Blocked (world : World) (view : LockView) : Frame → Prop
  | runSetup {id l} (hheld : view.setupHeldElsewhere id = true) :
      Blocked world view (.run id l .lockSetup)
  | cancelSetup {id} (hheld : view.setupHeldElsewhere id = true) :
      Blocked world view (.cancel id .lockSetup)
  | closing {id} (hheld : view.closingHeld id = true) :
      Blocked world view (.closeResources id .lockClosing)
  | cancelGate {id} (hshut : (world.executors id).gate.isOpen = false) :
      Blocked world view (.cancel id .waitGate)
  | finishedGate {id receiver} (hshut : (world.executors id).gate.isOpen = false) :
      Blocked world view (.finished id receiver .waitGate)

/-- A frame that waits for a wake-up, the end of a pause, a slot or an empty table. -/
inductive Frame.Rests (world : World) (thread : ThreadId) : Frame → Prop
  | parked {id call} (htoken : world.tokens thread = false) :
      Rests world thread (.call id call .parked)
  | paused {id site generation}
      (hlasts : (world.executors id).controls.isOver generation = false) :
      Rests world thread (.pause id site (.paused generation))
  | queued {id refusal} (hnone : world.host.slots.take? thread = none) :
      Rests world thread (.start id refusal .awaitSlot)
  | asleep {call signals} (hsame : world.host.idleSignals = signals) :
      Rests world thread (.host call (.asleep signals))

/-- The points at which a run waits for a frame that it called. -/
def RunPoint.isWaiting : RunPoint → Bool
  | .building | .announcing | .pausing _ | .advancing _ | .alarming _ | .recording | .closing
  | .reporting => true
  | _ => false

/-- The frames that go on without a result.  The walk of a host goes on with one, too. -/
def Frame.isReady : Frame → Bool
  | .run _ _ point => !point.isWaiting
  | .cancel _ .closing | .cancel _ .announcing => false
  | .closeResources _ point => point.isOpening
  | .call _ _ (.acting _ _) => false
  | .perform _ _ .waiting => false
  | .depart _ (.cancelling _) => false
  | .start _ _ .cancelling => false
  | .hosted _ _ .running => false
  | .host _ .waiting => false
  | _ => true

/-- A frame goes on by itself, or with a result of the frame that it waits for.  An action
has an answer, and the record of a failure never panics. -/
def Frame.TakesUp (frame : Frame) : Signal → Prop
  | .go => frame.isReady = true
  | .replied reply => ∃ role, frame.Awaits role ∧
      ∀ id action, role = .perform id action → ∃ answer, reply = .answer answer
  | .raised _ => ∃ role, frame.Awaits role ∧ ∀ id cause, role ≠ .fail id cause

section Progress

variable {world : World} {view : LockView} {thread : ThreadId} {frame : Frame} {reply : Reply}
  {payload : Payload}

private theorem stepRun_go {id : ExecutorId} {l : Option ListenerId} {point : RunPoint}
    (hpoint : point.isWaiting = false)
    (hnone : stepRun world view thread id l point .go = none) :
    point = .lockSetup ∧ view.setupHeldElsewhere id = true := by
  cases point
  all_goals simp [stepRun, RunPoint.inSetup, RunPoint.inWindDown, RunPoint.holdsSetup, stepSetup,
    stepDrive, stepWindDown] at hnone
  case lockSetup => exact ⟨rfl, hnone⟩
  case building | announcing | pausing | advancing | alarming | recording | closing | reporting =>
    cases hpoint
  all_goals (repeat' split at hnone) <;> cases hnone

private theorem stepCancel_go {id : ExecutorId} {point : CancelPoint}
    (hready : (Frame.cancel id point).isReady = true)
    (hnone : stepCancel world view thread id point .go = none) :
    (Frame.cancel id point).Blocked world view := by
  cases point
  all_goals simp [stepCancel] at hnone
  case lockSetup => exact .cancelSetup hnone
  case waitGate => exact .cancelGate hnone
  case closing | announcing => cases hready
  all_goals (repeat' split at hnone) <;> cases hnone

private theorem stepClose_go {id : ExecutorId} {point : ClosePoint}
    (hready : point.isOpening = true) (hnone : stepClose world view id point .go = none) :
    (Frame.closeResources id point).Blocked world view := by
  cases point
  all_goals simp [stepClose] at hnone
  case lockClosing =>
    refine .closing ?_
    by_contra hfree
    have hstuck := hnone (by simpa using hfree)
    split at hstuck <;> cases hstuck
  case takeTree => split at hnone <;> cases hnone
  all_goals cases hready

private theorem stepCall_go {id : ExecutorId} {call : Call} {point : CallPoint}
    (hready : (Frame.call id call point).isReady = true)
    (hnone : stepCall world thread id call point .go = none) :
    (Frame.call id call point).Rests world thread := by
  cases point with
  | play actions => cases actions <;> simp [stepCall] at hnone
  | acting => cases hready
  | parked => exact .parked (by simpa [stepCall] using hnone)
  | enter | detach | resumeAll => simp [stepCall] at hnone
  | markClosed | parking =>
    simp only [stepCall] at hnone
    split at hnone <;> cases hnone

private theorem stepPause_go {id : ExecutorId} {site : String} {point : PausePoint}
    (hnone : stepPause world id site point .go = none) :
    (Frame.pause id site point).Rests world thread := by
  cases point with
  | reach =>
    simp only [stepPause] at hnone
    split at hnone <;> cases hnone
  | paused generation => exact .paused (by simpa [stepPause] using hnone)

private theorem stepFinished_go {id : ExecutorId} {receiver : Handle} {point : FinishedPoint}
    (hnone : stepFinished world thread id receiver point .go = none) :
    (Frame.finished id receiver point).Blocked world view := by
  cases point
  all_goals simp [stepFinished] at hnone
  case waitGate => exact .finishedGate hnone
  case fetchTree => split at hnone <;> cases hnone

private theorem stepDepart_go {nodes : NodeSet} {point : DepartPoint}
    (hready : (Frame.depart nodes point).isReady = true) :
    stepDepart world nodes point .go ≠ none := by
  intro hnone
  cases point with
  | walk watches =>
    cases watches with
    | nil => cases hnone
    | cons watch rest =>
      simp only [stepDepart] at hnone
      split at hnone <;> cases hnone
  | cancelling => cases hready
  | start | snapshot => cases hnone

private theorem stepPerform_go {id : ExecutorId} {action : Action} {point : PerformPoint}
    (hready : (Frame.perform id action point).isReady = true) :
    stepPerform world thread id action point .go ≠ none := by
  cases point with
  | waiting => cases hready
  | start | readStats => simp [stepPerform]

private theorem stepStart_go {id : ExecutorId} {refusal : Option String} {point : StartPoint}
    (hready : (Frame.start id refusal point).isReady = true)
    (hnone : stepStart world thread id refusal point .go = none) :
    (Frame.start id refusal point).Rests world thread := by
  cases point with
  | awaitSlot => exact .queued (by simpa [stepStart] using hnone)
  | cancelling => cases hready
  | register | spawn =>
    simp only [stepStart] at hnone
    split at hnone <;> cases hnone
  | requestSlot | reject | withdraw => simp [stepStart] at hnone

private theorem stepHosted_go {id : ExecutorId} {handle : Handle} {point : HostedPoint}
    (hready : (Frame.hosted id handle point).isReady = true) :
    stepHosted world id handle point .go ≠ none := by
  cases point with
  | running => cases hready
  | start | deregister | releaseSlot | releaseUnwound => simp [stepHosted]

private theorem stepHost_go {call : HostCall} {point : HostPoint}
    (hready : (Frame.host call point).isReady = true)
    (hnone : stepHost world call point .go = none) :
    (Frame.host call point).Rests world thread := by
  cases point with
  | walk ids => cases ids <;> simp [stepHost] at hnone
  | asleep signals =>
    refine .asleep ?_
    by_contra hother
    simp [stepHost, hother] at hnone
  | waiting => cases hready
  | start => simp [stepHost] at hnone
  | listening =>
    simp only [stepHost] at hnone
    split at hnone <;> cases hnone

/-- A frame that goes on by itself takes a step, or is blocked, or rests. -/
theorem Frame.stuck_of_go (hready : frame.isReady = true)
    (hnone : frame.step world view thread .go = none) :
    frame.Blocked world view ∨ frame.Rests world thread := by
  cases frame with
  | run id l point =>
    obtain ⟨rfl, hheld⟩ := stepRun_go (by simpa [Frame.isReady] using hready) hnone
    exact .inl (.runSetup hheld)
  | cancel id point => exact .inl (stepCancel_go hready hnone)
  | closeResources id point => exact .inl (stepClose_go hready hnone)
  | fail id cause point => cases point <;> simp [Frame.step, stepFail] at hnone
  | call id target point => exact .inr (stepCall_go hready hnone)
  | pause id site point => exact .inr (stepPause_go hnone)
  | finished id receiver point => exact .inl (stepFinished_go hnone)
  | depart nodes point => exact absurd hnone (stepDepart_go hready)
  | perform id action point => exact absurd hnone (stepPerform_go hready)
  | start id refusal point => exact .inr (stepStart_go hready hnone)
  | hosted id handle point => exact absurd hnone (stepHosted_go hready)
  | host call point => exact .inr (stepHost_go hready hnone)

/-- A frame takes up the result of the frame that it waits for. -/
theorem Frame.step_of_reply (htakes : frame.TakesUp (.replied reply)) :
    frame.step world view thread (.replied reply) ≠ none := by
  obtain ⟨role, hawaits, hanswers⟩ := htakes
  cases hawaits with
  | action =>
    obtain ⟨answer, rfl⟩ := hanswers _ _ rfl
    simp [Frame.step, stepCall]
  | build | running | pause | next | alarm | failure | close | stateReport | failureReport =>
    rcases reply with _ | (_ | _) | _
    all_goals simp [Frame.step, stepRun, RunPoint.inSetup, RunPoint.inWindDown,
      RunPoint.holdsSetup, stepSetup, stepDrive, stepWindDown]
  | cancelClose | cancelReport => simp [Frame.step, stepCancel]
  | closeRoot | closeFailure | closeContext => cases reply <;> simp [Frame.step, stepClose]
  | entry => simp [Frame.step, stepPerform]
  | departure => simp [Frame.step, stepDepart]
  | withdrawal => simp [Frame.step, stepStart]
  | hosted => simp [Frame.step, stepHosted]
  | hostCancel | hostUnpause | hostFinished => simp [Frame.step, stepHost]
  | @hostWalk _ rest => cases rest <;> simp [Frame.step, stepHost]

theorem Frame.step_of_panic (htakes : frame.TakesUp (.raised payload)) :
    frame.step world view thread (.raised payload) ≠ none := by
  obtain ⟨role, hawaits, hrecords⟩ := htakes
  cases hawaits with
  | failure | closeFailure => exact absurd rfl (hrecords _ _)
  | build | running | pause | next | alarm | close | stateReport | failureReport =>
    simp [Frame.step, stepRun, RunPoint.inSetup, RunPoint.inWindDown, RunPoint.holdsSetup,
      stepSetup, stepDrive, stepWindDown]
  | cancelClose | cancelReport => simp [Frame.step, stepCancel]
  | closeRoot | closeContext => simp [Frame.step, stepClose]
  | action => simp [Frame.step, stepCall]
  | entry => simp [Frame.step, stepPerform]
  | departure => simp [Frame.step, stepDepart]
  | withdrawal => simp [Frame.step, stepStart]
  | hosted => simp [Frame.step, stepHosted]
  | hostCancel | hostUnpause | hostFinished => simp [Frame.step, stepHost]
  | @hostWalk _ rest => cases rest <;> simp [Frame.step, stepHost]

end Progress

/-! ## What a step leaves behind -/

section Steps

variable {world after : World} {view : LockView} {thread : ThreadId} {frame : Frame}
  {signal : Signal} {next : Next} {id : ExecutorId} {executor executor' : Executor}

/-- The innermost frame after a step that called or went on is ready, and so is the frame of
a new thread. -/
def Next.LeavesReady (next : Next) : Prop :=
  ∀ top ∈ (next.frames ++ next.forked).head?, top.isReady = true

theorem Transition.leavesReady
    (htransition : Transition view thread id frame signal executor next executor')
    (hcore : frame.isCore id = true) : next.LeavesReady := by
  cases htransition
  case aside houtside _ _ => simp [houtside] at hcore
  case callProceeds hpoints _ _ =>
    rintro _ ⟨⟩
    cases hpoints <;> rfl
  all_goals
    rintro _ ⟨⟩
    try rfl

private theorem stepPause_ready {site : String} {point : PausePoint}
    (hstep : stepPause world id site point signal = some (after, next)) : next.LeavesReady := by
  revert hstep
  fun_cases stepPause world id site point signal
  all_goals
    intro hstep
    simp only [reduceCtorEq, Option.some.injEq, Prod.mk.injEq] at hstep
  all_goals
    obtain ⟨-, rfl⟩ := hstep
    rintro _ ⟨⟩
    try rfl

private theorem stepFinished_ready {receiver : Handle} {point : FinishedPoint}
    (hstep : stepFinished world thread id receiver point signal = some (after, next)) :
    next.LeavesReady := by
  revert hstep
  fun_cases stepFinished world thread id receiver point signal
  all_goals
    intro hstep
    simp only [reduceCtorEq, Option.some.injEq, Prod.mk.injEq] at hstep
  all_goals
    obtain ⟨-, rfl⟩ := hstep
    rintro _ ⟨⟩
    try rfl

private theorem stepDepart_ready {nodes : NodeSet} {point : DepartPoint}
    (hstep : stepDepart world nodes point signal = some (after, next)) : next.LeavesReady := by
  revert hstep
  fun_cases stepDepart world nodes point signal
  all_goals
    intro hstep
    simp only [reduceCtorEq, Option.some.injEq, Prod.mk.injEq] at hstep
  all_goals
    obtain ⟨-, rfl⟩ := hstep
    rintro _ ⟨⟩
    try rfl

private theorem startAction_ready {action : Action}
    (hstep : startAction world thread id action = (after, next)) : next.LeavesReady := by
  revert hstep
  fun_cases startAction world thread id action
  all_goals
    intro hstep
    obtain ⟨-, rfl⟩ := Prod.mk.inj hstep
    rintro _ ⟨⟩
    try rfl

private theorem stepPerform_ready {action : Action} {point : PerformPoint}
    (hstep : stepPerform world thread id action point signal = some (after, next)) :
    next.LeavesReady := by
  revert hstep
  fun_cases stepPerform world thread id action point signal
  all_goals
    intro hstep
    simp only [reduceCtorEq, Option.some.injEq, Prod.mk.injEq] at hstep
  case case1 => exact startAction_ready hstep
  all_goals
    obtain ⟨-, rfl⟩ := hstep
    rintro _ ⟨⟩

private theorem stepStart_ready {refusal : Option String} {point : StartPoint}
    (hstep : stepStart world thread id refusal point signal = some (after, next)) :
    next.LeavesReady := by
  revert hstep
  fun_cases stepStart world thread id refusal point signal
  all_goals
    intro hstep
    simp only [reduceCtorEq, Option.some.injEq, Prod.mk.injEq] at hstep
  case case2 =>
    obtain ⟨slots, -, hslots⟩ := Option.map_eq_some_iff.mp hstep
    obtain ⟨-, rfl⟩ := Prod.mk.inj hslots
    rintro _ ⟨⟩
    rfl
  all_goals
    obtain ⟨-, rfl⟩ := hstep
    rintro _ ⟨⟩
    try rfl

private theorem stepHosted_ready {handle : Handle} {point : HostedPoint}
    (hstep : stepHosted world id handle point signal = some (after, next)) :
    next.LeavesReady := by
  revert hstep
  fun_cases stepHosted world id handle point signal
  all_goals
    intro hstep
    simp only [reduceCtorEq, Option.some.injEq, Prod.mk.injEq] at hstep
  all_goals
    obtain ⟨-, rfl⟩ := hstep
    rintro _ ⟨⟩
    try rfl

private theorem startHostCall_ready {call : HostCall}
    (hstep : startHostCall world call = (after, next)) : next.LeavesReady := by
  cases call
  all_goals
    simp only [startHostCall] at hstep
    try split at hstep
    all_goals
      obtain ⟨-, rfl⟩ := Prod.mk.inj hstep
      rintro _ ⟨⟩
      try rfl

private theorem stepHost_ready {call : HostCall} {point : HostPoint}
    (hstep : stepHost world call point signal = some (after, next)) : next.LeavesReady := by
  revert hstep
  fun_cases stepHost world call point signal
  all_goals
    intro hstep
    simp only [reduceCtorEq, Option.some.injEq, Prod.mk.injEq] at hstep
  case case1 => exact startHostCall_ready hstep
  all_goals
    obtain ⟨-, rfl⟩ := hstep
    rintro _ ⟨⟩
    try rfl

theorem Frame.step_leavesReady
    (hstep : frame.step world view thread signal = some (after, next)) : next.LeavesReady := by
  cases frame with
  | run owner _ _ | cancel owner _ | closeResources owner _ | fail owner _ _ | call owner _ _ =>
    exact (Frame.step_transition owner hstep).leavesReady (by simp [Frame.isCore])
  | pause owner site point => exact stepPause_ready hstep
  | finished owner receiver point => exact stepFinished_ready hstep
  | depart nodes point => exact stepDepart_ready hstep
  | perform owner action point => exact stepPerform_ready hstep
  | start owner refusal point => exact stepStart_ready hstep
  | hosted owner handle point => exact stepHosted_ready hstep
  | host message point => exact stepHost_ready hstep

/-- An action gives back an answer. -/
theorem Frame.answer_of_perform {action : Action} {point : PerformPoint} {reply : Reply}
    (hstep : (Frame.perform id action point).step world view thread signal = some (after, next))
    (hreply : next.signal = .replied reply) : ∃ answer, reply = .answer answer := by
  revert hstep
  rw [Frame.step]
  fun_cases stepPerform world thread id action point signal
  all_goals
    intro hstep
    simp only [reduceCtorEq, Option.some.injEq, Prod.mk.injEq] at hstep
  case case1 =>
    revert hstep
    fun_cases startAction world thread id action
    all_goals
      intro hstep
      obtain ⟨-, rfl⟩ := Prod.mk.inj hstep
      cases hreply
    all_goals exact ⟨_, rfl⟩
  all_goals
    obtain ⟨-, rfl⟩ := hstep
    cases hreply
  all_goals exact ⟨_, rfl⟩

/-- The record of a failure returns. -/
theorem Transition.not_raised_of_fail {cause : Fault} {point : FailPoint} {payload : Payload}
    (htransition :
      Transition view thread id (.fail id cause point) signal executor next executor') :
    next.signal ≠ .raised payload := by
  cases htransition with
  | causeAppended | failureRequested => rintro ⟨⟩
  | aside houtside => simp [Frame.isCore] at houtside

/-- What a frame gives back is taken up by the frame that waits for it. -/
theorem Frame.Awaits.takesUp {caller : Frame} (hawaits : caller.Awaits frame.role)
    (hstep : frame.step world view thread signal = some (after, next))
    (hover : next.frames = []) : caller.TakesUp next.signal := by
  have hanswers (reply : Reply) (hreply : next.signal = .replied reply) (id : ExecutorId)
      (action : Action) (hrole : frame.role = .perform id action) :
      ∃ answer, reply = .answer answer := by
    obtain ⟨point, rfl⟩ := Frame.eq_perform_of_role hrole
    exact Frame.answer_of_perform hstep hreply
  cases next with
  | goto | call => cases hover
  | reply reply | fork reply => exact ⟨_, hawaits, hanswers reply rfl⟩
  | raise payload =>
    refine ⟨_, hawaits, fun id cause hrole => ?_⟩
    obtain ⟨point, rfl⟩ := Frame.eq_fail_of_role hrole
    exact (Frame.step_transition id hstep).not_raised_of_fail rfl

end Steps

namespace System

section Progress

variable {fragments : List Fragment} {host : Host} {permitted : Command → Prop}
  {system : System} {thread : ThreadId} {frame : Frame} {rest : List Frame}

/-- The innermost frame of a thread takes up what its thread has for it. -/
theorem ReachableUnder.takesUp
    (hreach : (ofFragments fragments host).ReachableUnder permitted system)
    (hframes : system.frames thread = frame :: rest) : frame.TakesUp (system.signal thread) := by
  induction hreach generalizing thread frame rest with
  | refl => cases hframes
  | @move system after move _ hreach hmove ih =>
    obtain ⟨mover, top, below, next, hadvance⟩ | ⟨mover, root, hturn⟩ := advance_or_turnover hmove
    · have hready := Frame.step_leavesReady hadvance.step
      by_cases hthread : thread = mover
      · subst hthread
        have hlinked := hadvance.frames ▸ hreach.linked thread
        rw [hadvance.own] at hframes
        rw [hadvance.ownSignal]
        cases next with
        | goto resumed | call _ resumed =>
          obtain ⟨rfl, -⟩ := List.cons.inj hframes
          exact hready _ rfl
        | reply | raise | fork =>
          obtain rfl : below = frame :: rest := hframes
          exact hlinked.awaits.takesUp hadvance.step rfl
      · rcases hadvance.others thread hthread with ⟨hsame, hsignal⟩ | ⟨-, hforked, hsignal⟩
        · rw [hsignal]
          exact ih (hsame.symm.trans hframes)
        · rw [hforked] at hframes
          rw [hsignal]
          cases next with
          | fork reply started hosts =>
            obtain ⟨rfl, -⟩ := List.cons.inj hframes
            exact hready _ rfl
          | goto | call | reply | raise => cases hframes
    · by_cases hthread : thread = mover
      · subst hthread
        rcases hturn.own with ⟨-, hroot, hsignal⟩ | ⟨-, hnone⟩
        · obtain ⟨command, rfl⟩ := hturn.began hroot
          obtain ⟨rfl, -⟩ := List.cons.inj (hframes.symm.trans hroot)
          rw [hsignal]
          cases command <;> rfl
        · rw [hnone] at hframes
          cases hframes
      · obtain ⟨hsame, hsignal⟩ := hturn.others thread hthread
        rw [hsignal]
        exact ih (hsame.symm.trans hframes)

/-- A thread that has not ended and takes no step is blocked or rests. -/
theorem ReachableUnder.stuck_cases
    (hreach : (ofFragments fragments host).ReachableUnder permitted system)
    (hexit : system.world.exit = none) (hframes : system.frames thread = frame :: rest)
    (hstuck : system.step thread = none) :
    frame.Blocked system.world (system.view thread) ∨ frame.Rests system.world thread := by
  have htakes := hreach.takesUp hframes
  have hnone : frame.step system.world (system.view thread) thread (system.signal thread) =
      none := by
    by_contra hsome
    obtain ⟨⟨world, next⟩, hstep⟩ := Option.ne_none_iff_exists'.mp hsome
    obtain ⟨after, hafter, -⟩ := exists_advance hexit hframes hstep
    rw [hafter] at hstuck
    cases hstuck
  cases hsignal : system.signal thread with
  | go =>
    rw [hsignal] at htakes hnone
    exact Frame.stuck_of_go htakes hnone
  | replied reply =>
    rw [hsignal] at htakes hnone
    exact absurd hnone (Frame.step_of_reply htakes)
  | raised payload =>
    rw [hsignal] at htakes hnone
    exact absurd hnone (Frame.step_of_panic htakes)

end Progress

end System

end FragmentLifecycle
