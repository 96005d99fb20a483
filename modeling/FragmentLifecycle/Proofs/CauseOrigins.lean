import FragmentLifecycle.Proofs.Causes

/-!
# Where a cause comes from

A cause is recorded by the run for an error that drove it to its end, by the close of the
resources for an error of the tree, or through a sink.  The kind of the report is that of
the first cause.  Only the run turns an exhaustion into an error of execution and raises
the alarm for the heap, so only there an exhaustion is sure to be reported as one
(`System.exhaustion_classified_by_origin`).
-/

namespace FragmentLifecycle

/-- The calls whose errors end a run: the build of the tree and its advances. -/
def Call.drives : Call → Bool
  | .build | .next _ => true
  | _ => false

/-- A call on a collaborator of the fragment returns an error. -/
def Fragment.Returns (fragment : Fragment) (call : Call) (fault : Fault) : Prop :=
  (fragment.script.planOf call).outcome = .error fault

/-- An exhaustion that `fault` carries is that of the heap. -/
def Fault.ExhaustsHeap (fault : Fault) (exhaustion : OutOfMemory) : Prop :=
  fault.outOfMemory? = some exhaustion ∧ exhaustion.pool.isRecoverable = false

/-- What the run records for an error that a call returned. -/
def Fault.settled (fault : Fault) : Fault :=
  match fault.outOfMemory? with
  | none => fault
  | some exhaustion => .execution (.memory exhaustion)

/-- A cause that no call returned: a panic, or a request that is refused. -/
inductive Fault.IsInternal : Fault → Prop
  | panicked (payload : Payload) : IsInternal (panicFault payload)
  | refused (current target : State) : IsInternal (.execution (.invalidTransition current target))

/-- What the faults that a run carries come from. -/
def RunPoint.Explained (fragment : Fragment) : RunPoint → Prop
  | .settleFault fault =>
      (∃ call, call.drives = true ∧ fragment.Returns call fault) ∨ fault.IsInternal
  | .restorePrincipal _ (.failed fault) => ∃ call, call.drives = true ∧ fragment.Returns call fault
  | .alarming exhaustion =>
      ∃ call fault, call.drives = true ∧ fragment.Returns call fault ∧ fault.ExhaustsHeap exhaustion
  | _ => True

/-- The handler of an exhausted heap has been called. -/
def Executor.Alarmed (executor : Executor) (exhaustion : OutOfMemory) : Prop :=
  ∃ thread, ⟨thread, .entered (.exhausted exhaustion)⟩ ∈ executor.journal

/-- Who records a cause, what for, and the kind that a report gets by it.  An exhaustion
that drove a run to its end makes the report one of memory; elsewhere that takes an error
of execution around it. -/
inductive CauseOrigin (executor : Executor) (id : ExecutorId) :
    Fault → FailureKind → Frame → Prop
  | driven {l : Option ListenerId} {call : Call} {fault : Fault} {kind : FailureKind}
      (hcall : call.drives = true) (hreturns : executor.fragment.Returns call fault)
      (hkind : ∀ exhaustion, fault.outOfMemory? = some exhaustion → kind = .memory)
      (halarm : ∀ exhaustion, fault.ExhaustsHeap exhaustion → executor.Alarmed exhaustion) :
      CauseOrigin executor id fault.settled kind (.run id l .recording)
  | closed {fault : Fault} {kind : FailureKind}
      (hreturns : executor.fragment.Returns .closeRoot fault)
      (hkind : kind = .memory ↔ ∃ exhaustion, fault.execution? = some (.memory exhaustion)) :
      CauseOrigin executor id (.within (.text closeFailureText) fault) kind
        (.closeResources id .recording)
  | sunk {cause : Fault} {kind : FailureKind} {action : Action}
      (haction : action = .fail cause ∨ action = .heldFail cause)
      (hkind : kind = .memory ↔ ∃ exhaustion, cause.execution? = some (.memory exhaustion)) :
      CauseOrigin executor id cause kind (.perform id action .waiting)
  | internal {cause : Fault} {kind : FailureKind} {caller : Frame}
      (hinternal : cause.IsInternal) (hkind : kind = .system) :
      CauseOrigin executor id cause kind caller

theorem FailureKind.ofCause_eq_memory {cause : Fault} : FailureKind.ofCause cause = .memory ↔
    ∃ exhaustion, cause.execution? = some (.memory exhaustion) := by
  unfold FailureKind.ofCause
  cases cause.execution? with
  | none => simp
  | some error => cases error <;> simp [ExecutionError.isMemory]

theorem FailureKind.ofCause_settled {fault : Fault} {exhaustion : OutOfMemory}
    (hmemory : fault.outOfMemory? = some exhaustion) :
    FailureKind.ofCause fault.settled = .memory := by
  rw [Fault.settled, hmemory]
  rfl

theorem Fault.IsInternal.kind {fault : Fault} (hinternal : fault.IsInternal) :
    FailureKind.ofCause fault = .system := by
  cases hinternal <;> rfl

section Transitions

variable {view : LockView} {thread : ThreadId} {id : ExecutorId} {frame : Frame}
  {signal : Signal} {executor executor' : Executor} {next : Next} {fault : Fault}

theorem Fault.IsInternal.outOfMemory? (hinternal : fault.IsInternal) :
    fault.outOfMemory? = none := by
  cases hinternal <;> rfl

theorem Executor.Grows.alarmed (hgrows : executor.Grows executor') {exhaustion : OutOfMemory}
    (halarmed : executor.Alarmed exhaustion) : executor'.Alarmed exhaustion :=
  halarmed.imp fun _ hmem => hgrows.journal.subset hmem

theorem CauseOrigin.later {cause : Fault} {kind : FailureKind} {caller : Frame}
    (horigin : CauseOrigin executor id cause kind caller) (hgrows : executor.Grows executor') :
    CauseOrigin executor' id cause kind caller := by
  cases horigin with
  | driven hcall hreturns hkind halarm =>
    rw [← hgrows.fragment] at hreturns
    exact .driven hcall hreturns hkind fun exhaustion hheap =>
      hgrows.alarmed (halarm exhaustion hheap)
  | closed hreturns hkind =>
    rw [← hgrows.fragment] at hreturns
    exact .closed hreturns hkind
  | sunk haction hkind => exact .sunk haction hkind
  | internal hinternal hkind => exact .internal hinternal hkind

/-- A frame that waits for a call on a collaborator waits for nothing else. -/
theorem Frame.Awaits.call_of_call {caller : Frame} {call : Call} {role : Role}
    (hcall : caller.Awaits (.call id call)) (hrole : caller.Awaits role) :
    ∃ call', role = .call id call' := by
  cases hcall with
  | entry hentry =>
    obtain ⟨rfl, rfl, rfl⟩ := Action.entry?_eq_call hentry
    cases hrole with
    | entry hentry' => exact ⟨_, (Option.some.inj hentry').symm⟩
  | _ => cases hrole <;> exact ⟨_, rfl⟩

/-- A call replies with an error where its plan ends in it. -/
theorem Transition.returns_of_failed {call : Call} {point : CallPoint}
    (htransition :
      Transition view thread id (.call id call point) signal executor next executor')
    (hfailed : next.signal = .replied (.failed fault)) : executor.fragment.Returns call fault := by
  have hreplyTo {reply : Reply} (hreply : call.replyTo reply = .failed fault) :
      reply = .failed fault := by
    cases call <;> first | exact hreply | cases hreply
  cases htransition
  case aside houtside _ _ => simp [Frame.isCore] at houtside
  case callReturns reply hreply =>
    obtain rfl := hreplyTo (Signal.replied.inj hfailed)
    rw [Fragment.Returns]
    cases houtcome : (executor.fragment.script.planOf call).outcome with
    | error returned =>
      rw [houtcome] at hreply
      cases hreply
      rfl
    | more | done | panic | park =>
      rw [houtcome] at hreply
      cases hreply
  case parkingReturns => cases hreplyTo (Signal.replied.inj hfailed)
  all_goals cases hfailed

/-- A call that ends has been entered. -/
theorem Transition.inProgress_of_ended {call : Call} {point : CallPoint}
    (htransition :
      Transition view thread id (.call id call point) signal executor next executor')
    (hends : next.frames = []) :
    (Frame.call id call point).inProgress (fun kind => kind = call) = 1 := by
  cases htransition
  case aside houtside _ _ => simp [Frame.isCore] at houtside
  case callReturns | parkingReturns | callPanics | callUnwinds => simp [Frame.inProgress]
  all_goals cases hends

/-- Driving the tree ends as the advance did. -/
theorem Frame.ending_of_advancing {world after : World} {l l' : Option ListenerId}
    {previous previous' : Option Principal} {ending : Ending}
    (hstep : (Frame.run id l (.advancing previous)).step world view thread signal =
      some (after, next))
    (hpushed : .run id l' (.restorePrincipal previous' ending) ∈ next.frames) :
    match ending with
    | .completed => True
    | .failed fault => signal = .replied (.failed fault)
    | .panicked payload => signal = .raised payload := by
  simp only [Frame.step, stepRun, RunPoint.inSetup, RunPoint.holdsSetup, RunPoint.inWindDown,
    Bool.false_eq_true, if_false] at hstep
  revert hstep
  fun_cases stepDrive world thread id l (.advancing previous) signal
  all_goals
    intro hstep
    simp only [reduceCtorEq, Option.some.injEq, Prod.mk.injEq] at hstep
  all_goals
    obtain ⟨-, rfl⟩ := hstep
    simp at hpushed
  all_goals
    obtain ⟨-, -, rfl⟩ := hpushed
    trivial

/-- A run goes on with a fault that a call has returned to it, or that is its own. -/
theorem Transition.explained_pushed {l : Option ListenerId} {point : RunPoint}
    (htransition : Transition view thread id frame signal executor next executor')
    (hcore : frame.isCore id = true)
    (hbefore : ∀ l point, frame = .run id l point → point.Explained executor.fragment)
    (hreturned : ∀ fault call, frame.Awaits (.call id call) → signal = .replied (.failed fault) →
      ∃ call', frame.Awaits (.call id call') ∧ executor.fragment.Returns call' fault)
    (hending : ∀ l l' previous previous' fault, frame = .run id l (.advancing previous) →
      .run id l' (.restorePrincipal previous' (.failed fault)) ∈ next.frames →
      signal = .replied (.failed fault))
    (hpushed : .run id l point ∈ next.frames) : point.Explained executor.fragment := by
  cases htransition
  case aside houtside _ _ => simp [houtside] at hcore
  case buildFails fault =>
    obtain ⟨call, hawaits, hreturns⟩ := hreturned fault .build .build rfl
    cases hawaits
    obtain ⟨rfl, rfl⟩ : l = _ ∧ point = _ := by simpa using hpushed
    exact .inl ⟨_, rfl, hreturns⟩
  case runRefused =>
    obtain ⟨rfl, rfl⟩ : l = _ ∧ point = _ := by simpa using hpushed
    exact .inr (.refused _ _)
  case advanceEnds previous reply ending =>
    obtain ⟨rfl, rfl⟩ : l = _ ∧ point = _ := by simpa using hpushed
    cases ending with
    | completed | panicked => trivial
    | failed fault =>
      obtain ⟨call, hawaits, hreturns⟩ :=
        hreturned fault (.next 0) .next (hending _ _ _ _ _ rfl List.mem_cons_self)
      cases hawaits
      exact ⟨_, rfl, hreturns⟩
  case drivingFailed =>
    obtain ⟨rfl, rfl⟩ : l = _ ∧ point = _ := by simpa using hpushed
    exact .inl (hbefore _ _ rfl)
  case alarmBegins fault exhaustion hmemory hheap =>
    obtain ⟨rfl, rfl⟩ : l = _ ∧ point = _ := by simpa using hpushed
    rcases hbefore _ _ rfl with ⟨call, hcall, hreturns⟩ | hinternal
    · exact ⟨call, fault, hcall, hreturns, hmemory, hheap⟩
    · rw [hinternal.outOfMemory?] at hmemory
      cases hmemory
  all_goals simp at hpushed
  all_goals try obtain ⟨rfl, rfl⟩ := hpushed
  all_goals trivial

/-- A run or a close records what a call returned to it, or a panic. -/
theorem Transition.origin_called {caller : Frame} {cause : Fault} {point : FailPoint}
    (htransition : Transition view thread id frame signal executor
      (.call caller (.fail id cause point)) executor')
    (hcore : frame.isCore id = true)
    (hexplained : ∀ l point, frame = .run id l point → point.Explained executor.fragment)
    (hreturned : ∀ fault call, frame.Awaits (.call id call) → signal = .replied (.failed fault) →
      ∃ call', frame.Awaits (.call id call') ∧ executor.fragment.Returns call' fault)
    (halarmed : ∀ l exhaustion, frame = .run id l (.alarming exhaustion) → signal ≠ .go →
      executor.Alarmed exhaustion) :
    CauseOrigin executor id cause (.ofCause cause) caller := by
  generalize hnext : Next.call caller (.fail id cause point) = next at htransition
  cases htransition
  case aside houtside _ _ => simp [houtside] at hcore
  case buildUnwinds | announceUnwinds | drivingPanicked | rootClosePanics =>
    cases hnext
    exact .internal (.panicked _) rfl
  case faultSettled fault _ hcause =>
    cases hnext
    have hsettled : cause = fault.settled ∧
        ∀ exhaustion, ¬ fault.ExhaustsHeap exhaustion := by
      rcases hcause with ⟨hnone, rfl⟩ | ⟨exhaustion, hmemory, hrecoverable, rfl⟩
      · simp [Fault.settled, Fault.ExhaustsHeap, hnone]
      · refine ⟨by simp [Fault.settled, hmemory], ?_⟩
        rintro other ⟨hother, hheap⟩
        obtain rfl : exhaustion = other := Option.some.inj (hmemory.symm.trans hother)
        rw [hrecoverable] at hheap
        cases hheap
    obtain ⟨rfl, hnot⟩ := hsettled
    rcases hexplained _ _ rfl with ⟨call, hcall, hreturns⟩ | hinternal
    · exact .driven hcall hreturns (fun _ => FailureKind.ofCause_settled)
        fun exhaustion hheap => absurd hheap (hnot exhaustion)
    · rw [Fault.settled, hinternal.outOfMemory?]
      exact .internal hinternal hinternal.kind
  case alarmReturns exhaustion reply =>
    cases hnext
    obtain ⟨call, fault, hcall, hreturns, hmemory, -⟩ := hexplained _ _ rfl
    have hsettled : fault.settled = .execution (.memory exhaustion) := by
      rw [Fault.settled, hmemory]
    rw [← hsettled]
    refine .driven hcall hreturns (fun _ => FailureKind.ofCause_settled) ?_
    rintro other ⟨hother, -⟩
    obtain rfl : exhaustion = other := Option.some.inj (hmemory.symm.trans hother)
    exact halarmed _ _ rfl (by simp)
  case rootCloseFails fault =>
    cases hnext
    obtain ⟨call, hawaits, hreturns⟩ := hreturned fault .closeRoot .closeRoot rfl
    cases hawaits
    exact .closed hreturns FailureKind.ofCause_eq_memory
  all_goals cases hnext

end Transitions

namespace System

section Origins

variable {fragments : List Fragment} {host : Host} {permitted : Command → Prop}
  {system : System} {thread : ThreadId} {id : ExecutorId}

/-- An error that a frame has got from a call is the one in which the call's plan ends. -/
theorem ReachableUnder.returns_of_failed
    (hreach : (ofFragments fragments host).ReachableUnder permitted system) {caller : Frame}
    {rest : List Frame} {call : Call} {fault : Fault}
    (hframes : system.frames thread = caller :: rest) (hawaits : caller.Awaits (.call id call))
    (hfailed : system.signal thread = .replied (.failed fault)) :
    ∃ call', caller.Awaits (.call id call') ∧
      (system.executor id).fragment.Returns call' fault := by
  refine hreach.on_return id (fun executor _ caller signal => ∀ call fault,
    caller.Awaits (.call id call) → signal = .replied (.failed fault) →
      ∃ call', caller.Awaits (.call id call') ∧ executor.fragment.Returns call' fault)
    ?_ ?_ hframes (by simp [hfailed]) call fault hawaits hfailed
  · intro system after thread frame caller rest next _ hadvance htransition hrole _ _ call fault
      hawaits hfailed
    obtain ⟨call', hcall⟩ := hawaits.call_of_call hrole
    obtain ⟨point, rfl⟩ := Frame.eq_call_of_role hcall
    rw [htransition.grows.fragment]
    exact ⟨call', hrole, htransition.returns_of_failed hfailed⟩
  · intro system after thread frame rest next _ _ htransition owner caller signal _ _ hholds
    rw [htransition.grows.fragment]
    exact hholds

theorem ReachableUnder.explained
    (hreach : (ofFragments fragments host).ReachableUnder permitted system)
    {l : Option ListenerId} {point : RunPoint} (hmem : .run id l point ∈ system.frames thread) :
    point.Explained (system.executor id).fragment := by
  refine hreach.everywhere id (fun executor _ frame => ∀ l point, frame = .run id l point →
    point.Explained executor.fragment) ?_ ?_ ?_ hmem (by simp [Frame.isCore]) l point rfl
  · rintro executor thread _ ⟨⟩ l point ⟨⟩
    trivial
  · rintro system after thread frame rest next hreach hadvance htransition hcore hbefore _ hpushed
      - l point rfl
    rw [htransition.grows.fragment]
    refine htransition.explained_pushed hcore hbefore ?_ ?_ hpushed
    · intro fault call hawaits hfailed
      exact hreach.returns_of_failed hadvance.frames hawaits hfailed
    · rintro l l' previous previous' fault rfl hending
      exact Frame.ending_of_advancing hadvance.step hending
  · intro system after thread frame rest next _ _ htransition owner other _ _ hother
    rw [htransition.grows.fragment]
    exact hother

/-- The handler has been called where a run goes on from its alarm. -/
theorem ReachableUnder.alarmed
    (hreach : (ofFragments fragments host).ReachableUnder permitted system)
    {l : Option ListenerId} {exhaustion : OutOfMemory} {rest : List Frame}
    (hframes : system.frames thread = .run id l (.alarming exhaustion) :: rest)
    (hsignal : system.signal thread ≠ .go) : (system.executor id).Alarmed exhaustion := by
  refine hreach.on_return id (fun executor _ caller _ => ∀ l exhaustion,
    caller = .run id l (.alarming exhaustion) → executor.Alarmed exhaustion)
    ?_ ?_ hframes hsignal l exhaustion rfl
  · rintro system after thread frame caller rest next hreach hadvance htransition hawaits hends -
      l exhaustion rfl
    generalize hrole : frame.role = role at hawaits
    cases hawaits
    obtain ⟨point, rfl⟩ := Frame.eq_call_of_role hrole
    have htotal := hreach.calls_total id fun kind => kind = .exhausted exhaustion
    have hweighs := weight_le_total
      (within id (Frame.inProgress fun kind => kind = .exhausted exhaustion))
      (hadvance.frames ▸ List.mem_cons_self)
    rw [within_call, htransition.inProgress_of_ended hends] at hweighs
    obtain ⟨⟨owner, entry⟩, hmem, hentered⟩ := (tally_pos_iff _ _).mp (by omega :
      0 < tally (Entry.isEntered fun kind => kind = .exhausted exhaustion)
        (system.executor id).journal)
    cases entry with
    | entered call =>
      obtain rfl : call = .exhausted exhaustion := by simpa [Entry.isEntered] using hentered
      exact htransition.grows.alarmed ⟨owner, hmem⟩
    | _ => cases hentered
  · intro system after thread frame rest next _ _ htransition owner caller signal _ _ hholds l
      exhaustion hcaller
    exact htransition.grows.alarmed (hholds l exhaustion hcaller)

/-- Every failure on a stack has its origin in the frame below. -/
theorem ReachableUnder.origin
    (hreach : (ofFragments fragments host).ReachableUnder permitted system) {cause : Fault}
    {point : FailPoint} {caller : Frame}
    (hpair : [.fail id cause point, caller] <:+: system.frames thread) :
    CauseOrigin (system.executor id) id cause (.ofCause cause) caller := by
  refine hreach.on_call (fun system _ callee caller => ∀ cause point,
    callee = .fail id cause point →
      CauseOrigin (system.executor id) id cause (.ofCause cause) caller)
    ?_ ?_ ?_ ?_ hpair cause point rfl
  · intro system after thread root hturn owner callee caller hholds
    rw [hturn.executor_eq]
    exact hholds
  · rintro system after thread frame rest caller callee hreach hadvance cause point rfl
    have htransition := Frame.step_transition id hadvance.step
    have htop : frame ∈ system.frames thread := hadvance.frames ▸ List.mem_cons_self
    by_cases hcore : frame.isCore id = true
    · refine CauseOrigin.later ?_ htransition.grows
      refine htransition.origin_called hcore ?_ ?_ ?_
      · rintro l point rfl
        exact hreach.explained htop
      · intro fault call hawaits hfailed
        exact hreach.returns_of_failed hadvance.frames hawaits hfailed
      · rintro l exhaustion rfl hsignal
        exact hreach.alarmed hadvance.frames hsignal
    · -- outside the lifecycle only an action on a sink records a cause
      obtain ⟨hrole, hawaits⟩ := Frame.step_links hadvance.step
      generalize hcallee : (Frame.fail id cause point).role = role at hawaits
      cases hawaits
      case entry owner action hentry =>
        subst hcallee
        have haction : owner = id ∧ (action = .fail cause ∨ action = .heldFail cause) := by
          cases action <;> simp_all [Action.entry?, Frame.role]
        obtain ⟨rfl, haction⟩ := haction
        exact .sunk haction FailureKind.ofCause_eq_memory
      case failure | closeFailure =>
        obtain ⟨rfl, rfl⟩ := Role.fail.inj hcallee
        cases frame <;> simp_all [Frame.role, Frame.isCore]
      all_goals cases hcallee
  · rintro system after thread frame caller rest next hreach hadvance hholds callee - hrole cause
      point rfl
    obtain ⟨point', rfl⟩ := Frame.eq_fail_of_role hrole.symm
    exact (hholds cause point' rfl).later (Frame.step_transition id hadvance.step).grows
  · intro system after thread frame rest next hreach hadvance owner callee caller _ _ hholds cause
      point hcallee
    exact (hholds cause point hcallee).later (Frame.step_transition id hadvance.step).grows

/-- The first of the recorded causes was recorded where there was none. -/
theorem ReachableUnder.first_recording
    (hreach : (ofFragments fragments host).ReachableUnder permitted system) {cause : Fault}
    {others : List Fault}
    (hcauses : recordedCauses (system.executor id).journal = cause :: others) :
    ∃ recording owner caller below,
      (ofFragments fragments host).ReachableUnder permitted recording ∧
      recording.ReachableUnder permitted system ∧
      recording.frames owner = .fail id cause .append :: caller :: below ∧
      recordedCauses (recording.executor id).journal = [] := by
  induction hreach generalizing others with
  | refl => cases hcauses
  | @move system after move hpermitted hreach hmove ih =>
    cases hbefore : recordedCauses (system.executor id).journal with
    | cons first more =>
      have hfirst : first = cause := by
        obtain hsame | ⟨_, _, -, -, hmore⟩ : _ ∨ _ := hreach.recordedCauses_of_move hmove
        · rw [hsame, hbefore] at hcauses
          exact (List.cons.inj hcauses).1
        · rw [hmore, hbefore, List.cons_append] at hcauses
          exact (List.cons.inj hcauses).1
      obtain ⟨recording, owner, caller, below, hrecording, hlater, hframes, hnone⟩ :=
        ih (hfirst ▸ hbefore)
      exact ⟨recording, owner, caller, below, hrecording, hlater.move move hpermitted hmove,
        hframes, hnone⟩
    | nil =>
      rcases advance_or_turnover hmove with ⟨thread, frame, rest, next, hadvance⟩ | ⟨_, _, hturn⟩
      · rcases (Frame.step_transition id hadvance.step).recordedCauses_cases with
          hsame | ⟨added, rfl, hmore⟩ | ⟨l, rfl, hempty⟩
        · simp only [System.executor] at hcauses hbefore
          rw [hsame, hbefore] at hcauses
          cases hcauses
        · simp only [System.executor] at hcauses hbefore
          rw [hmore, hbefore] at hcauses
          obtain rfl := (List.cons.inj hcauses).1
          have hlinked := hadvance.frames ▸ hreach.linked thread
          cases rest with
          | nil => cases hlinked
          | cons caller below =>
            exact ⟨system, thread, caller, below, hreach, .move move hpermitted .refl hmove,
              hadvance.frames, hbefore⟩
        · have hcause := hreach.cause_of_ensureCause (hadvance.frames ▸ List.mem_cons_self)
          rw [System.executor, hempty] at hcause
          cases hcause
      · rw [hturn.executor_eq, hbefore] at hcauses
        cases hcauses

/-- The primary cause of a report is the first that was recorded. -/
theorem ReachableUnder.primary_of_report
    (hreach : (ofFragments fragments host).ReachableUnder permitted system)
    {report : FailureReport}
    (hreported : ⟨thread, .entered (.fail report)⟩ ∈ (system.executor id).journal) :
    report.kind = .ofCause report.causes.primary ∧ ∃ others,
      recordedCauses (system.executor id).journal = report.causes.primary :: others := by
  obtain ⟨seen, after, hjournal⟩ := List.append_of_mem hreported
  obtain ⟨causes, rfl, hdrained⟩ := hreach.drained_of_report hjournal
  obtain ⟨before, gap, rfl⟩ := List.append_of_mem hdrained
  have hread : (system.executor id).journal = before ++ ⟨thread, .drained causes⟩ ::
      (gap ++ ⟨thread, .entered (.fail ((system.executor id).failureReport causes))⟩ :: after) := by
    rw [hjournal]
    simp
  have hone := hreach.drain_le id
  rw [hread, tally_split] at hone
  simp only [Entry.isDrain, Bool.toNat_true] at hone
  have hcauses := hreach.drained_eq id before _ _ hread causes rfl
  rw [undrained_eq_recordedCauses (by omega)] at hcauses
  have hprimary (later : List Record) : recordedCauses (before ++ later) =
      causes.primary :: (causes.suppressed ++ recordedCauses later) := by
    rw [recordedCauses, List.filterMap_append]
    exact congrArg (· ++ recordedCauses later) hcauses.symm
  exact ⟨rfl, _, (congrArg recordedCauses hread).trans (hprimary _)⟩

/-- The handler is called for errors that drove a run to its end, and for nothing else. -/
theorem ReachableUnder.heap_of_alarmed
    (hreach : (ofFragments fragments host).ReachableUnder permitted system)
    {exhaustion : OutOfMemory} (halarmed : (system.executor id).Alarmed exhaustion) :
    ∃ call fault, call.drives = true ∧ (system.executor id).fragment.Returns call fault ∧
      fault.ExhaustsHeap exhaustion := by
  obtain ⟨owner, hmem⟩ := halarmed
  obtain ⟨seen, after, hjournal⟩ := List.append_of_mem hmem
  obtain ⟨earlier, hearlier, -, hcall⟩ := hreach.entered hjournal
  obtain ⟨caller, hcaller, hawaits⟩ := (hearlier.linked owner).exists_caller hcall rfl
  generalize hrole : (Frame.call id (.exhausted exhaustion) .enter).role = role at hawaits
  cases hawaits
  case alarm =>
    obtain ⟨rfl, hsame⟩ := Role.call.inj hrole
    obtain rfl := Call.exhausted.inj hsame
    rw [hreach.fragment_eq, ← hearlier.fragment_eq]
    exact hearlier.explained (List.mem_of_mem_tail hcaller)
  case entry action hentry =>
    subst hrole
    obtain ⟨-, -, hsame⟩ := Action.entry?_eq_call hentry
    cases hsame
  all_goals cases hrole

end Origins

variable {fragments : List Fragment} {host : Host} {system : System} {thread : ThreadId}
  {id : ExecutorId}

/-- Memory exhaustion is classified by the way on which it was recorded.  The report of a
failure has the kind of its first cause.  Where the build or an advance returned the error,
an exhaustion makes the report one of memory, and for the heap the handler has been called
before.  Where the close of the tree returned it, or where it came through a sink, it is
recorded as it is: the report is one of memory only if the error has an error of execution
in it that says so, and the handler is not called on its account. -/
theorem exhaustion_classified_by_origin
    (hreach : (ofFragments fragments host).Reachable system) {report : FailureReport}
    (hreported : ⟨thread, .entered (.fail report)⟩ ∈ (system.executor id).journal) :
    (∃ recording owner caller below, (ofFragments fragments host).Reachable recording ∧
        recording.Reachable system ∧
        recording.frames owner = .fail id report.causes.primary .append :: caller :: below ∧
        recordedCauses (recording.executor id).journal = [] ∧
        CauseOrigin (recording.executor id) id report.causes.primary report.kind caller) ∧
      ∀ exhaustion, (system.executor id).Alarmed exhaustion →
        ∃ call fault, call.drives = true ∧ (system.executor id).fragment.Returns call fault ∧
          fault.ExhaustsHeap exhaustion := by
  have hunder := hreach.unrestricted
  obtain ⟨hkind, others, hcauses⟩ := hunder.primary_of_report hreported
  obtain ⟨recording, owner, caller, below, hrecording, hlater, hframes, hnone⟩ :=
    hunder.first_recording hcauses
  refine ⟨⟨recording, owner, caller, below, hrecording.reachable, hlater.reachable, hframes,
    hnone, ?_⟩, fun exhaustion => hunder.heap_of_alarmed⟩
  rw [hkind]
  have hpair : [.fail id report.causes.primary .append, caller] <:+: recording.frames owner := by
    rw [hframes]
    exact (List.prefix_append [_, caller] below).isInfix
  exact hrecording.origin hpair

/-- A fragment that cancels itself while it is driven, and whose tree exhausts the heap when
it is closed. -/
def exhaustedByClose : Fragment :=
  { Fragment.vacant with
    script :=
      { steps := [{ actions := [.cancel] }]
        closeRoot := { outcome := .error (.outOfMemory ⟨.heap, "m"⟩) } } }

/-- A heap that is exhausted, as a sink and as the close of the tree tell it: the report is
none of memory, and the handler is never called. -/
theorem exhaustion_classified_by_origin_of_sink_and_close :
    (∃ system report, (ofFragments [.vacant] { slots := { free := 0 } }).Reachable system ∧
        ⟨1, .entered (.fail report)⟩ ∈ (system.executor 0).journal ∧
        report.causes.primary = .outOfMemory ⟨.heap, "m"⟩ ∧ report.kind = .system ∧
        ∀ exhaustion, ¬ (system.executor 0).Alarmed exhaustion) ∧
      ∃ system report,
        (ofFragments [exhaustedByClose] { slots := { free := 0 } }).Reachable system ∧
        ⟨0, .entered (.fail report)⟩ ∈ (system.executor 0).journal ∧
        report.causes.primary = .within (.text closeFailureText) (.outOfMemory ⟨.heap, "m"⟩) ∧
        report.kind = .system ∧ ∀ exhaustion, ¬ (system.executor 0).Alarmed exhaustion := by
  have hquiet {fragment : Fragment} {call : Call} {fault : Fault} (hcall : call.drives = true)
      (hfragment : fragment = .vacant ∨ fragment = exhaustedByClose) :
      ¬ fragment.Returns call fault := by
    intro hreturns
    rcases hfragment with rfl | rfl
    · cases call <;> cases hcall <;> cases hreturns
    · rcases call with _ | (_ | index) | _ | _ | _ | _ | _ <;> cases hcall <;> cases hreturns
  constructor
  · let report : FailureReport := .ofCauses ⟨.outOfMemory ⟨.heap, "m"⟩, []⟩
      Fragment.vacant.identity.endpoint Fragment.vacant.identity.handle
    obtain ⟨system, hreach, hjournal⟩ := exists_of_moves
      (ofFragments [.vacant] { slots := { free := 0 } })
      (.call (.act 0 (.heldFail (.outOfMemory ⟨.heap, "m"⟩))) :: List.replicate 4 (.step 0) ++
        .call (.act 0 .run) :: List.replicate 26 (.step 1))
      (fun system => (system.executor 0).journal.drop 7) [⟨1, .entered (.fail report)⟩] rfl
    have hreported : ⟨1, .entered (.fail report)⟩ ∈ (system.executor 0).journal :=
      List.mem_of_mem_drop (hjournal ▸ List.mem_singleton_self _)
    refine ⟨system, report, hreach, hreported, rfl, rfl, fun exhaustion halarmed => ?_⟩
    obtain ⟨-, hdriven⟩ := exhaustion_classified_by_origin hreach hreported
    obtain ⟨call, fault, hcall, hreturns, -⟩ := hdriven exhaustion halarmed
    exact hquiet hcall (.inl (hreach.unrestricted.fragment_eq 0)) hreturns
  · let report : FailureReport :=
      .ofCauses ⟨.within (.text closeFailureText) (.outOfMemory ⟨.heap, "m"⟩), []⟩
        Fragment.vacant.identity.endpoint Fragment.vacant.identity.handle
    obtain ⟨system, hreach, hjournal⟩ := exists_of_moves
      (ofFragments [exhaustedByClose] { slots := { free := 0 } })
      (.call (.act 0 .run) :: List.replicate 59 (.step 0))
      (fun system => (system.executor 0).journal.drop 20) [⟨0, .entered (.fail report)⟩] rfl
    have hreported : ⟨0, .entered (.fail report)⟩ ∈ (system.executor 0).journal :=
      List.mem_of_mem_drop (hjournal ▸ List.mem_singleton_self _)
    refine ⟨system, report, hreach, hreported, rfl, rfl, fun exhaustion halarmed => ?_⟩
    obtain ⟨-, hdriven⟩ := exhaustion_classified_by_origin hreach hreported
    obtain ⟨call, fault, hcall, hreturns, -⟩ := hdriven exhaustion halarmed
    exact hquiet hcall (.inr (hreach.unrestricted.fragment_eq 0)) hreturns

end System

end FragmentLifecycle
