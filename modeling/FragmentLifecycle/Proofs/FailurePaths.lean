import FragmentLifecycle.Proofs.FaultHandling

/-!
# How a failure gets to its record

A failure of a fragment is told by a record of the journal and is handed to the run or to
the close of the resources, where its cause is recorded.  A thread that is on the way from
the one to the other conveys the failure: each of its steps brings it nearer
(`Conveys.step`), and nothing is conveyed there that was not told (`Conveys.of_end`,
`Conveys.of_go`).
-/

namespace FragmentLifecycle

/-- What a record tells of a failure: who is to record it, and as what cause.  An error of
the build or of an advance, or a panic of one of them or of the report that the fragment
runs, is recorded by the run, as is a refusal of the running state; an error or a panic of
the close of the tree is recorded by the close of the resources. -/
inductive Entry.Tells (script : Script) (id : ExecutorId) : Entry → Role → Fault → Prop
  | erred {call fault} (hcall : call.drives = true)
      (houtcome : (script.planOf call).outcome = .error fault) :
      Tells script id (.left call false) (.run id) fault.settled
  | panicked {call} (payload : Payload)
      (hcall : call.drives = true ∨ call = .stateChanged .running) :
      Tells script id (.left call true) (.run id) (panicFault payload)
  | refused {current} (hrefused : current.decide .running = .invalid) :
      Tells script id (.requested current .running) (.run id)
        (.execution (.invalidTransition current .running))
  | unclosed {fault} (houtcome : script.closeRoot.outcome = .error fault) :
      Tells script id (.left .closeRoot false) (.closeResources id)
        (.within (.text closeFailureText) fault)
  | closePanicked (payload : Payload) :
      Tells script id (.left .closeRoot true) (.closeResources id) (panicFault payload)

/-- Whether a record tells that the close of the tree has failed. -/
def Entry.IsCloseFailure (script : Script) : Entry → Prop
  | .left .closeRoot unwound =>
      unwound = true ∨ ∃ fault, script.closeRoot.outcome = .error fault
  | _ => False

/-- A cause was recorded, and the request for the failed state, the next thing that its
thread did, was decided in `current`. -/
def TookUp (thread : ThreadId) (cause : Fault) (current : State) (journal : List Record) : Prop :=
  ∃ before after, journal = before ++ ⟨thread, .requested current .failed⟩ :: after ∧
    LastOf thread (.recorded cause) before

/-- The points at which a run catches a panic. -/
def RunPoint.catchesPanic : RunPoint → Bool
  | .building | .announcing | .pausing _ | .advancing _ => true
  | _ => false

/-- A thread brings a failure to the frame that records it: its result has reached this
frame, is being handled there, or is being recorded. -/
inductive Conveys (id : ExecutorId) : Role → Fault → List Frame → Signal → Prop
  | returned {l point fault signal rest} (hreturned : RunPoint.Returned fault point signal) :
      Conveys id (.run id) fault.settled (.run id l point :: rest) signal
  | raised {l point payload rest} (hpoint : point.catchesPanic = true) :
      Conveys id (.run id) (panicFault payload) (.run id l point :: rest) (.raised payload)
  | caught {l previous payload rest} :
      Conveys id (.run id) (panicFault payload)
        (.run id l (.restorePrincipal previous (.panicked payload)) :: rest) .go
  | alarming {l exhaustion above below signal} :
      Conveys id (.run id) (.execution (.memory exhaustion))
        (above ++ .run id l (.alarming exhaustion) :: below) signal
  | unclosed {fault rest} :
      Conveys id (.closeResources id) (.within (.text closeFailureText) fault)
        (.closeResources id .closingRoot :: rest) (.replied (.failed fault))
  | closePanicked {payload rest} :
      Conveys id (.closeResources id) (panicFault payload)
        (.closeResources id .closingRoot :: rest) (.raised payload)
  | recording {caller cause point below} (hawaits : caller.Awaits (.fail id cause)) :
      Conveys id caller.role cause (.fail id cause point :: caller :: below) .go

theorem Fault.settled_of_memory {fault : Fault} {exhaustion : OutOfMemory}
    (hmemory : fault.outOfMemory? = some exhaustion) :
    fault.settled = .execution (.memory exhaustion) := by
  rw [Fault.settled, hmemory]

/-- What the run records for an error that needs no alarm. -/
theorem Fault.eq_settled {fault cause : Fault}
    (hcause : (fault.outOfMemory? = none ∧ cause = fault) ∨
      ∃ exhaustion, fault.outOfMemory? = some exhaustion ∧
        exhaustion.pool.isRecoverable = true ∧ cause = .execution (.memory exhaustion)) :
    cause = fault.settled := by
  rcases hcause with ⟨hnone, rfl⟩ | ⟨exhaustion, hmemory, -, rfl⟩
  · rw [Fault.settled, hnone]
  · exact (Fault.settled_of_memory hmemory).symm

theorem Fault.IsInternal.settled {fault : Fault} (hinternal : fault.IsInternal) :
    fault.settled = fault := by
  rw [Fault.settled, hinternal.outOfMemory?]

namespace Conveys

variable {view : LockView} {thread : ThreadId} {id : ExecutorId} {role : Role} {cause : Fault}
  {frame : Frame} {frames rest : List Frame} {signal : Signal} {next : Next}

theorem exists_core (hconveys : Conveys id role cause frames signal) :
    ∃ frame ∈ frames, frame.isCore id = true := by
  cases hconveys with
  | alarming => exact ⟨_, List.mem_append_right _ List.mem_cons_self, by simp [Frame.isCore]⟩
  | _ => exact ⟨_, List.mem_cons_self, by simp [Frame.isCore]⟩

/-- A failure that the run records is with a run that has come no further. -/
theorem exists_run (hconveys : Conveys id (.run id) cause frames signal) :
    ∃ l point, .run id l point ∈ frames ∧ point ≠ .start ∧ point.isSettled = false := by
  generalize hrole : Role.run id = role at hconveys
  cases hconveys with
  | returned hreturned =>
    refine ⟨_, _, List.mem_cons_self, hreturned.ne_start, ?_⟩
    cases hreturned <;> rfl
  | @raised _ point _ _ hpoint =>
    refine ⟨_, _, List.mem_cons_self, ?_, ?_⟩ <;> cases point <;> simp_all [RunPoint.catchesPanic,
      RunPoint.isSettled]
  | caught => exact ⟨_, _, List.mem_cons_self, by simp, rfl⟩
  | alarming => exact ⟨_, _, List.mem_append_right _ List.mem_cons_self, by simp, rfl⟩
  | @recording caller _ _ _ hawaits =>
    obtain ⟨l, point, rfl⟩ := Frame.eq_run_of_role hrole.symm
    cases hawaits
    exact ⟨_, _, List.mem_cons_of_mem _ List.mem_cons_self, by simp, rfl⟩
  | unclosed | closePanicked => cases hrole

/-- A failure that the close of the resources records is with a close that goes on. -/
theorem exists_closing (hconveys : Conveys id (.closeResources id) cause frames signal) :
    ∃ point, .closeResources id point ∈ frames ∧ point.holdsClosing = true := by
  generalize hrole : Role.closeResources id = role at hconveys
  cases hconveys with
  | unclosed | closePanicked => exact ⟨_, List.mem_cons_self, rfl⟩
  | @recording caller _ _ _ hawaits =>
    obtain ⟨point, rfl⟩ := Frame.eq_closeResources_of_role hrole.symm
    cases hawaits
    exact ⟨_, List.mem_cons_of_mem _ List.mem_cons_self, rfl⟩
  | returned | raised | caught | alarming => cases hrole

/-- A step of the thread brings the failure nearer to its record, or is the request that
comes last; only a panic of the handler of an exhausted heap loses it, with its run. -/
theorem step {world after : World} (hconveys : Conveys id role cause (frame :: rest) signal)
    (hstep : frame.step world view thread signal = some (after, next)) :
    Conveys id role cause (next.frames ++ rest) next.signal ∨
      (after.executors id).course = .unwound thread ∨
      (frame = .fail id cause .request ∧ ∃ caller below, rest = caller :: below ∧
        caller.role = role ∧ caller.Awaits (.fail id cause)) := by
  have htransition := Frame.step_transition id hstep
  generalize world.executors id = executor, after.executors id = executor' at htransition ⊢
  generalize hframes : frame :: rest = frames at hconveys
  cases hconveys with
  | returned hreturned =>
    obtain ⟨rfl, rfl⟩ := List.cons.inj hframes
    left
    cases hreturned with
    | built =>
      obtain ⟨-, rfl⟩ := Prod.mk.inj (Option.some.inj hstep)
      exact .returned .due
    | advanced =>
      obtain ⟨-, rfl⟩ := Prod.mk.inj (Option.some.inj hstep)
      exact .returned .driven
    | driven =>
      obtain ⟨-, rfl⟩ := Prod.mk.inj (Option.some.inj hstep)
      exact .returned .due
    | due =>
      cases htransition with
      | aside houtside => simp [Frame.isCore] at houtside
      | faultSettled hcause =>
        rw [← Fault.eq_settled hcause]
        exact .recording .failure
      | @alarmBegins _ _ _ exhaustion hmemory =>
        rw [Fault.settled_of_memory hmemory]
        exact @alarming id _ exhaustion [_] rest _
  | @raised _ point _ _ hpoint =>
    obtain ⟨rfl, rfl⟩ := List.cons.inj hframes
    cases htransition with
    | aside houtside => simp [Frame.isCore] at houtside
    | buildUnwinds | announceUnwinds => exact .inl (.recording .failure)
    | pauseUnwinds | advanceUnwinds => exact .inl .caught
    | _ => cases hpoint
  | caught =>
    obtain ⟨rfl, rfl⟩ := List.cons.inj hframes
    cases htransition with
    | aside houtside => simp [Frame.isCore] at houtside
    | drivingPanicked => exact .inl (.recording .failure)
  | @alarming l exhaustion above below =>
    cases above with
    | nil =>
      obtain ⟨rfl, rfl⟩ := List.cons.inj hframes
      cases htransition with
      | aside houtside => simp [Frame.isCore] at houtside
      | alarmReturns => exact .inl (.recording .failure)
      | alarmUnwinds => exact .inr (.inl rfl)
    | cons top above =>
      rw [List.cons_append] at hframes
      obtain ⟨rfl, rfl⟩ := List.cons.inj hframes
      rw [← List.append_assoc]
      exact .inl .alarming
  | unclosed =>
    obtain ⟨rfl, rfl⟩ := List.cons.inj hframes
    cases htransition with
    | aside houtside => simp [Frame.isCore] at houtside
    | rootCloseFails => exact .inl (.recording .closeFailure)
    | rootCloses hreply => exact absurd rfl (hreply _)
  | closePanicked =>
    obtain ⟨rfl, rfl⟩ := List.cons.inj hframes
    cases htransition with
    | aside houtside => simp [Frame.isCore] at houtside
    | rootClosePanics => exact .inl (.recording .closeFailure)
  | @recording caller _ _ below hawaits =>
    obtain ⟨rfl, rfl⟩ := List.cons.inj hframes
    cases htransition with
    | aside houtside => simp [Frame.isCore] at houtside
    | causeAppended => exact .inl (.recording hawaits)
    | failureRequested => exact .inr (.inr ⟨rfl, caller, below, rfl, rfl, hawaits⟩)

end Conveys

namespace TookUp

variable {thread : ThreadId} {cause : Fault} {current : State} {journal : List Record}

theorem append (htook : TookUp thread cause current journal) (later : List Record) :
    TookUp thread cause current (journal ++ later) := by
  obtain ⟨before, after, rfl, hlast⟩ := htook
  exact ⟨before, after ++ later, by simp, hlast⟩

theorem prepend (htook : TookUp thread cause current journal) (earlier : List Record) :
    TookUp thread cause current (earlier ++ journal) := by
  obtain ⟨before, after, rfl, first, middle, rfl, hmiddle⟩ := htook
  exact ⟨earlier ++ (first ++ ⟨thread, .recorded cause⟩ :: middle), after, by simp,
    earlier ++ first, middle, by simp, hmiddle⟩

theorem failureTook (htook : TookUp thread cause current journal) (hcurrent : current ≠ .finished) :
    FailureTook journal := by
  obtain ⟨before, after, rfl, earlier, middle, rfl, hmiddle⟩ := htook
  exact ⟨earlier, thread, cause, middle, current, after, rfl, hmiddle, hcurrent⟩

/-- What is taken up after an accepted cancellation is taken up before the fragment has
finished. -/
theorem current_ne_finished {earlier : List Record} (htook : TookUp thread cause current journal)
    (hfaithful : Faithful (earlier ++ journal)) (hcancelled : CancellationTook earlier) :
    current ≠ .finished := by
  obtain ⟨before, after, rfl, -⟩ := htook
  rw [← List.append_assoc] at hfaithful
  rintro rfl
  have hfinished := hfaithful _ _ _ rfl .finished .failed rfl
  have hprior := hfaithful.earlier (List.prefix_append _ _)
  have hstate := replay_of_cancellationTook hprior (cancellationTook_append before hcancelled)
  rw [← hfinished] at hstate
  simp at hstate

end TookUp

theorem Entry.IsCloseFailure.exists_tells {script : Script} {entry : Entry}
    (hfailure : entry.IsCloseFailure script) (id : ExecutorId) :
    ∃ cause, entry.Tells script id (.closeResources id) cause := by
  cases entry with
  | left call unwound =>
    cases call with
    | closeRoot =>
      cases unwound with
      | true => exact ⟨_, .closePanicked (.text "")⟩
      | false =>
        obtain ⟨fault, houtcome⟩ := hfailure.resolve_left Bool.false_ne_true
        exact ⟨_, .unclosed houtcome⟩
    | _ => cases hfailure
  | _ => cases hfailure

/-- A call that ends tells its caller so: it unwinds, or it replies with the error that its
plan ends in. -/
theorem Transition.signal_of_left {view : LockView} {thread : ThreadId} {id : ExecutorId}
    {call : Call} {point : CallPoint} {signal : Signal} {executor executor' : Executor}
    {next : Next} {unwound : Bool}
    (htransition : Transition view thread id (.call id call point) signal executor next executor')
    (hplays : point.Plays (executor.fragment.script.planOf call))
    (hjournal : executor'.journal = executor.journal ++ [⟨thread, .left call unwound⟩]) :
    next.frames = [] ∧ ((unwound = true ∧ ∃ payload, next.signal = .raised payload) ∨
      (unwound = false ∧ ∀ fault, (executor.fragment.script.planOf call).outcome = .error fault →
        next.signal = .replied (call.replyTo (.failed fault)))) := by
  cases htransition with
  | callReturns hreply =>
    obtain rfl : false = unwound := by simpa using hjournal
    refine ⟨rfl, .inr ⟨rfl, fun fault houtcome => ?_⟩⟩
    rw [houtcome] at hreply
    obtain rfl := Option.some.inj hreply
    rfl
  | parkingReturns =>
    obtain rfl : false = unwound := by simpa using hjournal
    exact ⟨rfl, .inr ⟨rfl, fun fault houtcome => nomatch houtcome.symm.trans hplays⟩⟩
  | callPanics | callUnwinds =>
    obtain rfl : true = unwound := by simpa using hjournal
    exact ⟨rfl, .inl ⟨rfl, _, rfl⟩⟩
  | aside houtside => simp [Frame.isCore] at houtside
  | callProceeds _ _ hsame => simp [hsame] at hjournal
  | _ => simp at hjournal

/-- A call that gives its caller a result has told so. -/
theorem Transition.left_of_signal {view : LockView} {thread : ThreadId} {id : ExecutorId}
    {call : Call} {point : CallPoint} {signal : Signal} {executor executor' : Executor}
    {next : Next}
    (htransition : Transition view thread id (.call id call point) signal executor next executor') :
    (∀ reply, next.signal = .replied reply →
        executor'.journal = executor.journal ++ [⟨thread, .left call false⟩]) ∧
      ∀ payload, next.signal = .raised payload →
        executor'.journal = executor.journal ++ [⟨thread, .left call true⟩] := by
  cases htransition with
  | aside houtside => simp [Frame.isCore] at houtside
  | callReturns | parkingReturns => exact ⟨fun _ _ => rfl, by rintro _ ⟨⟩⟩
  | callPanics | callUnwinds => exact ⟨by rintro _ ⟨⟩, fun _ _ => rfl⟩
  | _ => exact ⟨by rintro _ ⟨⟩, by rintro _ ⟨⟩⟩

/-- A pause does not panic. -/
theorem Frame.signal_of_pause {world after : World} {view : LockView} {thread : ThreadId}
    {id : ExecutorId} {site : String} {point : PausePoint} {signal : Signal} {next : Next}
    (hstep : (Frame.pause id site point).step world view thread signal = some (after, next))
    (payload : Payload) : next.signal ≠ .raised payload := by
  simp only [Frame.step] at hstep
  revert hstep
  fun_cases stepPause world id site point signal
  all_goals
    intro hstep
    simp only [reduceCtorEq, Option.some.injEq, Prod.mk.injEq] at hstep
  all_goals
    obtain ⟨-, rfl⟩ := hstep
    rintro ⟨⟩

/-- What a frame that ends hands on is a failure that it has just told of, or one further
out. -/
theorem Conveys.of_end {world after : World} {view : LockView} {thread : ThreadId}
    {id : ExecutorId} {role : Role} {cause : Fault} {frame : Frame} {rest : List Frame}
    {signal : Signal} {next : Next}
    (hstep : frame.step world view thread signal = some (after, next))
    (hlinked : Linked (frame :: rest)) (hgone : next.signal ≠ .go)
    (hconveys : Conveys id role cause rest next.signal) :
    Conveys id role cause (frame :: rest) signal ∨
      ∃ entry : Entry, entry.Tells (world.executors id).fragment.script id role cause ∧
        (after.executors id).journal = (world.executors id).journal ++ [⟨thread, entry⟩] := by
  have htransition := Frame.step_transition id hstep
  generalize hsignal : next.signal = end' at hconveys hgone
  cases hconveys with
  | caught | recording => exact absurd rfl hgone
  | @alarming l exhaustion above below =>
    exact .inl (@alarming id l exhaustion (frame :: above) below signal)
  | returned hreturned =>
    have hawaits := hlinked.awaits
    cases hreturned with
    | driven | due => exact absurd rfl hgone
    | built =>
      generalize hrole : frame.role = role at hawaits
      cases hawaits with
      | build =>
        obtain ⟨point, rfl⟩ := Frame.eq_call_of_role hrole
        refine .inr ⟨_, .erred rfl (htransition.returns_of_failed hsignal), ?_⟩
        exact (htransition.left_of_signal.1 _ hsignal)
    | advanced =>
      generalize hrole : frame.role = role at hawaits
      cases hawaits with
      | next =>
        obtain ⟨point, rfl⟩ := Frame.eq_call_of_role hrole
        refine .inr ⟨_, .erred rfl (htransition.returns_of_failed hsignal), ?_⟩
        exact (htransition.left_of_signal.1 _ hsignal)
  | @raised _ point _ _ hpoint =>
    have hawaits := hlinked.awaits
    generalize hrole : frame.role = role at hawaits
    cases hawaits with
    | build | next =>
      obtain ⟨point, rfl⟩ := Frame.eq_call_of_role hrole
      exact .inr ⟨_, .panicked _ (.inl rfl), htransition.left_of_signal.2 _ hsignal⟩
    | running =>
      obtain ⟨point, rfl⟩ := Frame.eq_call_of_role hrole
      exact .inr ⟨_, .panicked _ (.inr rfl), htransition.left_of_signal.2 _ hsignal⟩
    | pause =>
      obtain ⟨site, point, rfl⟩ : ∃ site point, frame = .pause id site point := by
        cases frame <;> simp_all [Frame.role]
      exact absurd hsignal (Frame.signal_of_pause hstep _)
    | _ => cases hpoint
  | unclosed =>
    have hawaits := hlinked.awaits
    generalize hrole : frame.role = role at hawaits
    cases hawaits with
    | closeRoot =>
      obtain ⟨point, rfl⟩ := Frame.eq_call_of_role hrole
      refine .inr ⟨_, .unclosed (htransition.returns_of_failed hsignal), ?_⟩
      exact (htransition.left_of_signal.1 _ hsignal)
  | closePanicked =>
    have hawaits := hlinked.awaits
    generalize hrole : frame.role = role at hawaits
    cases hawaits with
    | closeRoot =>
      obtain ⟨point, rfl⟩ := Frame.eq_call_of_role hrole
      exact .inr ⟨_, .closePanicked _, htransition.left_of_signal.2 _ hsignal⟩

/-- A failure that is being handled after a move to another point was on its way before, or is
a refusal that the step has told of. -/
theorem Conveys.of_goto {world after : World} {view : LockView} {thread : ThreadId}
    {id : ExecutorId} {role : Role} {cause : Fault} {frame resumed : Frame} {rest : List Frame}
    {signal : Signal} (hstep : frame.step world view thread signal = some (after, .goto resumed))
    (hconveys : Conveys id role cause (resumed :: rest) .go) :
    Conveys id role cause (frame :: rest) signal ∨
      ∃ entry : Entry, entry.Tells (world.executors id).fragment.script id role cause ∧
        (after.executors id).journal = (world.executors id).journal ++ [⟨thread, entry⟩] := by
  have htransition := Frame.step_transition id hstep
  have hlinks := Frame.step_links hstep
  generalize hframes : resumed :: rest = frames, hsignal : Signal.go = signal' at hconveys
  generalize world.executors id = executor, after.executors id = executor' at htransition ⊢
  cases hconveys with
  | raised | unclosed | closePanicked => cases hsignal
  | returned hreturned =>
    obtain ⟨rfl, rfl⟩ := List.cons.inj hframes
    cases hreturned with
    | built | advanced => cases hsignal
    | driven =>
      cases htransition with
      | aside _ hentries => cases hentries _ List.mem_cons_self (by simp [Frame.isCore])
      | advanceEnds =>
        cases Frame.ending_of_advancing hstep List.mem_cons_self
        exact .inl (.returned .advanced)
    | due =>
      cases htransition with
      | aside _ hentries => cases hentries _ List.mem_cons_self (by simp [Frame.isCore])
      | buildFails => exact .inl (.returned .built)
      | drivingFailed => exact .inl (.returned .driven)
      | runRefused hstate =>
        refine .inr ⟨_, ?_, rfl⟩
        rw [(Fault.IsInternal.refused _ _).settled]
        exact .refused (by rw [State.decide_running, if_neg hstate])
  | caught =>
    obtain ⟨rfl, rfl⟩ := List.cons.inj hframes
    cases htransition with
    | aside _ hentries => cases hentries _ List.mem_cons_self (by simp [Frame.isCore])
    | pauseUnwinds | advanceUnwinds => exact .inl (.raised rfl)
    | advanceEnds => cases Frame.ending_of_advancing hstep List.mem_cons_self
  | @alarming l exhaustion above below =>
    cases above with
    | nil =>
      obtain ⟨rfl, rfl⟩ := List.cons.inj hframes
      cases htransition with
      | aside _ hentries => cases hentries _ List.mem_cons_self (by simp [Frame.isCore])
    | cons top above =>
      obtain ⟨rfl, rfl⟩ := List.cons.inj hframes
      exact .inl (@alarming id l exhaustion (frame :: above) below signal)
  | recording hawaits =>
    obtain ⟨rfl, rfl⟩ := List.cons.inj hframes
    cases htransition with
    | aside houtside =>
      obtain ⟨_, rfl⟩ := Frame.eq_fail_of_role hlinks.symm
      simp [Frame.isCore] at houtside
    | causeAppended => exact .inl (.recording hawaits)

/-- A failure that is being handled as a call is entered was on its way before: the call
records it, or sounds the alarm over it. -/
theorem Conveys.of_call {world after : World} {view : LockView} {thread : ThreadId}
    {id : ExecutorId} {role : Role} {cause : Fault} {frame resumed callee : Frame}
    {rest : List Frame} {signal : Signal}
    (hstep : frame.step world view thread signal = some (after, .call resumed callee))
    (hrole : role = .run id ∨ role = .closeResources id)
    (hconveys : Conveys id role cause (callee :: resumed :: rest) .go) :
    Conveys id role cause (frame :: rest) signal := by
  have htransition := Frame.step_transition id hstep
  have hlinks := Frame.step_links hstep
  generalize hframes : callee :: resumed :: rest = frames, hsignal : Signal.go = signal'
    at hconveys
  generalize world.executors id = executor, after.executors id = executor' at htransition
  cases hconveys with
  | raised | unclosed | closePanicked => cases hsignal
  | returned hreturned =>
    obtain ⟨rfl, rfl⟩ := List.cons.inj hframes
    cases hreturned with
    | built | advanced => cases hsignal
    | driven | due =>
      cases htransition with
      | aside _ hentries => cases hentries _ List.mem_cons_self (by simp [Frame.isCore])
  | caught =>
    obtain ⟨rfl, rfl⟩ := List.cons.inj hframes
    cases htransition with
    | aside _ hentries => cases hentries _ List.mem_cons_self (by simp [Frame.isCore])
  | @alarming l exhaustion above below =>
    rcases above with _ | ⟨first, _ | ⟨second, above⟩⟩
    · obtain ⟨rfl, rfl⟩ := List.cons.inj hframes
      cases htransition with
      | aside _ hentries => cases hentries _ List.mem_cons_self (by simp [Frame.isCore])
    · obtain ⟨rfl, hbelow⟩ := List.cons.inj hframes
      obtain ⟨rfl, rfl⟩ := List.cons.inj hbelow
      cases htransition with
      | aside _ hentries =>
        cases hentries _ (List.mem_cons_of_mem _ List.mem_cons_self) (by simp [Frame.isCore])
      | alarmBegins hmemory =>
        rw [← Fault.settled_of_memory hmemory]
        exact .returned .due
    · obtain ⟨rfl, hbelow⟩ := List.cons.inj hframes
      obtain ⟨rfl, rfl⟩ := List.cons.inj hbelow
      exact @alarming id l exhaustion (frame :: above) below signal
  | recording hawaits =>
    obtain ⟨rfl, hbelow⟩ := List.cons.inj hframes
    obtain ⟨rfl, rfl⟩ := List.cons.inj hbelow
    cases htransition with
    | aside houtside =>
      rw [hlinks.1] at hrole
      rcases hrole with hrole | hrole
      · obtain ⟨_, _, rfl⟩ := Frame.eq_run_of_role hrole
        simp [Frame.isCore] at houtside
      · obtain ⟨_, rfl⟩ := Frame.eq_closeResources_of_role hrole
        simp [Frame.isCore] at houtside
    | buildUnwinds | announceUnwinds => exact .raised rfl
    | drivingPanicked => exact .caught
    | faultSettled hcause =>
      rw [Fault.eq_settled hcause]
      exact .returned .due
    | @alarmReturns l _ exhaustion => exact @alarming id l exhaustion [] rest _
    | rootCloseFails => exact .unclosed
    | rootClosePanics => exact .closePanicked

/-- A failure that the frames of a step are on the way to record was on its way before, or
is a refusal that the step has told of. -/
theorem Conveys.of_go {world after : World} {view : LockView} {thread : ThreadId}
    {id : ExecutorId} {role : Role} {cause : Fault} {frame : Frame} {rest : List Frame}
    {signal : Signal} {next : Next}
    (hstep : frame.step world view thread signal = some (after, next))
    (hrole : role = .run id ∨ role = .closeResources id) (hgo : next.signal = .go)
    (hconveys : Conveys id role cause (next.frames ++ rest) next.signal) :
    Conveys id role cause (frame :: rest) signal ∨
      ∃ entry : Entry, entry.Tells (world.executors id).fragment.script id role cause ∧
        (after.executors id).journal = (world.executors id).journal ++ [⟨thread, entry⟩] := by
  cases next with
  | goto resumed => exact Conveys.of_goto hstep hconveys
  | call resumed callee => exact .inl (Conveys.of_call hstep hrole hconveys)
  | _ => cases hgo

end FragmentLifecycle
