import FragmentLifecycle.Proofs.LoneCalls

/-!
# Collaborators that do not call back

A plan is passive where it returns and its actions look at the fragment, record statistics
or run code of their own.  A call on a collaborator with such a plan comes to its end on a
lone thread.  It leaves behind its records and the statistics of the context; the close of
the context also releases the failure sink and disarms every pause site
(`leads_closeContext`, `leads_report`).
-/

namespace FragmentLifecycle

/-- The actions that answer at once and leave the fragment as it is, but for statistics. -/
def Action.IsPassive : Action → Prop
  | .status | .display | .sink | .principal | .recordStat _ _ | .register _ | .listeners => True
  | .scoped body => ∀ principal, (Scope.runAll principal body).ending = .returned
  | _ => False

/-- A plan that does not call back and comes to its end, by a panic perhaps. -/
structure Plan.IsQuiet (plan : Plan) : Prop where
  actions : ∀ action ∈ plan.actions, action.IsPassive
  ends : plan.outcome ≠ .park

/-- A plan that returns and does not call back. -/
structure Plan.IsPassive (plan : Plan) : Prop where
  actions : ∀ action ∈ plan.actions, action.IsPassive
  outcome : ∃ reply, plan.outcome.reply? = some reply
  returns : plan.outcome ≠ .park

theorem Plan.IsPassive.isQuiet {plan : Plan} (hpassive : plan.IsPassive) : plan.IsQuiet :=
  ⟨hpassive.actions, hpassive.returns⟩

/-- What the end of a plan with this outcome signals to the caller. -/
def Outcome.signal (call : Call) : Outcome → Signal
  | .more | .park => .replied (call.replyTo (.progress true))
  | .done => .replied (call.replyTo (.progress false))
  | .error fault => .replied (call.replyTo (.failed fault))
  | .panic payload => .raised payload

theorem Plan.IsPassive.signal {plan : Plan} (hpassive : plan.IsPassive) (call : Call) :
    ∃ reply, plan.outcome.signal call = .replied reply := by
  obtain ⟨reply, hreply⟩ := hpassive.outcome
  cases houtcome : plan.outcome with
  | panic payload =>
    rw [houtcome] at hreply
    cases hreply
  | _ => exact ⟨_, rfl⟩

/-- The calls that an executor has made on its collaborators, with the threads that made
them. -/
def callsMade (journal : List Record) : List (ThreadId × Call) :=
  journal.filterMap fun record =>
    match record.entry with
    | .entered call => some (record.thread, call)
    | _ => none

theorem callsMade_append (journal records : List Record) :
    callsMade (journal ++ records) = callsMade journal ++ callsMade records :=
  List.filterMap_append ..

theorem callsMade_entered (thread : ThreadId) (call : Call) (records : List Record) :
    callsMade (⟨thread, .entered call⟩ :: records) = (thread, call) :: callsMade records := rfl

namespace World

variable (world : World) (id : ExecutorId) (thread : ThreadId)

@[simp]
theorem exit_wakeWorker : (world.wakeWorker id).exit = world.exit := by
  unfold wakeWorker
  split <;> rfl

@[simp]
theorem exit_snd_request (target : State) :
    (world.request id thread target).2.exit = world.exit := by
  simp only [request]
  split <;> rfl

end World

namespace Executor

/-- The executor with other statistics and more records. -/
def noted (executor : Executor) (stats : List (String × Json.Value)) (records : List Record) :
    Executor :=
  { executor with
    context := { executor.context with stats }
    journal := executor.journal ++ records }

/-- The executor whose context has been closed for the first time. -/
def contextClosed (executor : Executor) : Executor :=
  { executor with
    context := executor.context.markClosed.detach
    controls := executor.controls.unpauseAll }

variable (executor : Executor) (stats later : List (String × Json.Value))
  (records more : List Record) (thread : ThreadId) (entry : Entry)

theorem noted_nil : executor.noted executor.context.stats [] = executor := by
  simp [noted]

theorem noted_noted :
    (executor.noted stats records).noted later more = executor.noted later (records ++ more) := by
  simp [noted]

theorem record_noted :
    (executor.noted stats records).record thread entry =
      executor.noted stats (records ++ [⟨thread, entry⟩]) := by
  simp [noted, record]

theorem record_eq_noted :
    executor.record thread entry = executor.noted executor.context.stats [⟨thread, entry⟩] := rfl

end Executor

section Passive

variable {world : World} (thread : ThreadId) (id : ExecutorId) (rest : List Frame) (call : Call)
  {action : Action}

/-- A passive action answers. -/
theorem leads_action (hexit : world.exit = none) (hpassive : action.IsPassive) :
    ∃ world' answer stats,
      Leads thread world (.perform id action .start :: rest) .go world' rest
        (.replied (.answer answer)) ∧
      world'.exit = none ∧ world'.executors id = (world.executors id).noted stats [] := by
  have hsame := (world.executors id).noted_nil.symm
  cases action with
  | status =>
    by_cases hrunning : (world.executors id).state = .running
    · have hreads (view : LockView) : (Frame.perform id .status .start).step world view thread .go =
          some (world, .goto (.perform id .status .readStats)) := by
        simp [Frame.step, stepPerform, startAction, hrunning]
      exact ⟨world, _, _, .goto hexit (hreads _) (.reply hexit rfl), hexit, hsame⟩
    · have hanswers (view : LockView) :
          (Frame.perform id .status .start).step world view thread .go =
            some (world, .reply (.answer (.status none))) := by
        simp [Frame.step, stepPerform, startAction, hrunning]
      exact ⟨world, _, _, .reply hexit (hanswers _), hexit, hsame⟩
  | display | sink | principal | register | listeners =>
    exact ⟨world, _, _, .reply hexit rfl, hexit, hsame⟩
  | recordStat key value =>
    refine ⟨_, _, Json.insertMember key value (world.executors id).context.stats,
      .reply hexit rfl, hexit, ?_⟩
    simp [Executor.noted, LocalContext.recordStat]
  | «scoped» body =>
    have hending := hpassive (world.principals thread)
    refine ⟨world.setPrincipal thread (Scope.runAll (world.principals thread) body).principal,
      .observed (Scope.runAll (world.principals thread) body).observed, _,
      .reply hexit ?_, hexit, hsame⟩
    simp [Frame.step, stepPerform, startAction, hending]
  | _ => cases hpassive

/-- The actions of a passive plan are played. -/
theorem leads_play {actions : List Action} (hexit : world.exit = none)
    (hpassive : ∀ action ∈ actions, action.IsPassive) :
    ∃ world' stats records,
      Leads thread world (.call id call (.play actions) :: rest) .go world'
        (.call id call (.play []) :: rest) .go ∧
      world'.exit = none ∧ world'.executors id = (world.executors id).noted stats records ∧
      callsMade records = [] := by
  induction actions generalizing world with
  | nil => exact ⟨world, _, [], .refl, hexit, (world.executors id).noted_nil.symm, rfl⟩
  | cons action later ih =>
    obtain ⟨acted, answer, stats, hleads, hexit', hacted⟩ := leads_action thread id
      (.call id call (.acting action later) :: rest) hexit (hpassive action List.mem_cons_self)
    have hafter : (acted.record id thread (.acted action answer)).exit = none := hexit'
    obtain ⟨world', stats', records, hrest, hend, hexecutor, hnone⟩ :=
      ih hafter fun action hmem => hpassive action (List.mem_cons_of_mem _ hmem)
    refine ⟨world', stats', ⟨thread, .acted action answer⟩ :: records,
      .call hexit rfl (hleads.trans (.goto hexit' rfl hrest)), hend, ?_, hnone⟩
    rw [hexecutor, World.executors_record, if_pos rfl, hacted, Executor.record_noted,
      Executor.noted_noted]
    rfl

/-- A quiet plan is played to its end. -/
theorem leads_plan_end (hexit : world.exit = none)
    (hquiet : ((world.executors id).fragment.script.planOf call).IsQuiet) :
    ∃ world' stats records,
      Leads thread world
        (.call id call (.play ((world.executors id).fragment.script.planOf call).actions) :: rest)
        .go world' rest
        (((world.executors id).fragment.script.planOf call).outcome.signal call) ∧
      world'.exit = none ∧ world'.executors id = (world.executors id).noted stats records ∧
      callsMade records = [] := by
  obtain ⟨played, stats, records, hleads, hexit', hexecutor, hnone⟩ :=
    leads_play thread id rest call hexit hquiet.actions
  have hfragment : (played.executors id).fragment = (world.executors id).fragment := by
    rw [hexecutor]
    rfl
  have hleft (entry : Entry) (hleaves : ∀ started, entry ≠ .entered started) :
      (played.record id thread entry).executors id =
          (world.executors id).noted stats (records ++ [⟨thread, entry⟩]) ∧
        callsMade (records ++ [⟨thread, entry⟩]) = [] := by
    constructor
    · rw [World.executors_record, if_pos rfl, hexecutor, Executor.record_noted]
    · rw [callsMade_append, hnone]
      cases entry with
      | entered started => exact absurd rfl (hleaves started)
      | _ => rfl
  have hstep (view : LockView) : (Frame.call id call (.play [])).step played view thread .go =
      some (stepOutcome played thread id call
        ((world.executors id).fragment.script.planOf call).outcome) := by
    simp only [Frame.step, stepCall, hfragment]
  cases houtcome : ((world.executors id).fragment.script.planOf call).outcome with
  | park => exact absurd houtcome hquiet.ends
  | more | done | error =>
    obtain ⟨hexecutor', hnone'⟩ := hleft (.left call false) (by simp)
    rw [houtcome] at hstep
    exact ⟨_, stats, _, hleads.trans (.step hexit' (hstep _) rfl .refl), hexit', hexecutor', hnone'⟩
  | panic payload =>
    obtain ⟨hexecutor', hnone'⟩ := hleft (.left call true) (by simp)
    rw [houtcome] at hstep
    exact ⟨_, stats, _, hleads.trans (.step hexit' (hstep _) rfl .refl), hexit', hexecutor', hnone'⟩

/-- A collaborator is called and comes to its end. -/
theorem leads_call (hexit : world.exit = none)
    (hquiet : ((world.executors id).fragment.script.planOf call).IsQuiet)
    (hcall : call ≠ .closeContext)
    (hpolicy : ∀ exhaustion, call = .exhausted exhaustion →
      (world.executors id).fragment.heapPolicy = .report) :
    ∃ world' stats records,
      Leads thread world (.call id call .enter :: rest) .go world' rest
        (((world.executors id).fragment.script.planOf call).outcome.signal call) ∧
      world'.exit = none ∧ world'.executors id = (world.executors id).noted stats records ∧
      callsMade records = [(thread, call)] := by
  have henters (view : LockView) : (Frame.call id call .enter).step world view thread .go =
      some (world.record id thread (.entered call), .goto (.call id call
        (.play ((world.executors id).fragment.script.planOf call).actions))) := by
    cases call with
    | closeContext => exact absurd rfl hcall
    | exhausted exhaustion => simp [Frame.step, stepCall, stepEnter, hpolicy exhaustion rfl]
    | _ => rfl
  have hentered : (world.record id thread (.entered call)).executors id =
      (world.executors id).record thread (.entered call) := by simp
  have hexit' : (world.record id thread (.entered call)).exit = none := hexit
  have hplan := leads_plan_end thread id rest call hexit' (by rw [hentered]; exact hquiet)
  rw [hentered] at hplan
  obtain ⟨world', stats, records, hleads, hend, hexecutor, hnone⟩ := hplan
  refine ⟨world', stats, ⟨thread, .entered call⟩ :: records, .goto hexit (henters _) hleads, hend,
    ?_, ?_⟩
  · rw [hexecutor, Executor.record_eq_noted, Executor.noted_noted]
    rfl
  · rw [callsMade_entered, hnone]

/-- A report is made and returns. -/
theorem leads_report (hexit : world.exit = none)
    (hpassive : ((world.executors id).fragment.script.planOf call).IsPassive)
    (hreport : (∃ state, call = .stateChanged state) ∨ ∃ report, call = .fail report) :
    ∃ world' stats records reply,
      Leads thread world (.call id call .enter :: rest) .go world' rest (.replied reply) ∧
      world'.exit = none ∧ world'.executors id = (world.executors id).noted stats records ∧
      callsMade records = [(thread, call)] := by
  obtain ⟨reply, hreply⟩ := hpassive.signal call
  obtain ⟨world', stats, records, hleads, hend⟩ := leads_call thread id rest call hexit
    hpassive.isQuiet (by rcases hreport with ⟨_, rfl⟩ | ⟨_, rfl⟩ <;> simp)
    (by rcases hreport with ⟨_, rfl⟩ | ⟨_, rfl⟩ <;> simp)
  exact ⟨world', stats, records, reply, hreply ▸ hleads, hend⟩

/-- The first close of a context releases the failure sink and disarms every pause site. -/
theorem leads_closeContext (hexit : world.exit = none)
    (hquiet : ((world.executors id).fragment.script.planOf .closeContext).IsQuiet)
    (hopen : (world.executors id).context.closed = false) :
    ∃ world' stats records,
      Leads thread world (.call id .closeContext .enter :: rest) .go world' rest
        (((world.executors id).fragment.script.planOf .closeContext).outcome.signal
          .closeContext) ∧
      world'.exit = none ∧
      world'.executors id = (world.executors id).contextClosed.noted stats records ∧
      callsMade records = [(thread, .closeContext)] := by
  let entered := world.record id thread (.entered .closeContext)
  let detached := (entered.modify id fun executor =>
    { executor with context := executor.context.markClosed }).modify id fun executor =>
      { executor with context := executor.context.detach }
  let resumed := (detached.modify id fun executor =>
    { executor with controls := executor.controls.unpauseAll }).note
      (.contextClosed (detached.executors id).handle)
  have hmarks (view : LockView) :
      (Frame.call id .closeContext .markClosed).step entered view thread .go =
        some (entered.modify id fun executor =>
          { executor with context := executor.context.markClosed },
          .goto (.call id .closeContext .detach)) := by
    simp [entered, Frame.step, stepCall, hopen, Executor.record]
  have hplays (view : LockView) :
      (Frame.call id .closeContext .resumeAll).step detached view thread .go =
        some (resumed, .goto (.call id .closeContext
          (.play ((world.executors id).fragment.script.planOf .closeContext).actions))) := by
    simp [resumed, detached, entered, Frame.step, stepCall, Executor.record]
  have hresumed : resumed.executors id =
      (world.executors id).contextClosed.noted (world.executors id).context.stats
        [⟨thread, .entered .closeContext⟩] := by
    simp [resumed, detached, entered, Executor.contextClosed, Executor.noted, Executor.record,
      LocalContext.markClosed, LocalContext.detach]
  have hexit' : resumed.exit = none := hexit
  have hplan := leads_plan_end thread id rest .closeContext hexit' (by rw [hresumed]; exact hquiet)
  rw [hresumed] at hplan
  obtain ⟨world', stats, records, hleads, hend, hexecutor, hnone⟩ := hplan
  refine ⟨world', stats, ⟨thread, .entered .closeContext⟩ :: records,
    .goto hexit rfl (.goto hexit (hmarks _) (.goto hexit rfl (.goto hexit (hplays _) hleads))),
    hend, ?_, ?_⟩
  · rw [hexecutor, Executor.noted_noted]
    rfl
  · rw [callsMade_entered, hnone]

end Passive

end FragmentLifecycle
