import FragmentLifecycle.Proofs.PassiveCalls

/-!
# Calls before the run

A ledger keeps what there is to know of an executor before its run: whether the resources
are closed, the causes, and the calls made on collaborators.  Calls from outside that are
made one after another come to their ends, and each keeps the executor in line with its
ledger (`leads_early`, `System.IsIdle.performs_early`).
-/

namespace FragmentLifecycle

/-- The cause that a call records while the context has its sink. -/
def Action.cause? : Action → Option Fault
  | .fail cause | .heldFail cause => some cause
  | _ => none

/-- The cause that a call records once the sink of the context is gone. -/
def Action.heldCause? : Action → Option Fault
  | .heldFail cause => some cause
  | _ => none

/-- What there is to know of an executor before its run. -/
structure Ledger where
  closed : Bool := false
  causes : List Fault := []
  calls : List (ThreadId × Call) := []

namespace Ledger

def state (ledger : Ledger) : State :=
  if ledger.causes ≠ [] then .failed
  else if ledger.closed then .cancellationRequested
  else .awaitingAllocation

/-- The first cancellation closes the context and, unless a failure came before, reports
its request. -/
def cancelled (ledger : Ledger) (thread : ThreadId) : Ledger :=
  { ledger with
    closed := true
    calls := ledger.calls ++ (thread, .closeContext) ::
      if ledger.causes = [] then [(thread, .stateChanged .cancellationRequested)] else [] }

/-- A cause is recorded. -/
def failed (ledger : Ledger) (cause : Fault) : Ledger :=
  { ledger with causes := ledger.causes ++ [cause] }

/-- The ledger after a call on `thread`.  The sink of the context is gone once the
resources are closed. -/
def after (ledger : Ledger) (thread : ThreadId) : Action → Ledger
  | .cancel => if ledger.closed then ledger else ledger.cancelled thread
  | .fail cause => if ledger.closed then ledger else ledger.failed cause
  | .heldFail cause => ledger.failed cause
  | _ => ledger

/-- The ledger after calls on threads that count on from `thread`. -/
def afterAll (ledger : Ledger) (thread : ThreadId) : List Action → Ledger
  | [] => ledger
  | action :: rest => (ledger.after thread action).afterAll (thread + 1) rest

section After

variable (ledger : Ledger) (thread : ThreadId)

theorem afterAll_append (actions later : List Action) :
    ledger.afterAll thread (actions ++ later) =
      (ledger.afterAll thread actions).afterAll (thread + actions.length) later := by
  induction actions generalizing ledger thread with
  | nil => rfl
  | cons action rest ih =>
    simp only [List.cons_append, afterAll, ih, List.length_cons, Nat.add_assoc, Nat.add_comm 1]

/-- Up to the first cancellation every failure counts. -/
theorem after_open {action : Action} (hopen : ledger.closed = false) (haction : action ≠ .cancel) :
    ledger.after thread action =
      { ledger with causes := ledger.causes ++ action.cause?.toList } := by
  obtain ⟨closed, causes, calls⟩ := ledger
  obtain rfl : closed = false := hopen
  cases action with
  | cancel => exact absurd rfl haction
  | _ => simp [after, failed, Action.cause?]

/-- After the first cancellation the failures count that come from a sink that was kept. -/
theorem after_closed (action : Action) (hclosed : ledger.closed = true) :
    ledger.after thread action =
      { ledger with causes := ledger.causes ++ action.heldCause?.toList } := by
  obtain ⟨closed, causes, calls⟩ := ledger
  obtain rfl : closed = true := hclosed
  cases action <;> simp [after, failed, Action.heldCause?]

theorem afterAll_open {actions : List Action} (hopen : ledger.closed = false)
    (hnone : .cancel ∉ actions) :
    ledger.afterAll thread actions =
      { ledger with causes := ledger.causes ++ actions.filterMap Action.cause? } := by
  induction actions generalizing ledger thread with
  | nil => simp [afterAll]
  | cons action rest ih =>
    obtain ⟨haction, hrest⟩ := not_or.mp (mt List.mem_cons.mpr hnone)
    rw [afterAll, ledger.after_open thread hopen (Ne.symm haction), ih _ _ (by exact hopen) hrest]
    cases hcause : action.cause? <;> simp [hcause]

theorem afterAll_closed (actions : List Action) (hclosed : ledger.closed = true) :
    ledger.afterAll thread actions =
      { ledger with causes := ledger.causes ++ actions.filterMap Action.heldCause? } := by
  induction actions generalizing ledger thread with
  | nil => simp [afterAll]
  | cons action rest ih =>
    rw [afterAll, ledger.after_closed thread action hclosed, ih _ _ (by exact hclosed)]
    cases hcause : action.heldCause? <;> simp [hcause]

end After

end Ledger

/-- The calls that may be made in any order before a run. -/
def Action.isEarly : Action → Bool
  | .cancel | .fail _ | .heldFail _ | .unpause | .status => true
  | _ => false

/-- An executor before its run that is in line with a ledger. -/
structure Executor.Matches (executor : Executor) (fragment : Fragment) (ledger : Ledger) :
    Prop where
  fragment : executor.fragment = fragment
  course : executor.course = .notStarted
  treeless : executor.treeHeld = false
  closed : executor.resourcesClosed = ledger.closed
  contextClosed : executor.context.closed = ledger.closed
  sink : executor.context.sinkInstalled = !ledger.closed
  state : executor.state = ledger.state
  causes : executor.lifecycle.failures.pending = ledger.causes
  calls : callsMade executor.journal = ledger.calls
  disarmed : ledger.closed = true → executor.controls.armed = []

namespace Executor.Matches

variable {executor : Executor} {fragment : Fragment} {ledger : Ledger} {thread : ThreadId}

theorem ofFragment (fragment : Fragment) : (Executor.ofFragment fragment).Matches fragment {} :=
  ⟨rfl, rfl, rfl, rfl, rfl, rfl, rfl, rfl, rfl, by simp⟩

theorem stopped (hmatches : executor.Matches fragment ledger) (hclosed : ledger.closed = true) :
    executor.state.continues = false := by
  rw [hmatches.state, Ledger.state, hclosed]
  split <;> rfl

theorem noted (hmatches : executor.Matches fragment ledger)
    (stats : List (String × Json.Value)) (records : List Record) :
    (executor.noted stats records).Matches fragment
      { ledger with calls := ledger.calls ++ callsMade records } where
  fragment := hmatches.fragment
  course := hmatches.course
  treeless := hmatches.treeless
  closed := hmatches.closed
  contextClosed := hmatches.contextClosed
  sink := hmatches.sink
  state := hmatches.state
  causes := hmatches.causes
  calls := by
    rw [← hmatches.calls]
    exact callsMade_append _ _
  disarmed := hmatches.disarmed

theorem failed (hmatches : executor.Matches fragment ledger) (cause : Fault) :
    ((executor.append thread cause).request thread .failed).2.Matches fragment
      (ledger.failed cause) where
  fragment := hmatches.fragment
  course := hmatches.course
  treeless := hmatches.treeless
  closed := hmatches.closed
  contextClosed := hmatches.contextClosed
  sink := hmatches.sink
  state := by
    have hcauses : (ledger.failed cause).causes ≠ [] := by simp [Ledger.failed]
    rw [Executor.state_request, Executor.state_append, hmatches.state, Ledger.state, Ledger.state,
      if_pos hcauses]
    split
    · rfl
    · split <;> rfl
  causes := by
    rw [Executor.failures_request, Executor.failures_append]
    simp [Collector.append, Ledger.failed, hmatches.causes]
  calls := by
    rw [Executor.journal_request, Executor.journal_append, callsMade_append, callsMade_append]
    simpa [callsMade, Ledger.failed] using hmatches.calls
  disarmed := hmatches.disarmed

/-- The first cancellation has closed the context and asked for its state. -/
theorem requested (hmatches : executor.Matches fragment ledger) (hopen : ledger.closed = false)
    (stats : List (String × Json.Value)) {records : List Record}
    (hrecords : callsMade records = [(thread, .closeContext)]) :
    ((({ executor with resourcesClosed := true }.contextClosed.noted stats records).request thread
      .cancellationRequested).2).Matches fragment
      { ledger with closed := true, calls := ledger.calls ++ [(thread, Call.closeContext)] } where
  fragment := hmatches.fragment
  course := hmatches.course
  treeless := hmatches.treeless
  closed := rfl
  contextClosed := rfl
  sink := rfl
  state := by
    rw [Executor.state_request]
    have hbefore : (({ executor with resourcesClosed := true }.contextClosed).noted stats
      records).state = ledger.state := hmatches.state
    rw [hbefore, Ledger.state, Ledger.state, hopen]
    split <;> rfl
  causes := hmatches.causes
  calls := by
    rw [Executor.journal_request, callsMade_append, ← hmatches.calls, ← hrecords]
    simp [callsMade, Executor.noted, Executor.contextClosed]
  disarmed _ := rfl

/-- A later cancellation asks for its state in vain. -/
theorem ignored (hmatches : executor.Matches fragment ledger) (hclosed : ledger.closed = true) :
    (executor.request thread .cancellationRequested).2.Matches fragment ledger where
  fragment := hmatches.fragment
  course := hmatches.course
  treeless := hmatches.treeless
  closed := hmatches.closed
  contextClosed := hmatches.contextClosed
  sink := hmatches.sink
  state := by
    rw [Executor.state_request, State.decide_cancellationRequested,
      if_neg (by simp [hmatches.stopped hclosed])]
    exact hmatches.state
  causes := hmatches.causes
  calls := by
    rw [Executor.journal_request, callsMade_append]
    simpa [callsMade] using hmatches.calls
  disarmed := hmatches.disarmed

end Executor.Matches

section Entries

variable {world : World} (thread : ThreadId) (id : ExecutorId) (rest : List Frame)

/-- A failure is recorded and asks for its state. -/
theorem leads_fail (hexit : world.exit = none) (cause : Fault) :
    ∃ world', Leads thread world (.fail id cause .append :: rest) .go world' rest
        (.replied (.answer .none)) ∧
      world'.exit = none ∧
      world'.executors id =
        (((world.executors id).append thread cause).request thread .failed).2 := by
  refine ⟨_, .goto hexit rfl (.reply hexit rfl), ?_, ?_⟩
  · rw [World.exit_snd_request]
    exact hexit
  · simp

/-- Nobody holds the closing lock where nothing below holds it. -/
theorem closingHeld_lone
    (hfree : rest.any (fun frame => frame.holds (.closing id)) = false) :
    (LockView.lone (.closeResources id .lockClosing :: rest)).closingHeld id = false :=
  hfree

/-- A request for the cancellation is accepted, and then reported, if the fragment goes on. -/
theorem step_request (world : World) (view : LockView) :
    (Frame.cancel id .request).step world view thread .go =
      some ((world.request id thread .cancellationRequested).2,
        if (world.executors id).state.continues then
          .call (.cancel id .announcing) (.call id (.stateChanged .cancellationRequested) .enter)
        else .goto (.cancel id .wake)) := by
  have hdecision := world.fst_request id thread .cancellationRequested
  rw [State.decide_cancellationRequested] at hdecision
  simp only [Frame.step, stepCancel]
  generalize world.request id thread .cancellationRequested = result at hdecision
  obtain ⟨decision, next⟩ := result
  obtain rfl : decision = _ := hdecision
  by_cases hcontinues : (world.executors id).state.continues = true
  · rw [if_pos hcontinues, if_pos hcontinues]
  · rw [if_neg hcontinues, if_neg hcontinues]

/-- A cancellation before the run finds no tree and comes to the close of the resources. -/
theorem leads_cancel_to_close (hexit : world.exit = none)
    (htreeless : (world.executors id).treeHeld = false) :
    Leads thread world [.perform id .cancel .start] .go world
      [.closeResources id .lockClosing, .cancel id .closing, .perform id .cancel .waiting] .go := by
  have hcloses (view : LockView) : (Frame.cancel id .inspect).step world view thread .go =
      some (world, .call (.cancel id .closing) (.closeResources id .lockClosing)) := by
    simp [Frame.step, stepCancel, htreeless]
  exact .call hexit rfl (.goto hexit rfl (.call hexit (hcloses _) .refl))

theorem leads_cancel_from_wake (hexit : world.exit = none) :
    Leads thread world [.cancel id .wake, .perform id .cancel .waiting] .go
      (world.wakeWorker id) [] (.replied (.answer .none)) := by
  have hexit' : (world.wakeWorker id).exit = none := by simpa using hexit
  exact (Leads.reply hexit rfl).trans (.reply hexit' rfl)

/-- The close of resources that are closed already. -/
theorem leads_close_repeated (hexit : world.exit = none)
    (hclosed : (world.executors id).resourcesClosed = true)
    (hfree : rest.any (fun frame => frame.holds (.closing id)) = false) :
    Leads thread world (.closeResources id .lockClosing :: rest) .go world rest
      (.replied (.answer .none)) := by
  refine .reply hexit ?_
  simp [Frame.step, stepClose, closingHeld_lone id rest hfree, hclosed, Next.done]

/-- The first close of the resources before the run closes the context. -/
theorem leads_close_begun (hexit : world.exit = none)
    (hpassive : ((world.executors id).fragment.script.planOf .closeContext).IsPassive)
    (hopen : (world.executors id).resourcesClosed = false)
    (hcontext : (world.executors id).context.closed = false)
    (htreeless : (world.executors id).treeHeld = false)
    (hfree : rest.any (fun frame => frame.holds (.closing id)) = false) :
    ∃ world' stats records,
      Leads thread world (.closeResources id .lockClosing :: rest) .go world' rest
        (.replied (.answer .none)) ∧
      world'.exit = none ∧
      world'.executors id =
        { world.executors id with resourcesClosed := true }.contextClosed.noted stats records ∧
      callsMade records = [(thread, .closeContext)] := by
  let begun := world.modify id fun executor => { executor with resourcesClosed := true }
  have hbegun : begun.executors id = { world.executors id with resourcesClosed := true } := by
    simp [begun]
  have hexit' : begun.exit = none := hexit
  have hbegins : (Frame.closeResources id .lockClosing).step world
      (.lone (.closeResources id .lockClosing :: rest)) thread .go =
        some (begun, .goto (.closeResources id .takeTree)) := by
    simp [begun, Frame.step, stepClose, closingHeld_lone id rest hfree, hopen]
  have hcloses (view : LockView) : (Frame.closeResources id .takeTree).step begun view thread .go =
      some (begun, .call (.closeResources id .closingContext) (.call id .closeContext .enter)) := by
    simp [hbegun, Frame.step, stepClose, htreeless]
  have hpassive' : ((begun.executors id).fragment.script.planOf .closeContext).IsPassive := by
    rw [hbegun]
    exact hpassive
  obtain ⟨world', stats, records, hleads, hend, hexecutor, hmade⟩ := leads_closeContext thread id
    (.closeResources id .closingContext :: rest) hexit' hpassive'.isQuiet
    (by rw [hbegun]; exact hcontext)
  obtain ⟨reply, hreply⟩ := hpassive'.signal .closeContext
  rw [hreply] at hleads
  rw [hbegun] at hexecutor
  exact ⟨world', stats, records,
    .goto hexit hbegins (.call hexit' (hcloses _) (hleads.trans (.reply hend rfl))), hend,
    hexecutor, hmade⟩

end Entries

/-- The collaborators that are called before the run and at its end are passive. -/
structure Script.IsPassive (script : Script) : Prop where
  closeContext : script.closeContext.IsPassive
  onReport : ∀ state, (script.onReport state).IsPassive

section Early

variable {world : World} {fragment : Fragment} {ledger : Ledger} (thread : ThreadId)
  (id : ExecutorId) {action : Action}

theorem leads_first_cancel (hexit : world.exit = none) (hpassive : fragment.script.IsPassive)
    (hmatches : (world.executors id).Matches fragment ledger) (hopen : ledger.closed = false) :
    ∃ world' reply, Leads thread world [.perform id .cancel .start] .go world' []
        (.replied reply) ∧
      world'.exit = none ∧ (world'.executors id).Matches fragment (ledger.cancelled thread) := by
  have hfragment := hmatches.fragment
  obtain ⟨closed, stats, records, hclose, hexit', hclosed, hrecords⟩ := leads_close_begun thread id
    [.cancel id .closing, .perform id .cancel .waiting] hexit
    (by rw [hfragment]; exact hpassive.closeContext) (hmatches.closed.trans hopen)
    (hmatches.contextClosed.trans hopen) hmatches.treeless rfl
  have hrequested := hmatches.requested hopen stats hrecords
  rw [← hclosed] at hrequested
  have hrequest : (closed.request id thread .cancellationRequested).2.executors id =
      ((closed.executors id).request thread .cancellationRequested).2 := by simp
  have hrequestExit : (closed.request id thread .cancellationRequested).2.exit = none := by
    simpa using hexit'
  have hprefix := ((leads_cancel_to_close thread id hexit hmatches.treeless).trans hclose).trans
    (.goto hexit' rfl .refl)
  have hstate : (closed.executors id).state = ledger.state := by
    rw [hclosed]
    exact hmatches.state
  by_cases hcauses : ledger.causes = []
  · have hcontinues : (closed.executors id).state.continues = true := by
      rw [hstate, Ledger.state, hopen, hcauses]
      rfl
    have haccepted (view : LockView) := if_pos hcontinues ▸ step_request thread id closed view
    obtain ⟨reported, stats', records', reply, hreport, hexit'', hreported, hmade⟩ :=
      leads_report thread id [.cancel id .announcing, .perform id .cancel .waiting]
        (.stateChanged .cancellationRequested) hrequestExit
        (by rw [hrequest, hrequested.fragment]; exact hpassive.onReport _) (.inl ⟨_, rfl⟩)
    refine ⟨_, _, hprefix.trans (.call hexit' (haccepted _) (hreport.trans (.goto hexit'' rfl
      (leads_cancel_from_wake thread id hexit'')))), by simpa using hexit'', ?_⟩
    rw [World.executors_wakeWorker, hreported, hrequest]
    have hafter := hrequested.noted stats' records'
    rw [hmade] at hafter
    simpa [Ledger.cancelled, hcauses] using hafter
  · have hstopped : ¬ (closed.executors id).state.continues = true := by
      rw [hstate, Ledger.state, if_pos hcauses]
      decide
    have hignored (view : LockView) := if_neg hstopped ▸ step_request thread id closed view
    refine ⟨_, _, hprefix.trans (.goto hexit' (hignored _)
      (leads_cancel_from_wake thread id hrequestExit)), by simpa using hrequestExit, ?_⟩
    rw [World.executors_wakeWorker, hrequest]
    simpa [Ledger.cancelled, hcauses] using hrequested

theorem leads_later_cancel (hexit : world.exit = none)
    (hmatches : (world.executors id).Matches fragment ledger) (hclosed : ledger.closed = true) :
    ∃ world' reply, Leads thread world [.perform id .cancel .start] .go world' []
        (.replied reply) ∧
      world'.exit = none ∧ (world'.executors id).Matches fragment ledger := by
  have hclose := leads_close_repeated thread id [.cancel id .closing, .perform id .cancel .waiting]
    hexit (hmatches.closed.trans hclosed) rfl
  have hstopped : ¬ (world.executors id).state.continues = true := by
    simp [hmatches.stopped hclosed]
  have hignored (view : LockView) := if_neg hstopped ▸ step_request thread id world view
  have hrequestExit : (world.request id thread .cancellationRequested).2.exit = none := by
    simpa using hexit
  refine ⟨_, _, ((leads_cancel_to_close thread id hexit hmatches.treeless).trans hclose).trans
    (.goto hexit rfl (.goto hexit (hignored _) (leads_cancel_from_wake thread id hrequestExit))),
    by simpa using hrequestExit, ?_⟩
  rw [World.executors_wakeWorker, World.executors_snd_request, if_pos rfl]
  exact hmatches.ignored hclosed

/-- Every call before the run comes to its end and keeps the executor in line with its
ledger. -/
theorem leads_early (hexit : world.exit = none) (hpassive : fragment.script.IsPassive)
    (hmatches : (world.executors id).Matches fragment ledger)
    (hearly : action.isEarly = true ∨ (ledger.closed = false ∧ ∃ site, action = .arm site)) :
    ∃ world' reply, Leads thread world [.perform id action .start] .go world' []
        (.replied reply) ∧
      world'.exit = none ∧ (world'.executors id).Matches fragment (ledger.after thread action) := by
  rcases hearly with hearly | ⟨hopen, site, rfl⟩
  · cases action with
    | cancel =>
      cases hclosed : ledger.closed with
      | true =>
        simpa [Ledger.after, hclosed] using leads_later_cancel thread id hexit hmatches hclosed
      | false =>
        simpa [Ledger.after, hclosed] using
          leads_first_cancel thread id hexit hpassive hmatches hclosed
    | fail cause =>
      cases hclosed : ledger.closed with
      | true =>
        have hrefuses (view : LockView) :
            (Frame.perform id (.fail cause) .start).step world view thread .go =
              some (world, .reply (.answer .noSink)) := by
          simp [Frame.step, stepPerform, startAction, hmatches.sink, hclosed]
        exact ⟨world, _, .reply hexit (hrefuses _), hexit,
          by simpa [Ledger.after, hclosed] using hmatches⟩
      | false =>
        have hcalls (view : LockView) :
            (Frame.perform id (.fail cause) .start).step world view thread .go =
              some (world, .call (.perform id (.fail cause) .waiting)
                (.fail id cause .append)) := by
          simp [Frame.step, stepPerform, startAction, hmatches.sink, hclosed]
        obtain ⟨world', hleads, hend, hfailed⟩ :=
          leads_fail thread id [.perform id (.fail cause) .waiting] hexit cause
        refine ⟨world', _, .call hexit (hcalls _) (hleads.trans (.reply hend rfl)), hend, ?_⟩
        simpa [Ledger.after, hclosed, hfailed] using hmatches.failed cause
    | heldFail cause =>
      obtain ⟨world', hleads, hend, hfailed⟩ :=
        leads_fail thread id [.perform id (.heldFail cause) .waiting] hexit cause
      refine ⟨world', _, .call hexit rfl (hleads.trans (.reply hend rfl)), hend, ?_⟩
      rw [hfailed]
      exact hmatches.failed cause
    | unpause =>
      refine ⟨_, _, .reply hexit rfl, hexit, ?_⟩
      rw [World.executors_modify, if_pos rfl]
      exact { hmatches with disarmed := fun _ => rfl }
    | status =>
      obtain ⟨world', answer, stats, hleads, hend, hsame⟩ :=
        leads_action thread id [] hexit (show Action.status.IsPassive from trivial)
      refine ⟨world', _, hleads, hend, ?_⟩
      rw [hsame]
      simpa [callsMade, Ledger.after] using hmatches.noted stats []
    | _ => cases hearly
  · refine ⟨_, _, .reply hexit rfl, hexit, ?_⟩
    rw [World.executors_modify, if_pos rfl]
    refine { hmatches with disarmed := fun hclosed => ?_ }
    simp [Ledger.after, hopen] at hclosed

/-- Calls before the run that are made one after another come to their ends. -/
theorem System.IsIdle.performs_early {system : System} (actions : List Action)
    (hidle : system.IsIdle) (hexit : system.world.exit = none)
    (hpassive : fragment.script.IsPassive) (hmatches : (system.executor id).Matches fragment ledger)
    (hearly : ∀ action ∈ actions, action.isEarly = true ∨
      (ledger.closed = false ∧ .cancel ∉ actions ∧ ∃ site, action = .arm site)) :
    ∃ after, system.PerformsAll (actions.map (.act id)) after ∧ after.IsIdle ∧
      after.world.exit = none ∧
      after.threads.length = system.threads.length + actions.length ∧
      (after.executor id).Matches fragment (ledger.afterAll system.threads.length actions) := by
  induction actions generalizing system ledger with
  | nil => exact ⟨system, .nil, hidle, hexit, rfl, hmatches⟩
  | cons action rest ih =>
    have hfirst : action.isEarly = true ∨ (ledger.closed = false ∧ ∃ site, action = .arm site) :=
      (hearly action List.mem_cons_self).imp_right fun ⟨hopen, _, hsite⟩ => ⟨hopen, hsite⟩
    obtain ⟨world', reply, hleads, hexit', hafter⟩ :=
      leads_early system.threads.length id hexit hpassive hmatches hfirst
    obtain ⟨first, hperforms, hidle', rfl, hlength⟩ :=
      hidle.performs (.act id action) hleads
    have hrest : ∀ later ∈ rest, later.isEarly = true ∨
        ((ledger.after system.threads.length action).closed = false ∧ .cancel ∉ rest ∧
          ∃ site, later = .arm site) := by
      intro later hlater
      refine (hearly later (List.mem_cons_of_mem _ hlater)).imp_right ?_
      rintro ⟨hopen, hnone, hsite⟩
      obtain ⟨haction, hnone⟩ := not_or.mp (mt List.mem_cons.mpr hnone)
      rw [ledger.after_open _ hopen (Ne.symm haction)]
      exact ⟨hopen, hnone, hsite⟩
    obtain ⟨after, hall, hend, hexit'', hlength', hmatches'⟩ := ih hidle' hexit' hafter hrest
    rw [hlength] at hlength' hmatches'
    refine ⟨after, .cons hperforms hall, hend, hexit'', ?_, hmatches'⟩
    rw [hlength', List.length_cons]
    omega

end Early

end FragmentLifecycle
