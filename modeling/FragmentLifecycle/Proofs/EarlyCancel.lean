import FragmentLifecycle.Proofs.Causes
import FragmentLifecycle.Proofs.EarlyCalls
import FragmentLifecycle.Proofs.RunEnd
import FragmentLifecycle.Proofs.ShutGate

/-!
# Cancellations before the run

The first cancellation of a fragment that is not yet run closes its resources on the thread
of the caller, and later ones find them closed.  The run that follows finds its fragment
stopped: it builds no tree, closes nothing and reports once (`System.cancel_before_run`).
-/

namespace FragmentLifecycle

namespace Ledger

/-- What there is to know after calls whose first cancellation comes after `before`. -/
def ofCancelled (before later : List Action) : Ledger where
  closed := true
  causes := before.filterMap Action.cause? ++ later.filterMap Action.heldCause?
  calls := (before.length, .closeContext) ::
    if before.filterMap Action.cause? = [] then
      [(before.length, .stateChanged .cancellationRequested)]
    else []

theorem afterAll_cancelled {before later : List Action} (hnone : .cancel ∉ before) :
    ({} : Ledger).afterAll 0 (before ++ .cancel :: later) = ofCancelled before later := by
  rw [afterAll_append, afterAll_open _ _ rfl hnone, afterAll,
    afterAll_closed _ _ _ rfl]
  simp [after, cancelled, ofCancelled]

end Ledger

section Run

variable {world : World} {fragment : Fragment} {ledger : Ledger} (thread : ThreadId)
  (id : ExecutorId)

/-- The report of a run whose fragment was cancelled before, with the given causes. -/
def Executor.lastReport (executor : Executor) : List Fault → Call
  | [] => .stateChanged .cancelled
  | primary :: suppressed => .fail (executor.failureReport ⟨primary, suppressed⟩)

/-- A run of a stopped fragment builds nothing, is not paused and asks to finish. -/
theorem leads_run_to_finish (hexit : world.exit = none)
    (hmatches : (world.executors id).Matches fragment ledger) (hclosed : ledger.closed = true) :
    ∃ world', Leads thread world [.perform id .run .start] .go world'
        [.run id none .finish, .perform id .run .waiting] .go ∧
      world'.exit = none ∧
      world'.executors id =
        { world.executors id with course := .underWay thread, worker := some thread } := by
  let recorded := (world.modify id fun executor =>
    { executor with course := .underWay thread }).modify id fun executor =>
      { executor with worker := some thread }
  have hrecorded : recorded.executors id =
      { world.executors id with course := .underWay thread, worker := some thread } := by
    simp [recorded]
  let assumed := recorded.setPrincipal thread
    (some (recorded.executors id).fragment.identity.principal)
  have hbegins (view : LockView) : (Frame.run id none .start).step world view thread .go =
      some (world.modify id fun executor => { executor with course := .underWay thread },
        .goto (.run id none .enrol)) := by
    simp [Frame.step, stepRun, stepSetup, RunPoint.inSetup, hmatches.course]
  have hskips (view : LockView) : (Frame.run id none .inspect).step recorded view thread .go =
      some (recorded, .goto (.run id none .assumePrincipal)) := by
    have hstopped : (recorded.executors id).state.continues = false := by
      rw [hrecorded]
      exact hmatches.stopped hclosed
    simp [Frame.step, stepRun, stepSetup, RunPoint.inSetup, RunPoint.holdsSetup, hstopped]
  have hpasses (view : LockView) : (Frame.pause id pauseSite .reach).step assumed view thread .go =
      some (assumed, .reply (.answer (.flag false))) := by
    have hdisarmed : (assumed.executors id).controls.enter? pauseSite = none := by
      have harmed : (assumed.executors id).controls.armed = [] := by
        rw [World.executors_setPrincipal, hrecorded]
        exact hmatches.disarmed hclosed
      simp [PauseControls.enter?, harmed]
    simp [Frame.step, stepPause, hdisarmed]
  have hnone (previous : Option Principal) (view : LockView) :
      (Frame.run id none (.fetchTree previous)).step assumed view thread .go =
        some (assumed, .goto (.run id none (.restorePrincipal previous .completed))) := by
    have htreeless : (assumed.executors id).treeHeld = false := by
      rw [World.executors_setPrincipal, hrecorded]
      exact hmatches.treeless
    simp [Frame.step, stepRun, stepDrive, RunPoint.inSetup, RunPoint.inWindDown,
      RunPoint.holdsSetup, htreeless]
  have hassumed : assumed.exit = none := hexit
  refine ⟨_, .call hexit rfl (.goto hexit (hbegins _) (.goto hexit rfl (.goto hexit rfl
    (.goto hexit (hskips _) (.call hexit rfl ((Leads.reply hassumed (hpasses _)).trans
      (.goto hassumed rfl (.goto hassumed (hnone _ _) (.goto hassumed rfl .refl))))))))),
    hexit, ?_⟩
  rw [World.executors_setPrincipal, World.executors_setPrincipal, hrecorded]

/-- A run whose resources are closed asks to finish and comes to its conclusion. -/
theorem leads_run_to_conclude (hexit : world.exit = none) (rest : List Frame)
    (hclosed : (world.executors id).resourcesClosed = true)
    (hfree : rest.any (fun frame => frame.holds (.closing id)) = false) :
    ∃ world', Leads thread world (.run id none .finish :: rest) .go world'
        (.run id none .conclude :: rest) .go ∧
      world'.exit = none ∧
      world'.executors id = { ((world.executors id).request thread .finished).2 with
        gate := (world.executors id).gate.opened } := by
  let finished := (world.request id thread .finished).2
  have hfinished : finished.executors id = ((world.executors id).request thread .finished).2 := by
    simp [finished]
  have hexit' : finished.exit = none := by simpa [finished] using hexit
  let opened := finished.modify id fun executor => { executor with gate := executor.gate.opened }
  have hopened : opened.executors id = { ((world.executors id).request thread .finished).2 with
      gate := (world.executors id).gate.opened } := by
    simp [opened, hfinished]
  have hasks (view : LockView) : (Frame.run id none .finish).step world view thread .go =
      some (finished, .goto (.run id none .releaseWaiters)) := by
    have hdecision := world.fst_request id thread .finished
    have hvalid := State.decide_finished_ne_invalid (world.executors id).state
    simp only [Frame.step, stepRun, stepDrive, RunPoint.inSetup, RunPoint.inWindDown,
      RunPoint.holdsSetup, finished]
    generalize world.request id thread .finished = result at hdecision
    obtain ⟨decision, next⟩ := result
    obtain rfl : decision = _ := hdecision
    cases hdecide : (world.executors id).state.decide .finished with
    | invalid => exact absurd hdecide hvalid
    | accept | ignore => rfl
  have hclose := leads_close_repeated thread id (.run id none .closing :: rest)
    (show opened.exit = none from hexit') (by rw [hopened]; exact hclosed) hfree
  exact ⟨opened, .goto hexit (hasks _) (.call hexit' rfl (hclose.trans
    (.goto hexit' rfl (.goto hexit' rfl .refl)))), hexit', hopened⟩

/-- A run that follows a cancellation makes one report and no other call. -/
theorem leads_run (hexit : world.exit = none) (hpassive : fragment.script.IsPassive)
    (hmatches : (world.executors id).Matches fragment ledger) (hclosed : ledger.closed = true) :
    ∃ world' reply, Leads thread world [.perform id .run .start] .go world' [] (.replied reply) ∧
      world'.exit = none ∧ (world'.executors id).course = .ended thread ∧
      callsMade (world'.executors id).journal =
        ledger.calls ++ [(thread, (world.executors id).lastReport ledger.causes)] := by
  obtain ⟨driven, hdrive, hdriven, hbegun⟩ := leads_run_to_finish thread id hexit hmatches hclosed
  obtain ⟨settled, hsettle, hsettled, hfinished⟩ := leads_run_to_conclude thread id hdriven
    [.perform id .run .waiting] (by rw [hbegun]; exact hmatches.closed.trans hclosed) rfl
  rw [hbegun] at hfinished
  have hstate : (settled.executors id).state =
      (ledger.state.decide .finished).apply ledger.state := by
    rw [hfinished, ← hmatches.state]
    rfl
  have hmade : callsMade (settled.executors id).journal = ledger.calls := by
    rw [hfinished, ← hmatches.calls]
    simp [callsMade]
  have hfragment : (settled.executors id).fragment = fragment := by
    rw [hfinished]
    exact hmatches.fragment
  have hpending : (settled.executors id).lifecycle.failures.pending = ledger.causes := by
    rw [hfinished]
    exact hmatches.causes
  cases hcauses : ledger.causes with
  | nil =>
    have hcancelled : (settled.executors id).state = .cancelled := by
      rw [hstate, Ledger.state, hcauses, hclosed]
      rfl
    obtain ⟨world', reply, hleads, hend, hcourse, hadded⟩ := leads_run_unfailed thread id none
      hsettled (by rw [hcancelled]; decide) (hfragment ▸ hpassive.onReport _)
    rw [hcancelled] at hadded
    exact ⟨world', reply, (hdrive.trans hsettle).trans hleads, hend, hcourse, hmade ▸ hadded⟩
  | cons primary suppressed =>
    obtain ⟨world', reply, hleads, hend, hcourse, hadded⟩ := leads_run_failed thread id none hsettled
      (by rw [hstate, Ledger.state, hcauses]; rfl) ⟨primary, suppressed⟩ (hpending.trans hcauses)
      (hfragment ▸ hpassive.onReport .failed)
    refine ⟨world', reply, (hdrive.trans hsettle).trans hleads, hend, hcourse, ?_⟩
    have hreport (causes : Composite) : (settled.executors id).failureReport causes =
        (world.executors id).failureReport causes := by
      simp only [Executor.failureReport, Executor.handle, hfragment, hmatches.fragment]
    rw [hadded, hmade, hreport]
    rfl

end Run

namespace System

section Before

variable {fragments : List Fragment} {host : Host} {permitted : Command → Prop}
  {system : System} {id : ExecutorId}

/-- A cancellation waits at the gate only where the run has begun. -/
theorem ReachableUnder.not_waiting_of_new
    (hreach : (ofFragments fragments host).ReachableUnder permitted system)
    (hnew : (system.executor id).course = .notStarted) (thread : ThreadId) :
    .cancel id .waitGate ∉ system.frames thread := by
  intro hmem
  refine hreach.everywhere id (fun executor _ frame => frame = .cancel id .waitGate →
    executor.course ≠ .notStarted) ?_ ?_ ?_ hmem (by simp [Frame.isCore]) rfl hnew
  · rintro executor thread _ ⟨⟩ ⟨⟩
  · rintro system after thread frame rest next hreach _ htransition hcore - _ hpushed - rfl hnew
    -- only a cancellation that has found a tree comes to the gate, and there is none yet
    obtain ⟨hheld, hsame⟩ := htransition.waiting_pushed hcore hpushed
    have htreeless := (hreach.treeless_of_new (hsame ▸ hnew)).1
    rw [hheld] at htreeless
    cases htreeless
  · intro system after thread frame rest next _ _ htransition owner other _ _ hother hframe hnew
    exact hother hframe (htransition.course_of_new hnew)

/-- Before the run no terminal report is made. -/
theorem ReachableUnder.terminalReports_of_new
    (hreach : (ofFragments fragments host).ReachableUnder permitted system)
    (hnew : (system.executor id).course = .notStarted) :
    (system.executor id).terminalReports = [] := by
  have hle := hreach.report_le id
  rw [hnew, ← Executor.length_terminalReports] at hle
  simp only [Course.fresh] at hle
  rw [← List.length_eq_zero_iff]
  omega

/-- Before the run every recorded cause waits to be drained. -/
theorem ReachableUnder.recordedCauses_of_new
    (hreach : (ofFragments fragments host).ReachableUnder permitted system)
    (hnew : (system.executor id).course = .notStarted) :
    recordedCauses (system.executor id).journal =
      (system.executor id).lifecycle.failures.pending := by
  have hle := hreach.drain_le id
  rw [hnew] at hle
  simp only [Course.fresh] at hle
  rw [hreach.pending_eq_undrained id, undrained_eq_recordedCauses (by omega)]

/-- Calls before the run with a cancellation among them come to their ends. -/
theorem exists_performsAll_cancelled (host : Host)
    (hpassive : ((fragments[id]?).getD .vacant).script.IsPassive) {before after : List Action}
    (hbefore : ∀ action ∈ before, action ≠ .cancel ∧
      (action.isEarly = true ∨ ∃ site, action = .arm site))
    (hafter : ∀ action ∈ after, action.isEarly = true) :
    ∃ system, (ofFragments fragments host).PerformsAll
        ((before ++ .cancel :: after).map (.act id)) system ∧
      system.IsIdle ∧ system.world.exit = none ∧
      system.threads.length = before.length + after.length + 1 ∧
      (system.executor id).Matches ((fragments[id]?).getD .vacant)
        (.ofCancelled before after) := by
  have hnone : .cancel ∉ before := fun hmem => (hbefore _ hmem).1 rfl
  have hidle : (ofFragments fragments host).IsIdle := fun _ => rfl
  obtain ⟨middle, hfirst, hidle, hexit, hlength, hmatches⟩ := hidle.performs_early id before rfl
    hpassive (.ofFragment _) fun action hmem =>
      (hbefore action hmem).2.imp_right fun hsite => ⟨rfl, hnone, hsite⟩
  obtain ⟨system, hrest, hidle', hexit', hlength', hmatches'⟩ := hidle.performs_early id
    (.cancel :: after) hexit hpassive hmatches fun action hmem => by
      rcases List.mem_cons.mp hmem with rfl | hmem
      · exact .inl rfl
      · exact .inl (hafter action hmem)
  have hnew : (ofFragments fragments host).threads.length = 0 := rfl
  rw [hlength, hnew, ← Ledger.afterAll_append, Ledger.afterAll_cancelled hnone] at hmatches'
  refine ⟨system, ?_, hidle', hexit', ?_, hmatches'⟩
  · rw [List.map_append]
    exact hfirst.append hrest
  · rw [hlength', hlength, hnew, List.length_cons]
    omega

end Before

/-- Calls before the run, made one after another, of which the first cancellation comes after
`before`: it closes the context, which is the only call on a collaborator but the report of
its request, which is made unless a failure came before.  A fragment that is not yet run
holds nobody at the gate, closes no tree and makes no terminal report, whatever is going on.
If the run follows, it comes to its end and makes one call, the report of all causes, or of
the cancellation where there is none. -/
theorem cancel_before_run (fragments : List Fragment) (host : Host) (id : ExecutorId)
    (hpassive : ((fragments[id]?).getD .vacant).script.IsPassive) :
    (∀ system, (ofFragments fragments host).Reachable system →
      (system.executor id).course = .notStarted →
        (∀ thread, .cancel id .waitGate ∉ system.frames thread) ∧
          tally (Entry.isEntered Call.isCloseRoot) (system.executor id).journal = 0 ∧
          (system.executor id).terminalReports = []) ∧
      ∀ before after : List Action,
        (∀ action ∈ before, action ≠ .cancel ∧
          (action.isEarly = true ∨ ∃ site, action = .arm site)) →
        (∀ action ∈ after, action.isEarly = true) →
        (∃ system, (ofFragments fragments host).PerformsAll
          ((before ++ .cancel :: after).map (.act id)) system) ∧
        ∀ system, (ofFragments fragments host).PerformsAll
            ((before ++ .cancel :: after).map (.act id)) system →
          (system.executor id).course = .notStarted ∧
          callsMade (system.executor id).journal =
            (before.length, .closeContext) ::
              (if before.filterMap Action.cause? = [] then
                [(before.length, .stateChanged .cancellationRequested)]
              else []) ∧
          recordedCauses (system.executor id).journal =
            before.filterMap Action.cause? ++ after.filterMap Action.heldCause? ∧
          (∃ later, system.Performs (.act id .run) later) ∧
          ∀ later, system.Performs (.act id .run) later →
            (later.executor id).course = .ended (before.length + after.length + 1) ∧
            callsMade (later.executor id).journal = callsMade (system.executor id).journal ++
              [(before.length + after.length + 1, (system.executor id).lastReport
                (recordedCauses (system.executor id).journal))] := by
  constructor
  · intro system hreach hnew
    have hunder := hreach.unrestricted
    exact ⟨hunder.not_waiting_of_new hnew, (hunder.treeless_of_new hnew).2,
      hunder.terminalReports_of_new hnew⟩
  intro before after hbefore hafter
  obtain ⟨system, hperforms, hidle, hexit, hlength, hmatches⟩ :=
    exists_performsAll_cancelled host hpassive hbefore hafter
  obtain ⟨world', reply, hleads, -, hcourse, hmade⟩ :=
    leads_run system.threads.length id hexit hpassive hmatches rfl
  obtain ⟨later, hrun, -, rfl, -⟩ := hidle.performs (.act id .run) hleads
  have hcauses := (hperforms.reachable .refl).unrestricted.recordedCauses_of_new hmatches.course
  rw [hmatches.causes] at hcauses
  -- the calls and the run have one end each, which is the one that was found
  refine ⟨⟨system, hperforms⟩, fun other hother => ?_⟩
  obtain rfl := hperforms.unique hother
  refine ⟨hmatches.course, hmatches.calls, hcauses, ⟨later, hrun⟩, fun last hlast => ?_⟩
  obtain rfl := hrun.unique hlast
  rw [hcauses, hmatches.calls, ← hlength]
  exact ⟨hcourse, hmade⟩

/-- The second cancellation makes no call, and a sink that was kept makes the run fail. -/
theorem cancel_before_run_of_kept_sink :
    ∃ system later,
      (ofFragments [.vacant] { slots := { free := 0 } }).PerformsAll
        [.act 0 (.arm pauseSite), .act 0 .unpause, .act 0 .cancel, .act 0 .cancel,
          .act 0 (.heldFail (.message "late")), .act 0 .status] system ∧
      system.Performs (.act 0 .run) later ∧
      callsMade (later.executor 0).journal =
        [(2, .closeContext), (2, .stateChanged .cancellationRequested),
          (6, .fail ((system.executor 0).failureReport ⟨.message "late", []⟩))] := by
  have hpassive : Fragment.vacant.script.IsPassive :=
    ⟨⟨by simp [Fragment.vacant], ⟨_, rfl⟩, by simp [Fragment.vacant]⟩,
      fun state => ⟨by simp [Fragment.vacant], ⟨_, rfl⟩, by simp [Fragment.vacant]⟩⟩
  obtain ⟨⟨system, hperforms⟩, hall⟩ :=
    (cancel_before_run [.vacant] { slots := { free := 0 } } 0 hpassive).2
      [.arm pauseSite, .unpause] [.cancel, .heldFail (.message "late"), .status]
      (by simp [Action.isEarly]) (by simp [Action.isEarly])
  obtain ⟨-, hcalls, hcauses, ⟨later, hlater⟩, hrun⟩ := hall system hperforms
  refine ⟨system, later, hperforms, hlater, ?_⟩
  rw [(hrun later hlater).2, hcalls, hcauses]
  rfl

end System

end FragmentLifecycle
