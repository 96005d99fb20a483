import FragmentLifecycle.Proofs.Outcome

/-!
# The causes of a failure

The collector holds what was recorded since the last drain, and the run of a fragment
drains it once.  So the report of a failure has every cause that was recorded before the
drain, in the order of their arrival, and there is at least one: a failure is recorded
before it can become the state (`System.failure_report_complete`).
-/

namespace FragmentLifecycle

/-- The causes recorded in a journal, in the order of their arrival. -/
def recordedCauses (journal : List Record) : List Fault :=
  journal.filterMap fun record =>
    match record.entry with
    | .recorded cause => some cause
    | _ => none

/-- What a record makes of the causes that wait to be drained. -/
def Entry.collect (pending : List Fault) : Entry → List Fault
  | .recorded cause => pending ++ [cause]
  | .drained _ => []
  | _ => pending

/-- The causes recorded in a journal since they were last drained. -/
def undrained (journal : List Record) : List Fault :=
  journal.foldl (fun pending record => record.entry.collect pending) []

def Entry.isDrain : Entry → Bool
  | .drained _ => true
  | _ => false

/-- Weighs the runs that the causes are still to be drained by. -/
def Frame.drainDue : Frame → Nat
  | .run _ _ point =>
      match point with
      | .start | .reporting | .retire => 0
      | _ => 1
  | _ => 0

section Journals

variable (journal later : List Record) (thread : ThreadId)

@[simp]
theorem recordedCauses_append (entry : Entry) :
    recordedCauses (journal ++ [⟨thread, entry⟩]) =
      match entry with
      | .recorded cause => recordedCauses journal ++ [cause]
      | _ => recordedCauses journal := by
  cases entry <;> simp [recordedCauses]

@[simp]
theorem undrained_append (entry : Entry) :
    undrained (journal ++ [⟨thread, entry⟩]) = entry.collect (undrained journal) := by
  simp [undrained]

theorem undrained_of_drained (causes : Composite) :
    undrained (journal ++ ⟨thread, .drained causes⟩ :: later) = undrained later := by
  simp [undrained, Entry.collect]

/-- Without a drain, all recorded causes wait. -/
theorem undrained_eq_recordedCauses {journal : List Record}
    (hnone : tally Entry.isDrain journal = 0) : undrained journal = recordedCauses journal := by
  induction journal using List.reverseRecOn with
  | nil => rfl
  | append_singleton journal record ih =>
    obtain ⟨thread, entry⟩ := record
    rw [tally_append] at hnone
    rw [undrained_append, recordedCauses_append, ih (by omega)]
    cases entry with
    | drained => simp [Entry.isDrain] at hnone
    | _ => rfl

theorem recordedCauses_of_failureTook {journal : List Record} (htook : FailureTook journal) :
    recordedCauses journal ≠ [] := by
  obtain ⟨before, thread, cause, middle, current, after, rfl, -, -⟩ := htook
  simp [recordedCauses]

end Journals

section Transitions

variable {view : LockView} {thread : ThreadId} {id : ExecutorId} {frame : Frame}
  {signal : Signal} {executor executor' : Executor} {next : Next}

theorem Executor.Grows.failureReport (hgrows : executor.Grows executor') (causes : Composite) :
    executor'.failureReport causes = executor.failureReport causes := by
  rw [Executor.failureReport, Executor.failureReport, Executor.handle, Executor.handle,
    hgrows.fragment]

theorem Lifecycle.pending_of_drain {lifecycle next : Lifecycle} {causes : Composite}
    (hdrain : lifecycle.drain = (some causes, next)) :
    causes.causes = lifecycle.failures.pending ∧ next.failures.pending = [] := by
  simp only [Lifecycle.drain, Collector.drain] at hdrain
  cases hpending : lifecycle.failures.pending with
  | nil => simp [hpending] at hdrain
  | cons primary suppressed =>
    simp only [hpending, Prod.mk.injEq, Option.some.injEq] at hdrain
    obtain ⟨rfl, rfl⟩ := hdrain
    exact ⟨rfl, rfl⟩

theorem Transition.pending_eq_undrained
    (htransition : Transition view thread id frame signal executor next executor')
    (hpending : executor.lifecycle.failures.pending = undrained executor.journal) :
    executor'.lifecycle.failures.pending = undrained executor'.journal := by
  cases htransition
  case aside hsame =>
    rw [hsame.lifecycle, hpending]
    rcases hsame.journal with hjournal | ⟨receiver, hjournal⟩ <;> simp [hjournal, Entry.collect]
  case callProceeds hsame hjournal => rw [hsame.lifecycle, hjournal, hpending]
  case drains hcauses =>
    rw [Executor.journal_record, undrained_append]
    exact (Lifecycle.pending_of_drain hcauses).2
  all_goals first
  | exact hpending
  | simp [Entry.collect, Collector.append, hpending]

/-- Causes drained and drains due never become more, but where a run begins. -/
theorem Transition.drain_le
    (htransition : Transition view thread id frame signal executor next executor')
    (hcore : frame.isCore id = true) :
    tally Entry.isDrain executor'.journal + executor'.course.fresh +
      (next.frames.map (within id Frame.drainDue)).sum ≤
        tally Entry.isDrain executor.journal + executor.course.fresh + frame.drainDue := by
  cases htransition
  case aside houtside _ _ => simp [houtside] at hcore
  case runBegins hnew => simp [hnew, Frame.drainDue, Course.fresh]
  case callProceeds hsame hjournal =>
    rw [hjournal, hsame.course]
    simp [Frame.drainDue]
  all_goals simp [Frame.drainDue, Entry.isDrain]
  all_goals
    simp only [Course.fresh]
    omega

/-- What is drained is what waited. -/
theorem Transition.drained_eq {causes : Composite}
    (htransition : Transition view thread id frame signal executor next executor')
    (hjournal : executor'.journal = executor.journal ++ [⟨thread, .drained causes⟩]) :
    causes.causes = executor.lifecycle.failures.pending := by
  cases htransition
  case aside hsame =>
    rcases hsame.journal with hkept | ⟨receiver, hforwarded⟩
    · simp [hkept] at hjournal
    · simp [hforwarded] at hjournal
  case callProceeds hsame => simp [hsame] at hjournal
  case drains hcauses =>
    obtain rfl : _ = causes := by simpa using hjournal
    exact (Lifecycle.pending_of_drain hcauses).1
  all_goals simp at hjournal

/-- The report of a failure is made of the causes that its run has drained. -/
theorem Transition.failureReport_pushed
    (htransition : Transition view thread id frame signal executor next executor')
    (hcore : frame.isCore id = true) {report : FailureReport} {point : CallPoint}
    (hpushed : .call id (.fail report) point ∈ next.frames) :
    (∃ point', frame = .call id (.fail report) point') ∨
      ∃ causes, report = executor.failureReport causes ∧
        executor'.journal = executor.journal ++ [⟨thread, .drained causes⟩] := by
  cases htransition
  case aside houtside _ _ => simp [houtside] at hcore
  case drains causes _ _ =>
    simp at hpushed
    exact .inr ⟨causes, hpushed.1, rfl⟩
  all_goals simp at hpushed
  case callEntered | callProceeds | callActs | callActed =>
    obtain ⟨rfl, -⟩ := hpushed
    exact .inl ⟨_, rfl⟩

/-- A cause is added by a call that records a failure, or by a run that has none. -/
theorem Transition.recordedCauses_cases
    (htransition : Transition view thread id frame signal executor next executor') :
    recordedCauses executor'.journal = recordedCauses executor.journal ∨
      (∃ cause, frame = .fail id cause .append ∧
        recordedCauses executor'.journal = recordedCauses executor.journal ++ [cause]) ∨
      ∃ l, frame = .run id l .ensureCause ∧ executor.lifecycle.failures.isEmpty = true := by
  cases htransition
  case aside hsame =>
    rcases hsame.journal with hjournal | ⟨receiver, hjournal⟩ <;> simp [hjournal]
  case callProceeds hjournal => simp [hjournal]
  case causeAppended => exact .inr (.inl ⟨_, rfl, by simp⟩)
  case causeSubstituted hcauses => exact .inr (.inr ⟨_, rfl, hcauses⟩)
  all_goals simp

end Transitions

namespace System

section Causes

variable {fragments : List Fragment} {host : Host} {permitted : Command → Prop}
  {system : System} {id : ExecutorId}

theorem ReachableUnder.pending_eq_undrained
    (hreach : (ofFragments fragments host).ReachableUnder permitted system) (id : ExecutorId) :
    (system.executor id).lifecycle.failures.pending = undrained (system.executor id).journal :=
  hreach.always id
    (fun executor => executor.lifecycle.failures.pending = undrained executor.journal)
    (fun _ => rfl) fun _ _ htransition hpending => htransition.pending_eq_undrained hpending

/-- The causes are drained once at most. -/
theorem ReachableUnder.drain_le
    (hreach : (ofFragments fragments host).ReachableUnder permitted system) (id : ExecutorId) :
    tally Entry.isDrain (system.executor id).journal +
      (system.executor id).course.fresh + system.total (within id Frame.drainDue) ≤ 1 := by
  apply hreach.once id _ Frame.drainDue (fun _ => rfl)
  · rintro frame ⟨⟩ <;> rfl
  · exact fun htransition hcore => htransition.drain_le hcore

/-- A failed fragment has a recorded cause. -/
theorem ReachableUnder.recordedCauses_of_failed
    (hreach : (ofFragments fragments host).ReachableUnder permitted system)
    (hfailed : (system.executor id).state = .failed) :
    recordedCauses (system.executor id).journal ≠ [] := by
  rw [hreach.state_eq_replay id] at hfailed
  apply recordedCauses_of_failureTook
  exact failureTook_of_replay (hreach.faithful id) (hreach.paired id) hfailed

/-- A run that looks for a cause finds one. -/
theorem ReachableUnder.cause_of_ensureCause
    (hreach : (ofFragments fragments host).ReachableUnder permitted system) {thread : ThreadId}
    {l : Option ListenerId} (hmem : .run id l .ensureCause ∈ system.frames thread) :
    (system.executor id).lifecycle.failures.isEmpty = false := by
  have hfailed := (hreach.settled hmem).failed (.inl rfl)
  have hcauses := hreach.recordedCauses_of_failed hfailed
  have hnone : tally Entry.isDrain (system.executor id).journal = 0 := by
    have hle := hreach.drain_le id
    have hdue := weight_le_total (within id Frame.drainDue) hmem
    simp [Frame.drainDue] at hdue
    omega
  rw [← undrained_eq_recordedCauses hnone, ← hreach.pending_eq_undrained id] at hcauses
  simpa [Collector.isEmpty] using hcauses

theorem ReachableUnder.drained_eq
    (hreach : (ofFragments fragments host).ReachableUnder permitted system) (id : ExecutorId) :
    Consistent (fun before record => ∀ causes, record.entry = .drained causes →
      causes.causes = undrained before) (system.executor id).journal := by
  refine hreach.always id (fun executor => Consistent (fun before record => ∀ causes,
    record.entry = .drained causes → causes.causes = undrained before) executor.journal)
    (fun _ => .nil) ?_
  intro system after thread frame rest next hreach _ htransition hconsistent
  rcases htransition.journal_cases with hsame | ⟨entry, -, hlonger⟩
  · rw [hsame]
    exact hconsistent
  · rw [hlonger]
    apply hconsistent.append
    intro causes hentry
    obtain rfl : entry = _ := hentry
    rw [htransition.drained_eq hlonger]
    exact hreach.pending_eq_undrained id

/-- The report of a failure follows the drain of its causes on the same thread. -/
theorem ReachableUnder.drained_of_frame
    (hreach : (ofFragments fragments host).ReachableUnder permitted system) {thread : ThreadId}
    {report : FailureReport} {point : CallPoint}
    (hmem : .call id (.fail report) point ∈ system.frames thread) :
    ∃ causes, report = (system.executor id).failureReport causes ∧
      ⟨thread, .drained causes⟩ ∈ (system.executor id).journal := by
  have hlater {executor executor' : Executor} {thread : ThreadId}
      (hgrows : executor.Grows executor')
      (hdrained : ∃ causes, report = executor.failureReport causes ∧
        ⟨thread, .drained causes⟩ ∈ executor.journal) :
      ∃ causes, report = executor'.failureReport causes ∧
        ⟨thread, .drained causes⟩ ∈ executor'.journal := by
    obtain ⟨causes, hreport, hdrain⟩ := hdrained
    exact ⟨causes, hreport.trans (hgrows.failureReport causes).symm,
      hgrows.journal.subset hdrain⟩
  refine hreach.everywhere id (fun executor thread frame => ∀ point,
    frame = .call id (.fail report) point → ∃ causes, report = executor.failureReport causes ∧
      ⟨thread, .drained causes⟩ ∈ executor.journal) ?_ ?_ ?_ hmem (by simp [Frame.isCore]) point rfl
  · rintro executor thread _ ⟨⟩ point ⟨⟩
  · rintro system after thread frame rest next hreach hadvance htransition hcore hframe _ hpushed -
      point rfl
    rcases htransition.failureReport_pushed hcore hpushed with
      ⟨point', rfl⟩ | ⟨causes, hreport, hjournal⟩
    · exact hlater htransition.grows (hframe point' rfl)
    · refine ⟨causes, hreport.trans (htransition.grows.failureReport causes).symm, ?_⟩
      rw [hjournal]
      exact List.mem_append_right _ List.mem_cons_self
  · intro system after thread frame rest next hreach hadvance htransition owner other _ _ hother
      point hframe
    exact hlater htransition.grows (hother point hframe)

theorem ReachableUnder.drained_of_report
    (hreach : (ofFragments fragments host).ReachableUnder permitted system)
    {seen after : List Record} {thread : ThreadId} {report : FailureReport}
    (hjournal : (system.executor id).journal = seen ++ ⟨thread, .entered (.fail report)⟩ :: after) :
    ∃ causes, report = (system.executor id).failureReport causes ∧
      ⟨thread, .drained causes⟩ ∈ seen := by
  obtain ⟨earlier, hearlier, rfl, hmem⟩ := hreach.entered hjournal
  obtain ⟨causes, hreport, hdrained⟩ := hearlier.drained_of_frame hmem
  refine ⟨causes, hreport.trans ?_, hdrained⟩
  simp only [Executor.failureReport, Executor.handle, hearlier.fragment_eq id,
    hreach.fragment_eq id]

/-- A cause is added by a call that records a failure, and by nothing else. -/
theorem ReachableUnder.recordedCauses_of_move
    (hreach : (ofFragments fragments host).ReachableUnder permitted system) {after : System}
    {move : Move} (hmove : system.move move = some after) :
    recordedCauses (after.executor id).journal = recordedCauses (system.executor id).journal ∨
      ∃ thread cause, move = .step thread ∧ .fail id cause .append ∈ system.frames thread ∧
        recordedCauses (after.executor id).journal =
          recordedCauses (system.executor id).journal ++ [cause] := by
  cases move with
  | call command =>
    obtain rfl := Option.some.inj hmove
    exact .inl rfl
  | abandon thread =>
    obtain ⟨root, hturn, -⟩ := turnover_of_abandon hmove
    rw [hturn.executor_eq]
    exact .inl rfl
  | step thread =>
    obtain ⟨frame, rest, next, hadvance⟩ := advance_of_step hmove
    have htop : frame ∈ system.frames thread := hadvance.frames ▸ List.mem_cons_self
    rcases (Frame.step_transition id hadvance.step).recordedCauses_cases with
      hsame | ⟨cause, rfl, hmore⟩ | ⟨l, rfl, hempty⟩
    · exact .inl hsame
    · exact .inr ⟨thread, cause, rfl, htop, hmore⟩
    · -- the substitute is never needed
      have hcause := hreach.cause_of_ensureCause htop
      rw [System.executor, hempty] at hcause
      cases hcause

end Causes

variable {fragments : List Fragment} {host : Host} {system : System}

/-- The report of a failure carries every cause.  It is made of the one drain of the
collector, which its thread did before: the first cause that was recorded before the drain
is the primary one and the others are suppressed, in the order of their arrival.  What is
recorded after the drain waits in the collector, and there is no other terminal report.  Up
to the drain a failed fragment has a cause, so that a run which looks for one finds it and
every cause comes from a call that records a failure. -/
theorem failure_report_complete (hreach : (ofFragments fragments host).Reachable system)
    (id : ExecutorId) :
    (∀ seen thread report after,
      (system.executor id).journal = seen ++ ⟨thread, .entered (.fail report)⟩ :: after →
      ∃ before causes gap, seen = before ++ ⟨thread, .drained causes⟩ :: gap ∧
        report = (system.executor id).failureReport causes ∧
        recordedCauses before = report.causes.primary :: report.causes.suppressed ∧
        (system.executor id).lifecycle.failures.pending = recordedCauses (gap ++ after) ∧
        tally Entry.isDrain (system.executor id).journal = 1 ∧
        (system.executor id).terminalReports = [⟨thread, .entered (.fail report)⟩]) ∧
      (tally Entry.isDrain (system.executor id).journal = 0 →
        (system.executor id).lifecycle.failures.pending =
            recordedCauses (system.executor id).journal ∧
          ((system.executor id).state = .failed →
            recordedCauses (system.executor id).journal ≠ [])) ∧
      (∀ thread l, .run id l .ensureCause ∈ system.frames thread →
        (system.executor id).lifecycle.failures.isEmpty = false) ∧
      ∀ move after, system.move move = some after →
        recordedCauses (after.executor id).journal ≠ recordedCauses (system.executor id).journal →
        ∃ thread cause, move = .step thread ∧ .fail id cause .append ∈ system.frames thread ∧
          recordedCauses (after.executor id).journal =
            recordedCauses (system.executor id).journal ++ [cause] := by
  have hunder := hreach.unrestricted
  have hpending := hunder.pending_eq_undrained id
  refine ⟨?_, ?_, ?_, ?_⟩
  · intro seen thread report after hjournal
    obtain ⟨causes, hreport, hdrained⟩ := hunder.drained_of_report hjournal
    obtain ⟨before, gap, rfl⟩ := List.append_of_mem hdrained
    have hread : (system.executor id).journal =
        before ++ ⟨thread, .drained causes⟩ ::
          (gap ++ ⟨thread, .entered (.fail report)⟩ :: after) := by
      simp [hjournal]
    have hone := hunder.drain_le id
    have hsplit := tally_split Entry.isDrain before ⟨thread, .drained causes⟩
      (gap ++ ⟨thread, .entered (.fail report)⟩ :: after)
    rw [← hread] at hsplit
    simp only [Entry.isDrain, Bool.toNat_true] at hsplit
    refine ⟨before, causes, gap, rfl, hreport, ?_, ?_, by omega, ?_⟩
    · have hdrain := hunder.drained_eq id before _ _ hread causes rfl
      rw [undrained_eq_recordedCauses (by omega)] at hdrain
      rw [← hdrain, hreport]
      rfl
    · rw [hpending, hread, undrained_of_drained, undrained_eq_recordedCauses (by omega)]
      simp [recordedCauses]
    · exact hunder.terminalReports_eq (by simp [hjournal]) rfl
  · intro hnone
    rw [hpending, undrained_eq_recordedCauses hnone]
    exact ⟨rfl, hunder.recordedCauses_of_failed⟩
  · intro thread l hmem
    exact hunder.cause_of_ensureCause hmem
  · intro move after hmove hmore
    exact (hunder.recordedCauses_of_move hmove).resolve_left hmore

/-- Two sinks fail a run before it drains their causes, and a third one fails it after that,
but before the report is made. -/
theorem failure_report_complete_of_three_sinks :
    ∃ system seen report after,
      (ofFragments [.vacant] { slots := { free := 0 } }).Reachable system ∧
      (system.executor 0).journal = seen ++ ⟨0, .entered (.fail report)⟩ :: after ∧
      (system.executor 0).lifecycle.failures.pending = [.message "third"] ∧
      report.causes = ⟨.message "first", [.message "second"]⟩ ∧
      (∃ before, before <+: seen ∧ recordedCauses before = [.message "first", .message "second"]) ∧
      (system.executor 0).terminalReports = [⟨0, .entered (.fail report)⟩] := by
  let report : FailureReport := .ofCauses ⟨.message "first", [.message "second"]⟩
    Fragment.vacant.identity.endpoint Fragment.vacant.identity.handle
  obtain ⟨system, hreach, hend⟩ := exists_of_moves
    (ofFragments [.vacant] { slots := { free := 0 } })
    (.call (.act 0 .run) :: List.replicate 12 (.step 0) ++
      .call (.act 0 (.heldFail (.message "first"))) :: List.replicate 2 (.step 1) ++
      .call (.act 0 (.heldFail (.message "second"))) :: List.replicate 3 (.step 2) ++
      .step 1 :: List.replicate 27 (.step 0) ++
      .call (.act 0 (.heldFail (.message "third"))) :: List.replicate 4 (.step 3) ++
      List.replicate 4 (.step 0))
    (fun system => ((system.executor 0).lifecycle.failures.pending,
      (system.executor 0).journal.drop 18))
    ([.message "third"], [⟨0, .entered (.fail report)⟩, ⟨0, .left (.fail report) false⟩]) rfl
  obtain ⟨hpending, hjournal⟩ := Prod.mk.inj hend
  have hsplit : (system.executor 0).journal = (system.executor 0).journal.take 18 ++
      ⟨0, .entered (.fail report)⟩ :: [⟨0, .left (.fail report) false⟩] := by
    rw [← hjournal, List.take_append_drop]
  obtain ⟨before, causes, gap, hseen, -, hcauses, -, -, hreports⟩ :=
    (failure_report_complete hreach 0).1 _ _ _ _ hsplit
  refine ⟨system, _, report, _, hreach, hsplit, hpending, rfl, ⟨before, ?_, hcauses⟩,
    hreports⟩
  rw [hseen]
  exact List.prefix_append _ _

end System

end FragmentLifecycle
