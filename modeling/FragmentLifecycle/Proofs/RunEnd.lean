import FragmentLifecycle.Proofs.PassiveCalls

/-!
# The end of a run

On a lone thread a run that comes to its conclusion reports its state, or all causes of its
failure, and retires (`leads_run_unfailed`, `leads_run_failed`).
-/

namespace FragmentLifecycle

section Conclusion

variable {world : World} (thread : ThreadId) (id : ExecutorId) (listener : Option ListenerId)

/-- A run retires when its report has been made. -/
theorem leads_run_from_report (hexit : world.exit = none) (call : Call)
    (hpassive : ((world.executors id).fragment.script.planOf call).IsPassive)
    (hreport : (∃ state, call = .stateChanged state) ∨ ∃ report, call = .fail report) :
    ∃ world' reply, Leads thread world
        [.call id call .enter, .run id listener .reporting, .perform id .run .waiting] .go world' []
        (.replied reply) ∧
      world'.exit = none ∧ (world'.executors id).course = .ended thread ∧
      callsMade (world'.executors id).journal =
        callsMade (world.executors id).journal ++ [(thread, call)] := by
  obtain ⟨reported, stats, records, reply, hleads, hexit', hreported, hmade⟩ :=
    leads_report thread id [.run id listener .reporting, .perform id .run .waiting] call hexit
      hpassive hreport
  let retired := reported.modify id fun executor =>
    { executor with worker := none, course := .ended thread }
  have hretired : retired.executors id =
      { reported.executors id with worker := none, course := .ended thread } := by
    simp [retired]
  have hretire : Leads thread reported [.run id listener .retire, .perform id .run .waiting] .go
      retired [] (.replied (.answer .none)) :=
    (Leads.reply hexit' rfl).trans (.reply (show retired.exit = none from hexit') rfl)
  refine ⟨retired, _, hleads.trans (.goto hexit' rfl hretire), hexit', by rw [hretired], ?_⟩
  rw [hretired, ← hmade]
  simp only [hreported]
  exact callsMade_append _ _

/-- A run that comes to its conclusion without a failure reports its state. -/
theorem leads_run_unfailed (hexit : world.exit = none)
    (hunfailed : (world.executors id).state ≠ .failed)
    (hpassive : ((world.executors id).fragment.script.onReport
      (world.executors id).state).IsPassive) :
    ∃ world' reply, Leads thread world
        [.run id listener .conclude, .perform id .run .waiting] .go world' [] (.replied reply) ∧
      world'.exit = none ∧ (world'.executors id).course = .ended thread ∧
      callsMade (world'.executors id).journal =
        callsMade (world.executors id).journal ++
          [(thread, .stateChanged (world.executors id).state)] := by
  let concluded := (world.record id thread (.concluded (world.executors id).state)).note
    (.completed (world.executors id).handle (world.executors id).state)
  have hconcluded : concluded.executors id =
      (world.executors id).record thread (.concluded (world.executors id).state) := by
    simp [concluded]
  have hconcludes (view : LockView) : (Frame.run id listener .conclude).step world view thread .go =
      some (concluded, .call (.run id listener .reporting)
        (.call id (.stateChanged (world.executors id).state) .enter)) := by
    simp [concluded, Frame.step, stepRun, stepWindDown, RunPoint.inSetup, RunPoint.inWindDown,
      RunPoint.holdsSetup, hunfailed]
  obtain ⟨world', reply, hreport, hend, hcourse, hadded⟩ :=
    leads_run_from_report thread id listener (show concluded.exit = none from hexit)
      (.stateChanged (world.executors id).state) (by rw [hconcluded]; exact hpassive) (.inl ⟨_, rfl⟩)
  refine ⟨world', reply, .call hexit (hconcludes _) hreport, hend, hcourse, ?_⟩
  rw [hadded, hconcluded]
  simp [callsMade]

/-- A run that comes to its conclusion as a failed one drains its causes and reports them. -/
theorem leads_run_failed (hexit : world.exit = none)
    (hfailed : (world.executors id).state = .failed) (causes : Composite)
    (hcauses : (world.executors id).lifecycle.failures.pending = causes.causes)
    (hpassive : ((world.executors id).fragment.script.onReport .failed).IsPassive) :
    ∃ world' reply, Leads thread world
        [.run id listener .conclude, .perform id .run .waiting] .go world' [] (.replied reply) ∧
      world'.exit = none ∧ (world'.executors id).course = .ended thread ∧
      callsMade (world'.executors id).journal = callsMade (world.executors id).journal ++
        [(thread, .fail ((world.executors id).failureReport causes))] := by
  let concluded := world.record id thread (.concluded .failed)
  have hconcluded : concluded.executors id =
      (world.executors id).record thread (.concluded .failed) := by
    simp [concluded]
  have hpending : (concluded.executors id).lifecycle.failures.pending =
      causes.primary :: causes.suppressed := by
    rw [hconcluded]
    exact hcauses
  have hconcludes (view : LockView) : (Frame.run id listener .conclude).step world view thread .go =
      some (concluded, .goto (.run id listener .ensureCause)) := by
    simp [concluded, Frame.step, stepRun, stepWindDown, RunPoint.inSetup, RunPoint.inWindDown,
      RunPoint.holdsSetup, hfailed]
  have hpresent (view : LockView) :
      (Frame.run id listener .ensureCause).step concluded view thread .go =
        some (concluded, .goto (.run id listener .drain)) := by
    simp [Frame.step, stepRun, stepWindDown, RunPoint.inSetup, RunPoint.inWindDown,
      RunPoint.holdsSetup, Collector.isEmpty, hpending]
  let lifecycle : Lifecycle := { (concluded.executors id).lifecycle with failures := {} }
  have hdrain : (concluded.executors id).lifecycle.drain = (some causes, lifecycle) := by
    simp [Lifecycle.drain, Collector.drain, hpending, lifecycle]
  let report := (concluded.executors id).failureReport causes
  let drained := ((concluded.modify id fun executor => { executor with lifecycle }).record id
    thread (.drained causes)).note (.failed (concluded.executors id).handle causes.text)
  have hdrained : drained.executors id =
      { concluded.executors id with lifecycle }.record thread (.drained causes) := by
    simp [drained]
  have hdrains (view : LockView) : (Frame.run id listener .drain).step concluded view thread .go =
      some (drained, .call (.run id listener .reporting) (.call id (.fail report) .enter)) := by
    simp [drained, report, Frame.step, stepRun, stepWindDown, RunPoint.inSetup,
      RunPoint.inWindDown, RunPoint.holdsSetup, hdrain]
  have hreport : report = (world.executors id).failureReport causes := by
    simp only [report, hconcluded]
    rfl
  have hexit' : concluded.exit = none := hexit
  obtain ⟨world', reply, hleads, hend, hcourse, hadded⟩ :=
    leads_run_from_report thread id listener (show drained.exit = none from hexit')
      (.fail report) (by rw [hdrained, hconcluded]; exact hpassive) (.inr ⟨_, rfl⟩)
  refine ⟨world', reply, .goto hexit (hconcludes _) (.goto hexit' (hpresent _)
    (.call hexit' (hdrains _) hleads)), hend, hcourse, ?_⟩
  rw [hadded, hdrained, hconcluded, hreport]
  simp [callsMade, Executor.record]

end Conclusion

end FragmentLifecycle
