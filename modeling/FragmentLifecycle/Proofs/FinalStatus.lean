import FragmentLifecycle.Proofs.Outcome

/-!
# The status after the terminal report

A failed and a finished fragment stay what they are.  A cancelled one may still fail, and
a failure that comes after its run has read the state comes too late to be reported.  So
the reported status is final but for such a failure (`System.status_after_report`).
-/

namespace FragmentLifecycle

/-- A request for the failed state was decided. -/
def FailureAsked (journal : List Record) : Prop :=
  ∃ record ∈ journal, ∃ current, record.entry = .requested current .failed

theorem State.apply_decide_of_cancelled (target : State) :
    (State.cancelled.decide target).apply .cancelled =
      if target = .failed then .failed else .cancelled := by
  cases target <;> rfl

section Replay

variable {journal later : List Record} {record : Record}

theorem failureAsked_append (journal later : List Record) :
    FailureAsked (journal ++ later) ↔ FailureAsked journal ∨ FailureAsked later := by
  simp only [FailureAsked, List.mem_append, or_and_right, exists_or]

theorem failureAsked_cons_of_not (record : Record) (later : List Record)
    (hrecord : ∀ current, record.entry ≠ .requested current .failed) :
    FailureAsked (record :: later) ↔ FailureAsked later := by
  simp [FailureAsked, hrecord]

/-- After a cancelled state only a failure counts. -/
theorem replay_of_cancelled (later : List Record) (hcancelled : replay journal = .cancelled) :
    (replay (journal ++ later) = .failed ∧ FailureAsked later) ∨
      (replay (journal ++ later) = .cancelled ∧ ¬ FailureAsked later) := by
  induction later using List.reverseRecOn with
  | nil => exact .inr ⟨by rwa [List.append_nil], by simp [FailureAsked]⟩
  | append_singleton later record ih =>
    obtain ⟨thread, entry⟩ := record
    rw [← List.append_assoc, replay_append, failureAsked_append]
    rcases ih with ⟨hfailed, hasked⟩ | ⟨hstill, hnone⟩
    · refine .inl ⟨?_, .inl hasked⟩
      rw [hfailed]
      cases entry with
      | requested current target => exact State.apply_decide_of_failed target
      | _ => rfl
    · rw [hstill]
      by_cases hentry : ∃ current, entry = .requested current .failed
      · obtain ⟨current, rfl⟩ := hentry
        exact .inl ⟨rfl, .inr ⟨_, List.mem_singleton_self _, current, rfl⟩⟩
      · push Not at hentry
        right
        constructor
        · cases entry with
          | requested current target =>
            have htarget : target ≠ .failed := fun h => hentry current (by rw [h])
            rw [Entry.apply, State.apply_decide_of_cancelled, if_neg htarget]
          | _ => rfl
        · rintro (hasked | ⟨record, hrecord, current, hsame⟩)
          · exact hnone hasked
          · obtain rfl := List.mem_singleton.mp hrecord
            exact hentry current hsame

end Replay

namespace System

variable {fragments : List Fragment} {host : Host} {system : System}

/-- How final a reported status is.  The terminal report is the only one, whatever happens
after it.  A fragment that was reported as failed or finished is in that state ever after.
One that was reported as cancelled is failed from the first failure that asks for its state
after the run has read it for the report, and cancelled as long as there is none. -/
theorem status_after_report (hreach : (ofFragments fragments host).Reachable system)
    (id : ExecutorId) {seen after : List Record} {thread : ThreadId} {call : Call}
    (hjournal : (system.executor id).journal = seen ++ ⟨thread, .entered call⟩ :: after)
    (hreport : call.isTerminalReport = true) :
    (system.executor id).terminalReports = [⟨thread, .entered call⟩] ∧
      ∃ before status gap, seen = before ++ ⟨thread, .concluded status⟩ :: gap ∧
        call.reported? = some status ∧
        (call ≠ .stateChanged .cancelled → (system.executor id).state = status) ∧
        (call = .stateChanged .cancelled →
          ((system.executor id).state = .failed ↔ FailureAsked (gap ++ after)) ∧
            ((system.executor id).state = .cancelled ↔ ¬ FailureAsked (gap ++ after))) := by
  have hunder := hreach.unrestricted
  obtain ⟨before, status, gap, rfl, hread, hreported, hstatus, hterminal⟩ :=
    hunder.conclusion_of_report hjournal hreport
  have hstate := hunder.state_eq_replay id
  rw [hread] at hstate
  refine ⟨hunder.terminalReports_eq (by simp [hjournal]) hreport, before, status, gap, rfl,
    hreported, ?_, ?_⟩
  · intro hcall
    rw [ne_eq, ← Call.reported?_eq_cancelled_iff, hreported, Option.some.injEq] at hcall
    rw [hstate]
    cases status with
    | failed => exact replay_of_failed _ hstatus.symm
    | finished => exact replay_of_finished _ hstatus.symm
    | cancelled => exact absurd rfl hcall
    | _ => cases hterminal
  · rintro rfl
    obtain rfl : .cancelled = status := Option.some.inj hreported
    have hlater := replay_of_cancelled (⟨thread, .concluded .cancelled⟩ ::
      (gap ++ ⟨thread, .entered (.stateChanged .cancelled)⟩ :: after)) hstatus.symm
    rw [← hstate, failureAsked_cons_of_not _ _ (by simp), failureAsked_append,
      failureAsked_cons_of_not _ _ (by simp), ← failureAsked_append] at hlater
    rcases hlater with ⟨hfailed, hasked⟩ | ⟨hstill, hnone⟩
    · simp [hfailed, hasked]
    · simp [hstill, hnone]

/-- A fragment that is cancelled before it runs, reported so, and failed by a sink after
that. -/
theorem exists_late_failure :
    ∃ system seen, (ofFragments [.vacant] { slots := { free := 0 } }).Reachable system ∧
      (system.executor 0).course = .ended 1 ∧ (system.executor 0).state = .failed ∧
      (system.executor 0).terminalReports = [⟨1, .entered (.stateChanged .cancelled)⟩] ∧
      (system.executor 0).journal = seen ++ ⟨1, .entered (.stateChanged .cancelled)⟩ ::
        [⟨1, .left (.stateChanged .cancelled) false⟩, ⟨2, .recorded (.message "late")⟩,
          ⟨2, .requested .cancelled .failed⟩] := by
  obtain ⟨system, hreach, hend⟩ := exists_of_moves
    (ofFragments [.vacant] { slots := { free := 0 } })
    (.call (.act 0 .cancel) :: List.replicate 18 (.step 0) ++
      .call (.act 0 .run) :: List.replicate 21 (.step 1) ++
      .call (.act 0 (.heldFail (.message "late"))) :: List.replicate 4 (.step 2))
    (fun system => ((system.executor 0).course, (system.executor 0).state,
      (system.executor 0).terminalReports, (system.executor 0).journal.drop 7))
    (.ended 1, .failed, [⟨1, .entered (.stateChanged .cancelled)⟩],
      [⟨1, .entered (.stateChanged .cancelled)⟩, ⟨1, .left (.stateChanged .cancelled) false⟩,
        ⟨2, .recorded (.message "late")⟩, ⟨2, .requested .cancelled .failed⟩]) rfl
  simp only [Prod.mk.injEq] at hend
  obtain ⟨hcourse, hstate, hreports, hlast⟩ := hend
  have hsplit := (List.take_append_drop 7 (system.executor 0).journal).symm
  rw [hlast] at hsplit
  exact ⟨system, _, hreach, hcourse, hstate, hreports, hsplit⟩

/-- A report may name a state that the fragment does not keep. -/
theorem failed_after_cancelled_report :
    ∃ system, (ofFragments [.vacant] { slots := { free := 0 } }).Reachable system ∧
      (system.executor 0).course = .ended 1 ∧ (system.executor 0).state = .failed ∧
      (system.executor 0).terminalReports = [⟨1, .entered (.stateChanged .cancelled)⟩] := by
  obtain ⟨system, seen, hreach, hcourse, hstate, hreports, -⟩ := exists_late_failure
  exact ⟨system, hreach, hcourse, hstate, hreports⟩

/-- The same run, seen from its report. -/
theorem status_after_report_of_late_failure :
    ∃ system seen after, (ofFragments [.vacant] { slots := { free := 0 } }).Reachable system ∧
      ((system.executor 0).journal =
          seen ++ ⟨1, .entered (.stateChanged .cancelled)⟩ :: after ∧
        (Call.stateChanged .cancelled).isTerminalReport = true) ∧
      (system.executor 0).state = .failed ∧ ∃ gap, gap <:+ seen ∧ FailureAsked (gap ++ after) := by
  obtain ⟨system, seen, hreach, -, hstate, -, hjournal⟩ := exists_late_failure
  obtain ⟨-, before, status, gap, hseen, -, -, hlate⟩ := status_after_report hreach 0 hjournal rfl
  refine ⟨system, seen, _, hreach, ⟨hjournal, rfl⟩, hstate, gap, ?_, (hlate rfl).1.mp hstate⟩
  rw [hseen, List.append_cons]
  exact List.suffix_append _ _

end System

end FragmentLifecycle
