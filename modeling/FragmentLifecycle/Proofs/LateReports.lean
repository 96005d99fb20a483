import FragmentLifecycle.Proofs.Calls
import FragmentLifecycle.Proofs.Notifications

/-!
# Reports after the terminal report

A state is told after the lock of the lifecycle is released.  So a thread whose request to
cancel was accepted may be overtaken, before it tells so, by a run that comes to its end
and reports it.  This is the only report that may come after the terminal one
(`System.reports_after_report`), and it may come (`System.cancellation_told_after_report`).
-/

namespace FragmentLifecycle

def Call.isReport : Call → Bool
  | .stateChanged _ | .fail _ => true
  | _ => false

def Entry.isReport : Entry → Bool
  | .entered call => call.isReport
  | _ => false

/-- All calls of the reporter, in order. -/
def reports (journal : List Record) : List Record :=
  journal.filter fun record => record.entry.isReport

theorem Call.terminal_or_notified {call : Call} (hreport : call.isReport = true) :
    call.isTerminalReport = true ∨ ∃ state, call.notified? = some state := by
  cases call with
  | stateChanged state =>
    cases state with
    | cancelled | finished => exact .inl rfl
    | _ => exact .inr ⟨_, rfl⟩
  | fail report => exact .inl rfl
  | _ => cases hreport

section Journals

variable {thread owner : ThreadId} {current status : State} {read rest : List Record}

/-- A request to cancel that was accepted, the last thing that its thread did, comes before
the reading of a terminal state. -/
theorem LastOf.before_conclusion
    (hfaithful : Faithful (read ++ ⟨thread, .concluded status⟩ :: rest))
    (hterminal : (replay read).isTerminal = true) (hcontinues : current.continues = true)
    (hlast : LastOf owner (.requested current .cancellationRequested)
      (read ++ ⟨thread, .concluded status⟩ :: rest)) :
    ∃ before wait,
      read = before ++ ⟨owner, .requested current .cancellationRequested⟩ :: wait ∧
        ∀ record ∈ wait ++ ⟨thread, .concluded status⟩ :: rest, record.thread ≠ owner := by
  obtain ⟨before, middle, hsplit, hmiddle⟩ := hlast
  rcases List.append_eq_append_iff.mp hsplit with ⟨between, rfl, -⟩ | ⟨wait, hread, hrest⟩
  · -- a request that came later would have found the terminal state
    have hcurrent := hfaithful _ _ _ hsplit current .cancellationRequested rfl
    rw [hcurrent, State.continues_of_isTerminal (isTerminal_replay_append between hterminal)]
      at hcontinues
    cases hcontinues
  · cases wait with
    | nil => cases hrest
    | cons request wait =>
      obtain ⟨rfl, rfl⟩ := List.cons.inj hrest
      exact ⟨before, wait, hread, hmiddle⟩

end Journals

namespace System

section LateReports

variable {fragments : List Fragment} {host : Host} {permitted : Command → Prop}
  {system : System} {id : ExecutorId}

/-- The reporter has returned from being told that a fragment runs when it is told how the
fragment ended. -/
theorem ReachableUnder.running_returned
    (hreach : (ofFragments fragments host).ReachableUnder permitted system) {thread : ThreadId}
    {call : Call} {point : CallPoint} (hmem : .call id call point ∈ system.frames thread)
    (hreport : call.isTerminalReport = true) :
    tally (Entry.isLeft (Call.tells .running)) (system.executor id).journal =
      tally (Entry.isEntered (Call.tells .running)) (system.executor id).journal := by
  refine hreach.calls_balanced fun owner told point hmem' => ?_
  by_contra htells
  rw [Bool.not_eq_false] at htells
  obtain rfl := Call.eq_of_tells htells
  have hnone := hreach.unconcluded_of_running_call hmem'
  obtain ⟨status, hreported⟩ := Call.exists_reported hreport
  obtain ⟨before, gap, hread⟩ : ∃ before gap, (system.executor id).journal =
      before ++ ⟨thread, .concluded status⟩ :: gap :=
    hreach.concluded_of_frame hmem (by simp [Frame.isCore]) hreported
  rw [hread, tally_split] at hnone
  simp [Entry.isConclusion] at hnone

/-- The last thing that a thread did before it tells of a cancellation is the request that
was accepted. -/
theorem ReachableUnder.request_of_cancellation
    (hreach : (ofFragments fragments host).ReachableUnder permitted system)
    {seen later : List Record} {thread : ThreadId}
    (hjournal : (system.executor id).journal =
      seen ++ ⟨thread, .entered (.stateChanged .cancellationRequested)⟩ :: later) :
    ∃ current, current.continues = true ∧
      LastOf thread (.requested current .cancellationRequested) seen := by
  obtain ⟨earlier, hearlier, rfl, hmem⟩ := hreach.entered hjournal
  obtain ⟨caller, entry, hannounced, -, hlast⟩ := hearlier.announcement hmem
  cases hannounced with
  | cancellation hcontinues => exact ⟨_, hcontinues, hlast⟩
  | status hreport => cases hreport

/-- What is reported after the terminal report is a cancellation, and it is the first one. -/
theorem ReachableUnder.cancellation_of_late
    (hreach : (ofFragments fragments host).ReachableUnder permitted system)
    {seen middle later : List Record} {thread : ThreadId} {call : Call} {record : Record}
    (hjournal : (system.executor id).journal =
      seen ++ ⟨thread, .entered call⟩ :: middle ++ record :: later)
    (hreport : call.isTerminalReport = true) (hlate : record.entry.isReport = true) :
    record.entry = .entered (.stateChanged .cancellationRequested) ∧
      .cancellationRequested ∉ notifications (seen ++ ⟨thread, .entered call⟩ :: middle) := by
  obtain ⟨owner, entry⟩ := record
  cases entry with
  | entered told =>
    rcases Call.terminal_or_notified hlate with hterminal | ⟨state, hnotified⟩
    · have hmost := hreach.report_le id
      rw [hjournal, tally_split, tally_split] at hmost
      simp only [Entry.isTerminalReport, hreport, hterminal, Bool.toNat_true] at hmost
      omega
    · obtain ⟨rfl, -⟩ := Call.eq_of_notified hnotified
      obtain ⟨rfl | rfl, hnew, -⟩ :=
        hreach.notificationsOrdered id _ _ _ hjournal _ state rfl hnotified
      · obtain ⟨earlier, hearlier, hseen, hmem⟩ := hreach.entered hjournal
        have hnone := hearlier.unconcluded_of_running_call hmem
        obtain ⟨before, status, gap, rfl, -⟩ :=
          hreach.conclusion_of_report (hjournal.trans (List.append_assoc _ _ _)) hreport
        simp [hseen, tally, Entry.isConclusion] at hnone
      · exact ⟨rfl, hnew⟩
  | _ => cases hlate

/-- A report that comes after the terminal one was overtaken by it. -/
theorem ReachableUnder.overtaken_of_late
    (hreach : (ofFragments fragments host).ReachableUnder permitted system)
    {seen middle later : List Record} {thread owner : ThreadId} {call : Call}
    (hjournal : (system.executor id).journal = seen ++ ⟨thread, .entered call⟩ :: middle ++
      ⟨owner, .entered (.stateChanged .cancellationRequested)⟩ :: later)
    (hreport : call.isTerminalReport = true) :
    call ≠ .stateChanged .finished ∧ ∃ before current status gap,
      seen = before ++ ⟨owner, .requested current .cancellationRequested⟩ :: gap ∧
        current.continues = true ∧ ⟨thread, .concluded status⟩ ∈ gap ∧
        ∀ record ∈ gap ++ ⟨thread, .entered call⟩ :: middle, record.thread ≠ owner := by
  obtain ⟨current, hcontinues, hlast⟩ := hreach.request_of_cancellation hjournal
  obtain ⟨read, status, gap, rfl, -, hreported, hstatus, hterminal⟩ :=
    hreach.conclusion_of_report (hjournal.trans (List.append_assoc _ _ _)) hreport
  have hfaithful := (hreach.faithful id).earlier (hjournal ▸ List.prefix_append _ _)
  simp only [List.append_assoc, List.cons_append] at hfaithful hlast
  obtain ⟨before, wait, rfl, hothers⟩ :=
    hlast.before_conclusion hfaithful (hstatus ▸ hterminal) hcontinues
  refine ⟨?_, before, current, status, wait ++ ⟨thread, .concluded status⟩ :: gap, by simp,
    hcontinues, by simp, by simpa using hothers⟩
  rintro rfl
  obtain rfl : .finished = status := Option.some.inj hreported
  have htook : CancellationTook
      (before ++ ⟨owner, .requested current .cancellationRequested⟩ :: wait) := by
    refine ⟨_, List.mem_append_right _ List.mem_cons_self, current, rfl, ?_⟩
    rw [← State.announces_cancellationRequested] at hcontinues
    exact of_decide_eq_true hcontinues
  have hcancelled := replay_of_cancellationTook
    (hfaithful.earlier (List.prefix_append _ _)) htook
  simp [← hstatus] at hcancelled

end LateReports

variable {fragments : List Fragment} {host : Host} {system : System}

/-- What the reporter is told after the terminal report.  By then it has been told that the
fragment runs, if it ever is, and has returned.  One report at most comes later: that the
cancellation was asked for, told by another thread, whose request was accepted before the
run read the state for its report and which has recorded nothing since.  It is the first
of its kind, and a finished fragment has none. -/
theorem reports_after_report (hreach : (ofFragments fragments host).Reachable system)
    (id : ExecutorId) {seen after : List Record} {thread : ThreadId} {call : Call}
    (hjournal : (system.executor id).journal = seen ++ ⟨thread, .entered call⟩ :: after)
    (hreport : call.isTerminalReport = true) :
    tally (Entry.isLeft (Call.tells .running)) seen =
        tally (Entry.isEntered (Call.tells .running)) seen ∧
      (reports after = [] ∨
        ∃ owner middle later,
          after = middle ++ ⟨owner, .entered (.stateChanged .cancellationRequested)⟩ :: later ∧
          reports after = [⟨owner, .entered (.stateChanged .cancellationRequested)⟩] ∧
          call ≠ .stateChanged .finished ∧ .cancellationRequested ∉ notifications seen ∧
          ∃ before current status gap,
            seen = before ++ ⟨owner, .requested current .cancellationRequested⟩ :: gap ∧
            current.continues = true ∧ ⟨thread, .concluded status⟩ ∈ gap ∧
            ∀ record ∈ gap ++ ⟨thread, .entered call⟩ :: middle, record.thread ≠ owner) := by
  have hunder := hreach.unrestricted
  have hreturned : tally (Entry.isLeft (Call.tells .running)) seen =
      tally (Entry.isEntered (Call.tells .running)) seen := by
    obtain ⟨earlier, hearlier, rfl, hmem⟩ := hunder.entered hjournal
    exact hearlier.running_returned hmem hreport
  refine ⟨hreturned, ?_⟩
  cases hreports : reports after with
  | nil => exact .inl rfl
  | cons first others =>
    right
    obtain ⟨middle, later, rfl, -, hfirst, hothers⟩ := List.filter_eq_cons_iff.mp hreports
    have hread : (system.executor id).journal =
        seen ++ ⟨thread, .entered call⟩ :: middle ++ first :: later := by simp [hjournal]
    obtain ⟨hentry, hnew⟩ := hunder.cancellation_of_late hread hreport hfirst
    obtain ⟨owner, entry⟩ := first
    obtain rfl : entry = _ := hentry
    obtain ⟨hcall, hovertaken⟩ := hunder.overtaken_of_late hread hreport
    refine ⟨owner, middle, later, rfl, ?_, hcall, fun hmem => hnew ?_, hovertaken⟩
    · cases others with
      | nil => rfl
      | cons second rest =>
        -- the second one would be told twice
        obtain ⟨between, last, rfl, -, hsecond, -⟩ := List.filter_eq_cons_iff.mp hothers
        have hread : (system.executor id).journal = seen ++ ⟨thread, .entered call⟩ ::
            (middle ++ ⟨owner, .entered (.stateChanged .cancellationRequested)⟩ :: between) ++
              second :: last := by simp [hjournal]
        obtain ⟨-, hnone⟩ := hunder.cancellation_of_late hread hreport hsecond
        refine (hnone (List.mem_filterMap.mpr
          ⟨⟨owner, .entered (.stateChanged .cancellationRequested)⟩, ?_, rfl⟩)).elim
        simp
    · rw [notifications, List.filterMap_append]
      exact List.mem_append_left _ hmem

/-- A run that is cancelled, and comes to its end and is reported before the thread that
cancels it tells so. -/
theorem exists_overtaken_cancellation :
    ∃ system seen, (ofFragments [.vacant] { slots := { free := 0 } }).ReachableUnder
        (fun command => command = .act 0 .run ∨ command = .act 0 .cancel) system ∧
      (system.executor 0).journal = seen ++ ⟨0, .entered (.stateChanged .cancelled)⟩ ::
        [⟨0, .left (.stateChanged .cancelled) false⟩,
          ⟨1, .entered (.stateChanged .cancellationRequested)⟩] ∧
      reports seen = [⟨0, .entered (.stateChanged .running)⟩] := by
  obtain ⟨system, hreach, hend⟩ := exists_reachable_of_moves
    (fun command => command = .act 0 .run ∨ command = .act 0 .cancel)
    (ofFragments [.vacant] { slots := { free := 0 } })
    (.call (.act 0 .run) :: List.replicate 20 (.step 0) ++
      .call (.act 0 .cancel) :: List.replicate 5 (.step 1) ++
      List.replicate 25 (.step 0) ++ [.step 1])
    (by simp [Move.Permitted])
    (fun system => (reports ((system.executor 0).journal.take 14),
      (system.executor 0).journal.drop 14))
    ([⟨0, .entered (.stateChanged .running)⟩],
      [⟨0, .entered (.stateChanged .cancelled)⟩, ⟨0, .left (.stateChanged .cancelled) false⟩,
        ⟨1, .entered (.stateChanged .cancellationRequested)⟩]) rfl
  obtain ⟨hseen, hlast⟩ := Prod.mk.inj hend
  have hsplit := (List.take_append_drop 14 (system.executor 0).journal).symm
  rw [hlast] at hsplit
  exact ⟨system, _, hreach, hsplit, hseen⟩

/-- One run and one cancellation are enough: the terminal report need not be the last call
that the reporter gets. -/
theorem cancellation_told_after_report :
    ∃ system, (ofFragments [.vacant] { slots := { free := 0 } }).ReachableUnder
        (fun command => command = .act 0 .run ∨ command = .act 0 .cancel) system ∧
      reports (system.executor 0).journal = [⟨0, .entered (.stateChanged .running)⟩,
        ⟨0, .entered (.stateChanged .cancelled)⟩,
        ⟨1, .entered (.stateChanged .cancellationRequested)⟩] := by
  obtain ⟨system, seen, hreach, hjournal, hseen⟩ := exists_overtaken_cancellation
  refine ⟨system, hreach, ?_⟩
  rw [hjournal, reports, List.filter_append, ← reports, hseen]
  rfl

/-- The same run, seen from its report. -/
theorem reports_after_report_of_overtaken_cancellation :
    ∃ system seen after, (ofFragments [.vacant] { slots := { free := 0 } }).Reachable system ∧
      ((system.executor 0).journal =
          seen ++ ⟨0, .entered (.stateChanged .cancelled)⟩ :: after ∧
        (Call.stateChanged .cancelled).isTerminalReport = true) ∧
      reports after = [⟨1, .entered (.stateChanged .cancellationRequested)⟩] ∧
      .cancellationRequested ∉ notifications seen := by
  obtain ⟨system, seen, hreach, hjournal, -⟩ := exists_overtaken_cancellation
  obtain ⟨-, hnone | ⟨owner, middle, later, -, -, -, hnew, -⟩⟩ :=
    reports_after_report hreach.reachable 0 hjournal rfl
  · cases hnone
  · exact ⟨system, seen, _, hreach.reachable, ⟨hjournal, rfl⟩, rfl, hnew⟩

end System

end FragmentLifecycle
