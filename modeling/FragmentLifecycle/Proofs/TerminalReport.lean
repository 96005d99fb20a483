import FragmentLifecycle.Proofs.Journal
import FragmentLifecycle.Proofs.Settlement

/-!
# The terminal report

A terminal report is due from the beginning of a run until the reporter is entered for
it.  Reports made and reports due add up to one from the moment a run begins, so that
there is never a second report, and there is one when the run has ended.
-/

namespace FragmentLifecycle

/-- A report of how a fragment ended. -/
def Call.isTerminalReport : Call → Bool
  | .fail _ | .stateChanged .cancelled | .stateChanged .finished => true
  | _ => false

def Entry.isTerminalReport : Entry → Bool
  | .entered call => call.isTerminalReport
  | _ => false

namespace Executor

/-- The terminal reports that were made, with the threads that made them. -/
def terminalReports (executor : Executor) : List Record :=
  executor.journal.filter fun record => record.entry.isTerminalReport

theorem length_terminalReports (executor : Executor) :
    executor.terminalReports.length = tally Entry.isTerminalReport executor.journal :=
  List.countP_eq_length_filter.symm

end Executor

/-- Weighs the frames that a terminal report is due from: a run on its way to the
report, and a report whose call is yet to be entered. -/
def Frame.reportDue : Frame → Nat
  | .run _ _ .start | .run _ _ .reporting | .run _ _ .retire => 0
  | .run _ _ _ => 1
  | .call _ target .enter => target.isTerminalReport.toNat
  | _ => 0

/-- A report that is due is lost where the run unwinds. -/
def Course.spared : Course → Nat
  | .notStarted | .unwound _ => 1
  | _ => 0

/-- The calls on the context, on the reporter and on the handler of an exhausted heap. -/
def Call.isTrusted : Call → Bool
  | .closeContext | .stateChanged _ | .fail _ | .exhausted _ => true
  | _ => false

/-- The end of a call that was to return, by a panic. -/
def Entry.isBreach : Entry → Bool
  | .left call unwound => call.isTrusted && unwound
  | _ => false

/-- The frames that let a panic of a trusted call pass. -/
def Frame.passesPanic : Frame → Bool
  | .run _ _ (.alarming _) | .run _ _ .closing | .run _ _ .reporting
  | .closeResources _ .closingContext | .cancel _ .closing => true
  | _ => false

section Transitions

variable {view : LockView} {thread : ThreadId} {id : ExecutorId} {frame : Frame}
  {signal : Signal} {executor executor' : Executor} {next : Next}

theorem Lifecycle.isEmpty_of_drain {lifecycle : Lifecycle} (hdrain : lifecycle.drain.1 = none) :
    lifecycle.failures.isEmpty = true := by
  simp only [Lifecycle.drain, Collector.drain] at hdrain
  split at hdrain
  · rename_i hpending
    simp [Collector.isEmpty, hpending]
  · cases hdrain

theorem State.isTerminalReport_of_isTerminal {state : State} (hterminal : state.isTerminal = true)
    (hfailed : state ≠ .failed) : (Call.stateChanged state).isTerminalReport = true := by
  cases state <;> first | rfl | exact absurd rfl hfailed | cases hterminal

/-- Reports made and due never become more, but where a run begins. -/
theorem Transition.report_le
    (htransition : Transition view thread id frame signal executor next executor')
    (hcore : frame.isCore id = true) :
    tally Entry.isTerminalReport executor'.journal + executor'.course.fresh +
      (next.frames.map (within id Frame.reportDue)).sum ≤
        tally Entry.isTerminalReport executor.journal + executor.course.fresh +
          frame.reportDue := by
  cases htransition
  case aside houtside _ _ => simp [houtside] at hcore
  case runBegins hnew => simp [hnew, Frame.reportDue, Course.fresh]
  case callProceeds hpoints hsame hjournal =>
    rw [hjournal, hsame.course]
    cases hpoints <;> simp [Frame.reportDue]
  case concludes => simp [Frame.reportDue, Entry.isTerminalReport, Bool.toNat_le]
  all_goals simp [Frame.reportDue, Entry.isTerminalReport]
  case callEntered | contextEntered => omega
  case alarmUnwinds | closingUnwinds | reportUnwinds | retires =>
    simp only [Course.fresh]
    omega
  all_goals simp [Call.isTerminalReport]

/-- Reports made and due never become fewer, but where a run unwinds. -/
theorem Transition.le_report
    (htransition : Transition view thread id frame signal executor next executor')
    (hcore : frame.isCore id = true) (hlive : executor.course.idle + frame.live ≤ 1)
    (hsettled : ∀ l point, frame = .run id l point → executor.SettledAt point) {others : Nat}
    (hdue : 1 ≤ tally Entry.isTerminalReport executor.journal + executor.course.spared +
      frame.reportDue + others) :
    1 ≤ tally Entry.isTerminalReport executor'.journal + executor'.course.spared +
      (next.frames.map (within id Frame.reportDue)).sum + others := by
  cases htransition
  case aside houtside _ _ => simp [houtside] at hcore
  case callProceeds hpoints hsame hjournal =>
    rw [hjournal, hsame.course]
    cases hpoints
    all_goals simpa [Frame.reportDue] using hdue
  case concludes hstate =>
    have hreport := State.isTerminalReport_of_isTerminal ((hsettled _ _ rfl).terminal rfl) hstate
    simp only [Next.frames_call, List.map_cons, List.map_nil, List.sum_cons, within_call,
      Frame.reportDue, hreport, Bool.toNat_true]
    omega
  case drains =>
    simp [Frame.reportDue, Call.isTerminalReport]
    omega
  case drainsNothing hcauses =>
    have hempty := Lifecycle.isEmpty_of_drain hcauses
    rw [(hsettled _ _ rfl).cause rfl] at hempty
    cases hempty
  case retires =>
    have hidle : executor.course.idle = 0 := by
      simp [Frame.live] at hlive
      exact hlive
    have hspared : executor.course.spared = 0 := by
      cases hcourse : executor.course with
      | underWay => rfl
      | notStarted | ended | unwound => simp [hcourse, Course.idle] at hidle
    simp only [hspared, Frame.reportDue] at hdue
    simp only [Next.frames_done, List.map_nil, List.sum_nil]
    omega
  case alarmUnwinds | closingUnwinds | reportUnwinds =>
    simp only [Course.spared]
    omega
  all_goals
    simp [Frame.reportDue, Entry.isTerminalReport] at hdue ⊢
    try omega

theorem Transition.breach_of_raised {call : Call} {point : CallPoint} {payload : Payload}
    (htransition : Transition view thread id (.call id call point) signal executor next executor')
    (htrusted : call.isTrusted = true) (hraised : next.signal = .raised payload) :
    0 < tally Entry.isBreach executor'.journal := by
  cases htransition with
  | callPanics | callUnwinds => simp [Entry.isBreach, htrusted]
  | aside houtside => simp [Frame.isCore] at houtside
  | _ => cases hraised

theorem Transition.closing_of_raised {point : ClosePoint} {payload : Payload}
    (htransition :
      Transition view thread id (.closeResources id point) signal executor next executor')
    (hraised : next.signal = .raised payload) :
    point = .closingContext ∧ (∃ reason, signal = .raised reason) ∧ executor' = executor := by
  cases htransition with
  | closeUnwinds => exact ⟨rfl, ⟨_, rfl⟩, rfl⟩
  | aside houtside => simp [Frame.isCore] at houtside
  | _ => cases hraised

theorem Transition.course_of_unwound {owner : ThreadId}
    (htransition : Transition view thread id frame signal executor next executor')
    (hunwound : executor'.course = .unwound owner) :
    executor.course = .unwound owner ∨
      (frame.isCore id = true ∧ frame.passesPanic = true ∧
        ∃ payload, signal = .raised payload) := by
  cases htransition
  case aside hsame => exact .inl (hsame.course ▸ hunwound)
  case callProceeds hsame _ => exact .inl (hsame.course ▸ hunwound)
  case runBegins | retires => cases hunwound
  case alarmUnwinds | closingUnwinds | reportUnwinds =>
    exact .inr ⟨by simp [Frame.isCore], rfl, _, rfl⟩
  all_goals exact .inl hunwound

end Transitions

namespace System

section Reports

variable {fragments : List Fragment} {host : Host} {permitted : Command → Prop}
  {system : System} {id : ExecutorId}

theorem ReachableUnder.report_le
    (hreach : (ofFragments fragments host).ReachableUnder permitted system) (id : ExecutorId) :
    tally Entry.isTerminalReport (system.executor id).journal +
      (system.executor id).course.fresh + system.total (within id Frame.reportDue) ≤ 1 := by
  refine hreach.once id _ Frame.reportDue (fun _ => rfl) ?_ fun htransition hcore =>
    htransition.report_le hcore
  rintro frame ⟨⟩ <;> rfl

theorem ReachableUnder.le_report
    (hreach : (ofFragments fragments host).ReachableUnder permitted system) (id : ExecutorId) :
    1 ≤ tally Entry.isTerminalReport (system.executor id).journal +
      (system.executor id).course.spared + system.total (within id Frame.reportDue) := by
  refine hreach.summed_within id
    (fun executor => tally Entry.isTerminalReport executor.journal + executor.course.spared)
    Frame.reportDue (1 ≤ ·)
    (fun _ frame executor => executor.course.idle + within id Frame.live frame ≤ 1 ∧
      ∀ l point, frame = .run id l point → executor.SettledAt point) ?_ ?_ ?_
    (fun _ => Nat.le_refl 1) ?_
  · intro system after thread frame rest next hreach hadvance
    have htop : frame ∈ system.frames thread := hadvance.frames ▸ List.mem_cons_self
    constructor
    · have hlive := weight_le_total (within id Frame.live) htop
      have htotal := hreach.live_total id
      omega
    · rintro l point rfl
      exact hreach.settled htop
  · rintro frame ⟨⟩ <;> rfl
  · intro thread executor executor' hsame
    rw [hsame.tally_eq fun _ => rfl, hsame.course]
  · rintro view thread frame signal executor next executor' ⟨hlive, hsettled⟩ hcore htransition
      others hdue
    rw [within, if_pos hcore] at hlive
    exact htransition.le_report hcore hlive hsettled hdue

/-- A terminal report is made for a run that waits for it. -/
theorem ReachableUnder.reporting_of_terminal
    (hreach : (ofFragments fragments host).ReachableUnder permitted system)
    {thread : ThreadId} {call : Call} {point : CallPoint}
    (hmem : .call id call point ∈ system.frames thread) (hcall : call.isTerminalReport = true) :
    ∃ l, .run id l .reporting ∈ (system.frames thread).tail := by
  obtain ⟨caller, hcaller, hawaits⟩ := (hreach.linked thread).exists_caller hmem rfl
  simp only [Frame.role] at hawaits
  cases hawaits with
  | stateReport | failureReport => exact ⟨_, hcaller⟩
  | entry hentry =>
    rw [(Action.entry?_eq_call hentry).2.2] at hcall
    cases hcall
  | _ => cases hcall

theorem ReachableUnder.report_of_ended
    (hreach : (ofFragments fragments host).ReachableUnder permitted system)
    {thread : ThreadId} (hended : (system.executor id).course = .ended thread) :
    tally Entry.isTerminalReport (system.executor id).journal = 1 := by
  have hmost := hreach.report_le id
  have hleast := hreach.le_report id
  -- no run is live any more, so nothing is due
  have hlive {owner : ThreadId} {l : Option ListenerId} {point : RunPoint}
      (hmem : .run id l point ∈ system.frames owner) : point = .start := by
    by_contra hpoint
    rw [hreach.course_of_run hmem hpoint] at hended
    cases hended
  have hdue : system.total (within id Frame.reportDue) = 0 := by
    refine total_eq_zero _ fun owner frame hmem => ?_
    by_cases hcore : frame.isCore id = true
    · rw [within, if_pos hcore]
      cases frame with
      | run other l point =>
        obtain rfl : other = id := by simpa [Frame.isCore] using hcore
        rw [hlive hmem]
        rfl
      | call other target point =>
        obtain rfl : other = id := by simpa [Frame.isCore] using hcore
        by_cases htarget : target.isTerminalReport = true
        · obtain ⟨l, hcaller⟩ := hreach.reporting_of_terminal hmem htarget
          cases hlive (List.mem_of_mem_tail hcaller)
        · cases point <;> simp [Frame.reportDue, htarget]
      | _ => rfl
    · exact within_outside id _ (by simpa using hcore)
  simp only [hended, Course.fresh, Course.spared, hdue] at hmost hleast
  omega

/-- A terminal report that was made is the only one. -/
theorem ReachableUnder.terminalReports_eq
    (hreach : (ofFragments fragments host).ReachableUnder permitted system) {record : Record}
    (hmem : record ∈ (system.executor id).journal)
    (hreport : record.entry.isTerminalReport = true) :
    (system.executor id).terminalReports = [record] := by
  have hmost := hreach.report_le id
  have hfound : record ∈ (system.executor id).terminalReports :=
    List.mem_filter.mpr ⟨hmem, hreport⟩
  have hone : (system.executor id).terminalReports.length = 1 := by
    have hleast := List.length_pos_of_mem hfound
    rw [Executor.length_terminalReports] at hleast ⊢
    omega
  obtain ⟨only, honly⟩ := List.length_eq_one_iff.mp hone
  rw [honly, List.mem_singleton] at hfound
  rw [honly, hfound]

/-- Every terminal report was made on the thread of the run. -/
theorem ReachableUnder.thread_of_report
    (hreach : (ofFragments fragments host).ReachableUnder permitted system) (id : ExecutorId) :
    ∀ record ∈ (system.executor id).journal, record.entry.isTerminalReport = true →
      (system.executor id).course.thread? = some record.thread := by
  refine hreach.always id (fun executor => ∀ record ∈ executor.journal,
    record.entry.isTerminalReport = true → executor.course.thread? = some record.thread) ?_ ?_
  · intro fragment record hmem
    cases hmem
  · intro system after thread frame rest next hreach hadvance htransition hreports record hmem
      hreport
    refine hadvance.thread_of_course hreach ?_
    rcases htransition.journal_cases with hsame | ⟨entry, hentry, hlonger⟩
    · exact hreports record (hsame ▸ hmem) hreport
    · rw [hlonger, List.mem_append, List.mem_singleton] at hmem
      rcases hmem with hmem | rfl
      · exact hreports record hmem hreport
      · cases hentry with
        | entered =>
          have htop := hadvance.frames ▸ List.mem_cons_self
          obtain ⟨l, hrun⟩ := hreach.reporting_of_terminal htop hreport
          rw [hreach.course_of_run (List.mem_of_mem_tail hrun) (by simp)]
          rfl
        | _ => cases hreport

/-- A frame that lets a panic pass got it from a trusted call. -/
theorem ReachableUnder.breach_of_raised
    (hreach : (ofFragments fragments host).ReachableUnder permitted system)
    {thread : ThreadId} {caller : Frame} {rest : List Frame} {payload : Payload}
    (hframes : system.frames thread = caller :: rest)
    (hsignal : system.signal thread = .raised payload) (hcore : caller.isCore id = true)
    (hpasses : caller.passesPanic = true) :
    0 < tally Entry.isBreach (system.executor id).journal := by
  refine hreach.on_return id (fun executor _ caller signal => caller.isCore id = true →
    caller.passesPanic = true → ∀ payload, signal = .raised payload →
      0 < tally Entry.isBreach executor.journal) ?_ ?_ hframes (by simp [hsignal]) hcore hpasses
    payload hsignal
  · intro system after thread frame caller rest next hreach hadvance htransition hawaits hnext
      hbefore hcore hpasses payload hraised
    have htop : frame.isCore id = true → frame.passesPanic = true → ∀ payload,
        system.signal thread = .raised payload →
          0 < tally Entry.isBreach (system.executor id).journal := by
      intro hcore hpasses payload hraised
      exact hbefore (by simp [hraised]) hcore hpasses payload hraised
    generalize hrole : frame.role = role at hawaits
    cases hawaits with
    | alarm | stateReport | failureReport | closeContext =>
      obtain rfl : _ = id := by simpa [Frame.isCore] using hcore
      obtain ⟨point, rfl⟩ := Frame.eq_call_of_role hrole
      exact htransition.breach_of_raised (by rfl) hraised
    | close | cancelClose =>
      obtain rfl : _ = id := by simpa [Frame.isCore] using hcore
      obtain ⟨point, rfl⟩ := Frame.eq_closeResources_of_role hrole
      obtain ⟨rfl, ⟨reason, hsignal⟩, hsame⟩ := htransition.closing_of_raised hraised
      rw [hsame]
      exact htop (by simp [Frame.isCore]) rfl reason hsignal
    | _ => cases hpasses
  · intro system after thread frame rest next hreach hadvance htransition owner caller signal
      _ _ hholds hcore hpasses payload hraised
    exact Nat.lt_of_lt_of_le (hholds hcore hpasses payload hraised)
      (tally_mono _ _ htransition.grows.journal)

/-- A run unwinds only where a trusted call has panicked. -/
theorem ReachableUnder.breach_of_unwound
    (hreach : (ofFragments fragments host).ReachableUnder permitted system)
    {thread : ThreadId} (hunwound : (system.executor id).course = .unwound thread) :
    0 < tally Entry.isBreach (system.executor id).journal := by
  refine hreach.always id (fun executor => ∀ thread, executor.course = .unwound thread →
    0 < tally Entry.isBreach executor.journal) ?_ ?_ thread hunwound
  · rintro fragment thread ⟨⟩
  · intro system after thread frame rest next hreach hadvance htransition hbreach owner hunwound
    refine Nat.lt_of_lt_of_le ?_ (tally_mono _ _ htransition.grows.journal)
    rcases htransition.course_of_unwound hunwound with hbefore | ⟨hcore, hpasses, payload, hraised⟩
    · exact hbreach owner hbefore
    · exact hreach.breach_of_raised hadvance.frames hraised hcore hpasses

/-- The state that the final report is about is terminal. -/
theorem ReachableUnder.terminal_of_concluded
    (hreach : (ofFragments fragments host).ReachableUnder permitted system) (id : ExecutorId) :
    Consistent (fun _ record => ∀ state, record.entry = .concluded state →
      state.isTerminal = true) (system.executor id).journal := by
  refine hreach.consistent id _ fun {system after thread frame rest next} hreach hadvance entry
    hwrites state hstate => ?_
  cases hwrites with
  | concluded =>
    obtain rfl := Entry.concluded.inj hstate
    exact (hreach.settled (hadvance.frames ▸ List.mem_cons_self)).terminal rfl
  | _ => cases hstate

/-- Only a step of the live run's report adds a terminal report. -/
theorem ReachableUnder.step_of_report
    (hreach : (ofFragments fragments host).ReachableUnder permitted system) {after : System}
    {move : Move} (hmove : system.move move = some after)
    (hreports : (after.executor id).terminalReports ≠ (system.executor id).terminalReports) :
    ∃ thread l, move = .step thread ∧ .run id l .reporting ∈ system.frames thread := by
  have hsame (hexecutors : after.world.executors = system.world.executors) :
      ∃ thread l, move = .step thread ∧ .run id l .reporting ∈ system.frames thread := by
    rw [System.executor, hexecutors] at hreports
    exact absurd rfl hreports
  cases move with
  | call command =>
    obtain rfl := Option.some.inj hmove
    exact hsame rfl
  | abandon thread =>
    obtain ⟨root, hturn, -⟩ := turnover_of_abandon hmove
    exact hsame hturn.executors
  | step thread =>
    obtain ⟨frame, rest, next, hadvance⟩ := advance_of_step hmove
    rcases (Frame.step_transition id hadvance.step).journal_cases with
      hjournal | ⟨entry, hwrites, hjournal⟩
    · rw [Executor.terminalReports, System.executor, hjournal] at hreports
      exact absurd rfl hreports
    · by_cases hentry : entry.isTerminalReport = true
      · cases hwrites with
        | entered =>
          have htop := hadvance.frames ▸ List.mem_cons_self
          obtain ⟨l, hrun⟩ := hreach.reporting_of_terminal htop hentry
          exact ⟨thread, l, rfl, List.mem_of_mem_tail hrun⟩
        | _ => cases hentry
      · rw [Executor.terminalReports, System.executor, hjournal] at hreports
        simp [List.filter_append, hentry, Executor.terminalReports, System.executor] at hreports

end Reports

variable {fragments : List Fragment} {host : Host} {system : System}

/-- The terminal report is made exactly once, by the one run that won the right to drive
the fragment.  Whatever the collaborators do, in whatever order threads run, cancel, fail
and pause the fragment: there is never a second terminal report, every report was made on
the thread of that run and by a step of its last section, and the state that this section
reads is terminal.  When the run has returned, exactly one report has been made.  Where
the context, the reporter and the handler of an exhausted heap have always returned, the
run has not ended otherwise. -/
theorem terminal_report_once (hreach : (ofFragments fragments host).Reachable system)
    (id : ExecutorId) :
    (system.executor id).terminalReports.length ≤ 1 ∧
      (∀ record ∈ (system.executor id).terminalReports,
        (system.executor id).course.thread? = some record.thread) ∧
      (∀ move after, system.move move = some after →
        (after.executor id).terminalReports ≠ (system.executor id).terminalReports →
        ∃ thread l, move = .step thread ∧ .run id l .reporting ∈ system.frames thread ∧
          (system.executor id).course = .underWay thread) ∧
      (∀ thread l, .run id l .conclude ∈ system.frames thread →
        (system.executor id).state.isTerminal = true) ∧
      (∀ record ∈ (system.executor id).journal, ∀ state,
        record.entry = .concluded state → state.isTerminal = true) ∧
      (∀ thread, (system.executor id).course = .ended thread →
        (system.executor id).terminalReports.length = 1) ∧
      ((∀ record ∈ (system.executor id).journal, ∀ call, call.isTrusted = true →
        record.entry ≠ .left call true) →
        ∀ thread, (system.executor id).course ≠ .unwound thread) := by
  have hunder := hreach.unrestricted
  refine ⟨?_, ?_, ?_, ?_, ?_, ?_, ?_⟩
  · have hmost := hunder.report_le id
    rw [Executor.length_terminalReports]
    omega
  · intro record hmem
    obtain ⟨hjournal, hreport⟩ := List.mem_filter.mp hmem
    exact hunder.thread_of_report id record hjournal hreport
  · intro move after hmove hreports
    obtain ⟨thread, l, hstep, hrun⟩ := hunder.step_of_report hmove hreports
    exact ⟨thread, l, hstep, hrun, hunder.course_of_run hrun (by simp)⟩
  · intro thread l hrun
    exact (hunder.settled hrun).terminal rfl
  · intro record hmem
    obtain ⟨before, after, hsplit⟩ := List.append_of_mem hmem
    exact hunder.terminal_of_concluded id before record after hsplit
  · intro thread hended
    rw [Executor.length_terminalReports]
    exact hunder.report_of_ended hended
  · intro htrusted thread hunwound
    obtain ⟨record, hmem, hbreach⟩ := tally_pos_iff _ _ |>.mp (hunder.breach_of_unwound hunwound)
    cases hentry : record.entry with
    | left call unwound =>
      simp only [hentry, Entry.isBreach, Bool.and_eq_true] at hbreach
      refine htrusted record hmem call hbreach.1 ?_
      rw [hentry, hbreach.2]
    | _ => simp [hentry, Entry.isBreach] at hbreach

/-- A run on one thread that another thread cancels between two advances. -/
theorem terminal_report_once_of_cancelled_run :
    ∃ system, (ofFragments [.vacant] { slots := { free := 0 } }).Reachable system ∧
      ((system.executor 0).course = .ended 0 ∧ (system.executor 0).state = .cancelled) ∧
      (system.executor 0).terminalReports.length = 1 := by
  obtain ⟨system, hreach, hend⟩ := exists_reachable_of_moves (fun _ => True)
    (ofFragments [.vacant] { slots := { free := 0 } })
    (.call (.act 0 .run) :: List.replicate 20 (.step 0) ++ .call (.act 0 .cancel) ::
      List.replicate 10 (.step 1) ++ List.replicate 25 (.step 0))
    (fun move _ => by cases move <;> trivial)
    (fun system => ((system.executor 0).course, (system.executor 0).state))
    (.ended 0, .cancelled) rfl
  obtain ⟨hcourse, hstate⟩ := Prod.mk.inj hend
  have hreport := (terminal_report_once hreach.reachable 0).2.2.2.2.2.1 0 hcourse
  exact ⟨system, hreach.reachable, ⟨hcourse, hstate⟩, hreport⟩

end System

end FragmentLifecycle
