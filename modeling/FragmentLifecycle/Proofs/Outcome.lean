import FragmentLifecycle.Proofs.Calls
import FragmentLifecycle.Proofs.Closing
import FragmentLifecycle.Proofs.Replay
import FragmentLifecycle.Proofs.TerminalReport

/-!
# The reading behind a report

The last section of a run reads the state once and reports what it read, which is the
replay of the journal up to there (`System.ReachableUnder.conclusion_of_report`).
-/

namespace FragmentLifecycle

/-- The state that a terminal report tells. -/
def Call.reported? : Call → Option State
  | .fail _ => some .failed
  | .stateChanged .cancelled => some .cancelled
  | .stateChanged .finished => some .finished
  | _ => none

/-- The state that the frames of a terminal report are about. -/
def Frame.concluded? : Frame → Option State
  | .run _ _ .ensureCause | .run _ _ .drain => some .failed
  | .call _ target _ => target.reported?
  | _ => none

section Reported

variable {call : Call}

theorem Call.exists_reported (hreport : call.isTerminalReport = true) :
    ∃ state, call.reported? = some state := by
  cases call with
  | fail => exact ⟨_, rfl⟩
  | stateChanged state => cases state <;> first | exact ⟨_, rfl⟩ | cases hreport
  | _ => cases hreport

theorem Call.reported?_eq_failed_iff :
    call.reported? = some .failed ↔ ∃ report, call = .fail report := by
  cases call with
  | fail report => simp [reported?]
  | stateChanged state => cases state <;> simp [reported?]
  | _ => simp [reported?]

theorem Call.reported?_eq_cancelled_iff :
    call.reported? = some .cancelled ↔ call = .stateChanged .cancelled := by
  cases call with
  | stateChanged state => cases state <;> simp [reported?]
  | _ => simp [reported?]

theorem Call.reported?_eq_finished_iff :
    call.reported? = some .finished ↔ call = .stateChanged .finished := by
  cases call with
  | stateChanged state => cases state <;> simp [reported?]
  | _ => simp [reported?]

end Reported

/-- The frames that a final report is still to be concluded by. -/
def Frame.conclusionDue : Frame → Nat
  | .run _ _ point =>
      match point with
      | .start | .ensureCause | .drain | .reporting | .retire => 0
      | _ => 1
  | _ => 0

def Entry.isConclusion : Entry → Bool
  | .concluded _ => true
  | _ => false

theorem Transition.concluded_pushed {view : LockView} {thread : ThreadId} {id : ExecutorId}
    {frame : Frame} {signal : Signal} {executor executor' : Executor} {next : Next}
    (htransition : Transition view thread id frame signal executor next executor')
    (hcore : frame.isCore id = true) {pushed : Frame} (hpushed : pushed ∈ next.frames)
    {state : State} (hstate : pushed.concluded? = some state) :
    frame.concluded? = some state ∨
      executor'.journal = executor.journal ++ [⟨thread, .concluded state⟩] := by
  cases htransition
  case aside houtside _ _ => simp [houtside] at hcore
  case concludesFailed hfailed =>
    obtain rfl : pushed = _ := by simpa using hpushed
    obtain rfl := Option.some.inj hstate
    exact .inr (by simp [hfailed])
  case concludes hnotFailed =>
    simp only [Next.frames_call, List.mem_cons, List.not_mem_nil, or_false] at hpushed
    rcases hpushed with rfl | rfl
    · right
      revert hstate
      generalize hcurrent : Executor.state _ = current
      cases current <;> simp_all [Frame.concluded?, Call.reported?]
    · cases hstate
  all_goals
    simp at hpushed
    try rcases hpushed with rfl | rfl
  all_goals first
  | exact .inl hstate
  | cases hstate

theorem Transition.conclusion_le {view : LockView} {thread : ThreadId} {id : ExecutorId}
    {frame : Frame} {signal : Signal} {executor executor' : Executor} {next : Next}
    (htransition : Transition view thread id frame signal executor next executor')
    (hcore : frame.isCore id = true) :
    tally Entry.isConclusion executor'.journal + executor'.course.fresh +
      (next.frames.map (within id Frame.conclusionDue)).sum ≤
        tally Entry.isConclusion executor.journal + executor.course.fresh +
          frame.conclusionDue := by
  cases htransition
  case aside houtside _ _ => simp [houtside] at hcore
  case runBegins hnew => simp [hnew, Frame.conclusionDue, Course.fresh]
  case callProceeds hpoints hsame hjournal =>
    rw [hjournal, hsame.course]
    simp [Frame.conclusionDue]
  all_goals simp [Frame.conclusionDue, Entry.isConclusion]
  all_goals
    simp only [Course.fresh]
    omega

namespace System

section Outcome

variable {fragments : List Fragment} {host : Host} {permitted : Command → Prop}
  {system : System} {id : ExecutorId}

theorem ReachableUnder.conclusion_le
    (hreach : (ofFragments fragments host).ReachableUnder permitted system) (id : ExecutorId) :
    tally Entry.isConclusion (system.executor id).journal +
      (system.executor id).course.fresh + system.total (within id Frame.conclusionDue) ≤ 1 := by
  refine hreach.once id _ Frame.conclusionDue (fun _ => rfl) ?_ fun htransition hcore =>
    htransition.conclusion_le hcore
  rintro frame ⟨⟩ <;> rfl

/-- A frame that is about the end of the run has the state from a reading of its own
thread. -/
theorem ReachableUnder.concluded_of_frame
    (hreach : (ofFragments fragments host).ReachableUnder permitted system)
    {thread : ThreadId} {frame : Frame} {state : State} (hmem : frame ∈ system.frames thread)
    (hcore : frame.isCore id = true) (hstate : frame.concluded? = some state) :
    ∃ before gap, (system.executor id).journal =
      before ++ ⟨thread, .concluded state⟩ :: gap := by
  have hlater {journal later : List Record} (hgrows : journal <+: later) {thread : ThreadId}
      {state : State}
      (hread : ∃ before gap, journal = before ++ ⟨thread, .concluded state⟩ :: gap) :
      ∃ before gap, later = before ++ ⟨thread, .concluded state⟩ :: gap := by
    obtain ⟨more, rfl⟩ := hgrows
    obtain ⟨before, gap, rfl⟩ := hread
    exact ⟨before, gap ++ more, by simp⟩
  refine hreach.everywhere id (fun executor thread frame => ∀ state,
    frame.concluded? = some state → ∃ before gap, executor.journal =
      before ++ ⟨thread, .concluded state⟩ :: gap) ?_ ?_ ?_ hmem hcore state hstate
  · rintro executor thread _ ⟨⟩ state ⟨⟩
  · intro system after thread frame rest next hreach hadvance htransition hcore hframe pushed
      hpushed _ state hstate
    rcases htransition.concluded_pushed hcore hpushed hstate with hbefore | hjournal
    · exact hlater htransition.grows.journal (hframe state hbefore)
    · exact ⟨(system.executor id).journal, [], hjournal⟩
  · intro system after thread frame rest next hreach hadvance htransition owner other _ _ hother
      state hstate
    exact hlater htransition.grows.journal (hother state hstate)

/-- A terminal report tells the state that its thread has read. -/
theorem ReachableUnder.concluded_of_report
    (hreach : (ofFragments fragments host).ReachableUnder permitted system)
    {seen after : List Record} {thread : ThreadId} {call : Call} {state : State}
    (hjournal : (system.executor id).journal = seen ++ ⟨thread, .entered call⟩ :: after)
    (hreported : call.reported? = some state) :
    ∃ before gap, seen = before ++ ⟨thread, .concluded state⟩ :: gap := by
  obtain ⟨earlier, hearlier, rfl, hmem⟩ := hreach.entered hjournal
  exact hearlier.concluded_of_frame hmem (by simp [Frame.isCore]) hreported

/-- What a run reads at its end is the replay of the journal. -/
theorem ReachableUnder.replay_of_concluded
    (hreach : (ofFragments fragments host).ReachableUnder permitted system) (id : ExecutorId) :
    Consistent (fun before record => ∀ state, record.entry = .concluded state →
      state = replay before) (system.executor id).journal := by
  refine hreach.consistent id _ fun {system after thread frame rest next} hreach _ entry hwrites
    state hentry => ?_
  cases hwrites with
  | concluded =>
    obtain rfl := Entry.concluded.inj hentry
    exact hreach.state_eq_replay id
  | _ => cases hentry

/-- A terminal report tells the state that its thread has read, which is the replay of the
journal up to there. -/
theorem ReachableUnder.conclusion_of_report
    (hreach : (ofFragments fragments host).ReachableUnder permitted system)
    {seen after : List Record} {thread : ThreadId} {call : Call}
    (hjournal : (system.executor id).journal = seen ++ ⟨thread, .entered call⟩ :: after)
    (hreport : call.isTerminalReport = true) :
    ∃ before status gap, seen = before ++ ⟨thread, .concluded status⟩ :: gap ∧
      (system.executor id).journal =
        before ++ ⟨thread, .concluded status⟩ :: (gap ++ ⟨thread, .entered call⟩ :: after) ∧
      call.reported? = some status ∧ status = replay before ∧ status.isTerminal = true := by
  obtain ⟨status, hreported⟩ := Call.exists_reported hreport
  obtain ⟨before, gap, hseen⟩ := hreach.concluded_of_report hjournal hreported
  have hread : (system.executor id).journal =
      before ++ ⟨thread, .concluded status⟩ :: (gap ++ ⟨thread, .entered call⟩ :: after) := by
    simp [hjournal, hseen]
  exact ⟨before, status, gap, hseen, hread, hreported,
    hreach.replay_of_concluded id before _ _ hread status rfl,
    hreach.terminal_of_concluded id before _ _ hread status rfl⟩

end Outcome

end System

end FragmentLifecycle
