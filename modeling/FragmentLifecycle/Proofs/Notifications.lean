import FragmentLifecycle.Proofs.Outcome
import FragmentLifecycle.Proofs.Setup

/-!
# Notifications

Before its end the reporter is told that a fragment runs and that its cancellation was
asked for.  A state is told by the thread whose request for it was accepted, as the next
thing that this thread does.  No request is accepted twice, and the thread that tells that
the fragment runs keeps every cancellation out of the setup section.  So there are few
sequences of notifications (`System.notifications_shape`).
-/

namespace FragmentLifecycle

/-- The state that a report tells before the end of a fragment. -/
def Call.notified? : Call → Option State
  | .stateChanged .cancelled | .stateChanged .finished => none
  | .stateChanged state => some state
  | _ => none

/-- The states that the reporter was told before the end, in order. -/
def notifications (journal : List Record) : List State :=
  journal.filterMap fun record =>
    match record.entry with
    | .entered call => call.notified?
    | _ => none

def Call.tells (target : State) : Call → Bool
  | .stateChanged state => state = target
  | _ => false

/-- Whether a request for `target` is accepted and announced at once. -/
def State.announces (current target : State) : Bool :=
  current.decide target = .accept target true

/-- A request for `target` that was accepted and is announced at once. -/
def Entry.accepts (target : State) : Entry → Bool
  | .requested current asked => asked = target ∧ current.announces asked = true
  | _ => false

/-- Weighs the reports of `target` that are yet to be entered. -/
def Frame.telling (target : State) : Frame → Nat
  | .call _ report .enter => (report.tells target).toNat
  | _ => 0

/-- A report of a state, the frame that waits for it, and what its thread has recorded
before. -/
inductive Announcement (id : ExecutorId) : State → Frame → Entry → Prop
  | running {l} :
      Announcement id .running (.run id l .announcing) (.requested .awaitingAllocation .running)
  | cancellation {current} (hcontinues : current.continues = true) :
      Announcement id .cancellationRequested (.cancel id .announcing)
        (.requested current .cancellationRequested)
  | status {l state} (hreport : (Call.stateChanged state).isTerminalReport = true) :
      Announcement id state (.run id l .reporting) (.concluded state)

namespace State

variable {state : State} (asked target : State)

/-- What was accepted and announced is never accepted again. -/
theorem not_announces_apply_decide
    (hdone : state.announces target = false ∨ asked = target ∧ state.announces asked = true) :
    ((state.decide asked).apply state).announces target = false := by
  revert hdone
  cases state <;> cases asked <;> cases target <;> decide

theorem announces_running_iff (state : State) :
    state.announces .running = true ↔ state = .awaitingAllocation := by
  cases state <;> simp [announces, State.decide]

theorem announces_cancellationRequested (state : State) :
    state.announces .cancellationRequested = state.continues := by
  cases state <;> rfl

/-- The end of a fragment is left to the final report. -/
theorem announces_of_isTerminal (state target : State)
    (hterminal : target.isTerminal = true) : state.announces target = false := by
  cases state <;> cases target <;> first | rfl | cases hterminal

/-- A fragment gets to where it may end as finished by running first. -/
theorem running_or_of_apply_decide
    (hend : (state.decide asked).apply state = .running ∨
      (state.decide asked).apply state = .sending ∨
      (state.decide asked).apply state = .finished) :
    (state = .running ∨ state = .sending ∨ state = .finished) ∨
      (asked = .running ∧ state.announces asked = true) ∨
      (asked = .finished ∧ state = .awaitingAllocation) := by
  revert hend
  cases state <;> cases asked <;> decide

end State

theorem Call.eq_of_tells {target : State} {call : Call} (htells : call.tells target = true) :
    call = .stateChanged target := by
  cases call with
  | stateChanged state => rw [of_decide_eq_true htells]
  | _ => cases htells

theorem Frame.eq_of_telling {id : ExecutorId} {target : State} {frame : Frame}
    (hweighs : 0 < within id (Frame.telling target) frame) :
    frame = .call id (.stateChanged target) .enter := by
  obtain ⟨hcore, hweight⟩ := within_pos id _ hweighs
  cases frame with
  | call owner report point =>
    obtain rfl : owner = id := by simpa [Frame.isCore] using hcore
    cases point with
    | enter =>
      cases htells : report.tells target with
      | true => rw [Call.eq_of_tells htells]
      | false => simp [telling, htells] at hweight
    | _ => cases hweight
  | _ => cases hweight

section Journals

variable {journal : List Record}

@[simp]
theorem notifications_append (journal : List Record) (thread : ThreadId) (entry : Entry) :
    notifications (journal ++ [⟨thread, entry⟩]) = notifications journal ++
      match entry with
      | .entered call => call.notified?.toList
      | _ => [] := by
  cases entry with
  | entered call => cases hcall : call.notified? <;> simp [notifications, hcall]
  | _ => simp [notifications]

theorem Call.eq_of_notified {call : Call} {state : State} (hcall : call.notified? = some state) :
    call = .stateChanged state ∧ call.isTerminalReport = false := by
  cases call with
  | stateChanged told => cases told <;> cases hcall <;> exact ⟨rfl, rfl⟩
  | _ => cases hcall

/-- A notification is a report that was entered. -/
theorem mem_notifications {target : State} (htarget : target.isTerminal = false) :
    target ∈ notifications journal ↔
      0 < tally (Entry.isEntered (Call.tells target)) journal := by
  rw [tally_pos_iff, notifications, List.mem_filterMap]
  apply exists_congr
  intro record
  apply and_congr_right
  intro _
  cases record.entry with
  | entered call =>
    cases call with
    | stateChanged state => cases state <;> cases target <;> first | decide | cases htarget
    | _ => simp [Call.notified?, Entry.isEntered, Call.tells]
  | _ => simp [Entry.isEntered]

/-- No announced request is accepted twice. -/
theorem accepted_le (hfaithful : Faithful journal) (target : State) :
    tally (Entry.accepts target) journal + ((replay journal).announces target).toNat ≤ 1 := by
  induction journal using List.reverseRecOn with
  | nil => simp [Bool.toNat_le]
  | append_singleton journal record ih =>
    have hbefore := ih hfaithful.init
    obtain ⟨thread, entry⟩ := record
    rw [tally_append, replay_append]
    cases entry with
    | requested current asked =>
      obtain rfl := hfaithful.last current asked rfl
      rw [Entry.apply]
      by_cases haccepts : Entry.accepts target (.requested (replay journal) asked) = true
      · obtain ⟨rfl, haccepted⟩ : asked = target ∧ (replay journal).announces asked = true := by
          simpa [Entry.accepts] using haccepts
        rw [haccepts, State.not_announces_apply_decide asked asked (.inr ⟨rfl, haccepted⟩)]
        rwa [haccepted] at hbefore
      · rw [Bool.not_eq_true] at haccepts
        rw [haccepts]
        cases hopen : (replay journal).announces target with
        | false =>
          rw [hopen] at hbefore
          rwa [State.not_announces_apply_decide asked target (.inl hopen)]
        | true =>
          have hmost := Bool.toNat_le
            ((((replay journal).decide asked).apply (replay journal)).announces target)
          rw [hopen, Bool.toNat_true] at hbefore
          rw [Bool.toNat_false]
          omega
    | _ => simpa [Entry.accepts, Entry.apply] using hbefore

theorem cancellationTook_iff :
    CancellationTook journal ↔ 0 < tally (Entry.accepts .cancellationRequested) journal := by
  rw [tally_pos_iff, CancellationTook]
  apply exists_congr
  intro record
  apply and_congr_right
  intro _
  cases record.entry with
  | requested current asked =>
    constructor
    · rintro ⟨told, hentry, haccepted⟩
      obtain ⟨rfl, rfl⟩ := Entry.requested.inj hentry
      simp [Entry.accepts, State.announces, haccepted]
    · intro haccepts
      obtain ⟨rfl, haccepted⟩ :
          asked = .cancellationRequested ∧ current.announces asked = true := by
        simpa [Entry.accepts] using haccepts
      exact ⟨current, rfl, by simpa [State.announces] using haccepted⟩
  | _ => simp [Entry.accepts]

/-- A fragment that runs, or ended without a failure or a cancellation, was accepted as
running. -/
theorem running_accepted (hfaithful : Faithful journal)
    (hbegun : Consistent (fun _ record => ∀ current,
      record.entry = .requested current .finished → current ≠ .awaitingAllocation) journal)
    (hstate : replay journal = .running ∨ replay journal = .sending ∨
      replay journal = .finished) : 0 < tally (Entry.accepts .running) journal := by
  induction journal using List.reverseRecOn with
  | nil => rcases hstate with h | h | h <;> cases h
  | append_singleton journal record ih =>
    have hbefore := ih hfaithful.init hbegun.init
    obtain ⟨thread, entry⟩ := record
    rw [replay_append] at hstate
    rw [tally_append]
    cases entry with
    | requested current asked =>
      obtain rfl := hfaithful.last current asked rfl
      rcases State.running_or_of_apply_decide asked hstate with
        hold | ⟨rfl, haccepted⟩ | ⟨rfl, hwaits⟩
      · exact Nat.add_pos_left (hbefore hold) _
      · simp [Entry.accepts, haccepted]
      · exact absurd hwaits (hbegun.last _ rfl)
    | _ => exact Nat.add_pos_left (hbefore hstate) _

/-- The order of the notifications, as every one of them finds it. -/
def NotificationsOrdered : List Record → Prop :=
  Consistent fun seen record => ∀ call state, record.entry = .entered call →
    call.notified? = some state →
      (state = .running ∨ state = .cancellationRequested) ∧ state ∉ notifications seen ∧
        (state = .running → .cancellationRequested ∉ notifications seen)

/-- There are four sequences of notifications. -/
theorem notifications_cases (hordered : NotificationsOrdered journal) :
    notifications journal = [] ∨ notifications journal = [.running] ∨
      notifications journal = [.cancellationRequested] ∨
      notifications journal = [.running, .cancellationRequested] := by
  induction journal using List.reverseRecOn with
  | nil => exact .inl rfl
  | append_singleton journal record ih =>
    have hbefore := ih hordered.init
    obtain ⟨thread, entry⟩ := record
    rw [notifications_append]
    cases entry with
    | entered call =>
      cases hcall : call.notified? with
      | none => simpa [hcall] using hbefore
      | some state =>
        obtain ⟨htold, hnew, hfirst⟩ := hordered.last call state rfl hcall
        rcases htold with rfl | rfl <;> rcases hbefore with h | h | h | h <;>
          simp_all
    | _ => simpa using hbefore

end Journals

section Transitions

variable {view : LockView} {thread : ThreadId} {id : ExecutorId} {frame : Frame}
  {signal : Signal} {executor executor' : Executor} {next : Next}

/-- A report of a state is pushed right after the record that it follows from. -/
theorem Transition.announcement_pushed
    (htransition : Transition view thread id frame signal executor next executor')
    (hcore : frame.isCore id = true)
    (hsettled : ∀ l point, frame = .run id l point → executor.SettledAt point) {state : State}
    (hpushed : .call id (.stateChanged state) .enter ∈ next.frames) :
    ∃ caller entry, Announcement id state caller entry ∧ caller ∈ next.frames ∧
      frame.Writes id executor entry ∧
      executor'.journal = executor.journal ++ [⟨thread, entry⟩] := by
  have hbelow (caller callee : Frame) : caller ∈ (Next.call caller callee).frames :=
    List.mem_cons_of_mem _ List.mem_cons_self
  cases htransition
  case aside houtside _ _ => simp [houtside] at hcore
  case runAccepted hstate =>
    obtain rfl : state = .running := by simpa using hpushed
    exact ⟨_, _, .running, hbelow _ _, hstate ▸ .running, hstate ▸ Executor.journal_request _ _ _⟩
  case cancelAccepted hstate =>
    obtain rfl : state = .cancellationRequested := by simpa using hpushed
    exact ⟨_, _, .cancellation hstate, hbelow _ _, .cancellation, Executor.journal_request _ _ _⟩
  case concludes hstate =>
    obtain rfl : state = executor.state := by simpa using hpushed
    have hreport := State.isTerminalReport_of_isTerminal ((hsettled _ _ rfl).terminal rfl) hstate
    exact ⟨_, _, .status hreport, hbelow _ _, .concluded, Executor.journal_record _ _ _⟩
  case callProceeds hpoints _ _ =>
    simp at hpushed
    obtain ⟨-, rfl⟩ := hpushed
    cases hpoints
  all_goals simp at hpushed

/-- Reports of a state that were entered and those that are yet to be add up to the
requests for it that were accepted. -/
theorem Transition.told_add_telling
    (htransition : Transition view thread id frame signal executor next executor')
    (hcore : frame.isCore id = true)
    (hsettled : ∀ l point, frame = .run id l point → executor.SettledAt point) {target : State}
    (htarget : target.isTerminal = false) :
    tally (Entry.isEntered (Call.tells target)) executor'.journal +
        (next.frames.map (within id (Frame.telling target))).sum +
        tally (Entry.accepts target) executor.journal =
      tally (Entry.isEntered (Call.tells target)) executor.journal + frame.telling target +
        tally (Entry.accepts target) executor'.journal := by
  cases htransition
  case aside houtside _ _ => simp [houtside] at hcore
  case callProceeds hpoints hsame hjournal =>
    rw [hjournal]
    cases hpoints <;> simp [Frame.telling]
  case concludes hstate =>
    have hother : executor.state ≠ target := by
      rintro rfl
      rw [(hsettled _ _ rfl).terminal rfl] at htarget
      cases htarget
    simp [Frame.telling, Entry.isEntered, Entry.accepts, Call.tells, hother]
  case runAccepted hstate =>
    have haccepted := (State.announces_running_iff _).mpr hstate
    simp [Frame.telling, Entry.isEntered, Entry.accepts, Call.tells, haccepted]
    omega
  case cancelAccepted hstate =>
    rw [← State.announces_cancellationRequested] at hstate
    simp [Frame.telling, Entry.isEntered, Entry.accepts, Call.tells, hstate]
    omega
  case runRefused hstate =>
    have hrefused : executor.state.announces .running = false := by
      rwa [← Bool.not_eq_true, State.announces_running_iff]
    simp [Frame.telling, Entry.isEntered, Entry.accepts, hrefused]
  case cancelIgnored hstate =>
    rw [← State.announces_cancellationRequested] at hstate
    simp [Frame.telling, Entry.isEntered, Entry.accepts, hstate]
  case finishes =>
    have hsilent := executor.state.announces_of_isTerminal .finished rfl
    simp [Frame.telling, Entry.isEntered, Entry.accepts, hsilent]
  case failureRequested =>
    have hsilent := executor.state.announces_of_isTerminal .failed rfl
    simp [Frame.telling, Entry.isEntered, Entry.accepts, hsilent]
  all_goals simp [Frame.telling, Entry.isEntered, Entry.accepts, Call.tells]

/-- A call that tells that the fragment runs comes from a run that is yet to conclude, and
stays what it is. -/
theorem Transition.running_call_pushed
    (htransition : Transition view thread id frame signal executor next executor')
    (hcore : frame.isCore id = true)
    (hsettled : ∀ l point, frame = .run id l point → executor.SettledAt point)
    {point : CallPoint} (hpushed : .call id (.stateChanged .running) point ∈ next.frames) :
    tally Entry.isConclusion executor'.journal = tally Entry.isConclusion executor.journal ∧
      (0 < frame.conclusionDue ∨ ∃ point, frame = .call id (.stateChanged .running) point) := by
  cases htransition
  case aside houtside _ _ => simp [houtside] at hcore
  case runAccepted => simp [Frame.conclusionDue, Entry.isConclusion]
  case concludes =>
    obtain ⟨hstate, -⟩ : State.running = executor.state ∧ point = .enter := by simpa using hpushed
    have hterminal := (hsettled _ _ rfl).terminal rfl
    rw [← hstate] at hterminal
    cases hterminal
  case callProceeds hsame hjournal =>
    simp at hpushed
    obtain ⟨rfl, -⟩ := hpushed
    exact ⟨by rw [hjournal], .inr ⟨_, rfl⟩⟩
  all_goals simp at hpushed
  all_goals
    obtain ⟨rfl, -⟩ := hpushed
    exact ⟨by simp [Entry.isConclusion], .inr ⟨_, rfl⟩⟩

end Transitions

namespace System

section Notifications

variable {fragments : List Fragment} {host : Host} {permitted : Command → Prop}
  {system : System} {id : ExecutorId} {thread : ThreadId} {state : State}

/-- A run that moves finds the state as its point promises. -/
theorem Advance.settled {after : System} {frame : Frame} {rest : List Frame} {next : Next}
    (hadvance : system.Advance after thread frame rest next)
    (hreach : (ofFragments fragments host).ReachableUnder permitted system)
    (l : Option ListenerId) (point : RunPoint) (hframe : frame = .run id l point) :
    (system.executor id).SettledAt point :=
  hreach.settled (hframe ▸ hadvance.frames ▸ List.mem_cons_self)

/-- A report that is yet to be entered follows from the last record of its thread, and is
waited for on this thread. -/
theorem ReachableUnder.announcement
    (hreach : (ofFragments fragments host).ReachableUnder permitted system)
    (hmem : .call id (.stateChanged state) .enter ∈ system.frames thread) :
    ∃ caller entry, Announcement id state caller entry ∧ caller ∈ system.frames thread ∧
      LastOf thread entry (system.executor id).journal := by
  refine hreach.innermost id (fun frame => frame = .call id (.stateChanged state) .enter)
    (fun system thread _ => ∃ caller entry, Announcement id state caller entry ∧
      caller ∈ system.frames thread ∧ LastOf thread entry (system.executor id).journal)
    ?_ ?_ ?_ ?_ ?_ hmem (by simp [Frame.isCore]) rfl
  · rintro frame role rfl hawaits
    cases hawaits
  · rintro frame ⟨⟩ ⟨⟩
  · rintro system after thread root hturn owner frame hsame
      ⟨caller, entry, hannounced, hcaller, hlast⟩
    refine ⟨caller, entry, hannounced, hsame ▸ hcaller, ?_⟩
    rwa [hturn.executor_eq]
  · rintro system after thread frame rest next hreach hadvance htransition hcore _ hpushed rfl
    obtain ⟨caller, entry, hannounced, hcaller, -, hjournal⟩ :=
      htransition.announcement_pushed hcore (hadvance.settled hreach) hpushed
    refine ⟨caller, entry, hannounced, ?_, ?_⟩
    · rw [hadvance.own]
      exact List.mem_append_left _ hcaller
    · rw [hjournal]
      exact .self _ _ _
  · rintro system after thread frame rest next _ _ htransition owner other howner _ _ hsame
      ⟨caller, entry, hannounced, hcaller, hlast⟩
    exact ⟨caller, entry, hannounced, hsame ▸ hcaller, htransition.lastOf howner hlast⟩

theorem ReachableUnder.told_total
    (hreach : (ofFragments fragments host).ReachableUnder permitted system) (id : ExecutorId)
    (target : State) (htarget : target.isTerminal = false) :
    tally (Entry.isEntered (Call.tells target)) (system.executor id).journal +
      system.total (within id (Frame.telling target)) =
        tally (Entry.accepts target) (system.executor id).journal := by
  apply hreach.conserved id (Entry.accepts target) (Entry.isEntered (Call.tells target))
    (Frame.telling target) (fun _ => ⟨rfl, rfl⟩)
  · rintro frame ⟨⟩ <;> rfl
  · intro system after thread frame rest next hreach hadvance htransition hcore
    exact htransition.told_add_telling hcore (hadvance.settled hreach) htarget

/-- No cancellation is accepted while the reporter is yet to be told that the fragment
runs. -/
theorem ReachableUnder.no_cancellation_of_running
    (hreach : (ofFragments fragments host).ReachableUnder permitted system)
    (hmem : .call id (.stateChanged .running) .enter ∈ system.frames thread) :
    tally (Entry.accepts .cancellationRequested) (system.executor id).journal = 0 := by
  refine hreach.innermost id (fun frame => frame = .call id (.stateChanged .running) .enter)
    (fun system _ _ =>
      tally (Entry.accepts .cancellationRequested) (system.executor id).journal = 0)
    ?_ ?_ ?_ ?_ ?_ hmem (by simp [Frame.isCore]) rfl
  · rintro frame role rfl hawaits
    cases hawaits
  · rintro frame ⟨⟩ ⟨⟩
  · intro system after thread root hturn owner frame _ hnone
    rwa [hturn.executor_eq]
  · rintro system after thread frame rest next hreach hadvance htransition hcore _ hpushed rfl
    obtain ⟨caller, entry, hannounced, -, hwrites, hjournal⟩ :=
      htransition.announcement_pushed hcore (hadvance.settled hreach) hpushed
    cases hannounced with
    | running =>
      have hmost := accepted_le (hreach.faithful id) .cancellationRequested
      rw [← hreach.state_eq_replay id, ← hwrites.current_eq rfl] at hmost
      rw [hjournal, tally_append]
      exact Nat.le_zero.mp (Nat.le_of_lt_succ hmost)
    | status hreport => cases hreport
  · rintro system after thread frame rest next hreach hadvance htransition owner _ howner hmem rfl
      _ hnone
    rcases htransition.journal_cases with hsame | ⟨entry, hwrites, hlonger⟩
    · rwa [hsame]
    · rw [hlonger, tally_append, hnone]
      cases hwrites with
      | cancellation =>
        -- both threads would be inside the setup section
        obtain ⟨caller, entry, hannounced, hcaller, -⟩ := hreach.announcement hmem
        have htop := hadvance.frames ▸ List.mem_cons_self
        cases hannounced with
        | running =>
          have hcancels : 0 < within id Frame.setup (.cancel id .request) := by
            simp [Frame.setup, CancelPoint.holdsSetup]
          have hsame := hreach.setup_exclusive hcaller htop
            (by simp [Frame.setup, RunPoint.holdsSetup]) hcancels
          exact absurd hsame howner
        | status hreport => cases hreport
      | _ => simp [Entry.accepts]

/-- A report that is about to be entered is the first one of its state. -/
theorem ReachableUnder.not_mem_notifications
    (hreach : (ofFragments fragments host).ReachableUnder permitted system)
    (hmem : .call id (.stateChanged state) .enter ∈ system.frames thread)
    (hstate : state.isTerminal = false) :
    state ∉ notifications (system.executor id).journal := by
  have htotal := hreach.told_total id state hstate
  have hmost := accepted_le (hreach.faithful id) state
  have htelling := weight_le_total (within id (Frame.telling state)) hmem
  simp [Frame.telling, Call.tells] at htelling
  rw [mem_notifications hstate]
  omega

theorem ReachableUnder.notificationsOrdered
    (hreach : (ofFragments fragments host).ReachableUnder permitted system) (id : ExecutorId) :
    NotificationsOrdered (system.executor id).journal := by
  rintro seen ⟨thread, entry⟩ later hjournal call state rfl htold
  obtain ⟨rfl, hreport⟩ := Call.eq_of_notified htold
  obtain ⟨earlier, hearlier, rfl, hmem⟩ := hreach.entered hjournal
  obtain ⟨caller, entry, hannounced, -⟩ := hearlier.announcement hmem
  cases hannounced with
  | running =>
    refine ⟨.inl rfl, hearlier.not_mem_notifications hmem rfl, fun _ => ?_⟩
    have htotal := hearlier.told_total id .cancellationRequested rfl
    have hnone := hearlier.no_cancellation_of_running hmem
    rw [mem_notifications rfl]
    omega
  | cancellation => exact ⟨.inr rfl, hearlier.not_mem_notifications hmem rfl, by simp⟩
  | status hterminal =>
    rw [hterminal] at hreport
    cases hreport

/-- A call that tells that the fragment runs is waited for by the live run. -/
theorem ReachableUnder.run_of_running_call
    (hreach : (ofFragments fragments host).ReachableUnder permitted system) {point : CallPoint}
    (hmem : .call id (.stateChanged .running) point ∈ system.frames thread) :
    ∃ l caller, .run id l caller ∈ system.frames thread ∧
      (caller = .announcing ∨ caller = .reporting) := by
  obtain ⟨caller, hcaller, hawaits⟩ := (hreach.linked thread).exists_caller hmem rfl
  simp only [Frame.role] at hawaits
  cases hawaits with
  | running => exact ⟨_, _, List.mem_of_mem_tail hcaller, .inl rfl⟩
  | stateReport => exact ⟨_, _, List.mem_of_mem_tail hcaller, .inr rfl⟩
  | entry hentry => cases (Action.entry?_eq_call hentry).2.2

/-- A run does not come to its end before the reporter has been told that the fragment
runs. -/
theorem ReachableUnder.unconcluded_of_running_call
    (hreach : (ofFragments fragments host).ReachableUnder permitted system) {point : CallPoint}
    (hmem : .call id (.stateChanged .running) point ∈ system.frames thread) :
    tally Entry.isConclusion (system.executor id).journal = 0 := by
  refine hreach.everywhere id (fun executor _ frame => ∀ point,
    frame = .call id (.stateChanged .running) point →
      tally Entry.isConclusion executor.journal = 0) ?_ ?_ ?_ hmem (by simp [Frame.isCore])
    point rfl
  · rintro executor thread _ ⟨⟩ point ⟨⟩
  · rintro system after thread frame rest next hreach hadvance htransition hcore hframe
      _ hpushed - point rfl
    obtain ⟨hsame, hdue | ⟨point', rfl⟩⟩ :=
      htransition.running_call_pushed hcore (hadvance.settled hreach) hpushed
    · have hmost := hreach.conclusion_le id
      have htop := weight_le_total (within id Frame.conclusionDue)
        (hadvance.frames ▸ List.mem_cons_self)
      rw [within, if_pos hcore] at htop
      omega
    · rw [hsame]
      exact hframe point' rfl
  · rintro system after thread frame rest next hreach hadvance htransition owner other hbeside
      - hother point rfl
    have hnone := hother point rfl
    rcases htransition.journal_cases with hsame | ⟨entry, hwrites, hlonger⟩
    · rwa [hsame]
    · rw [hlonger, tally_append, hnone]
      cases hwrites with
      | concluded =>
        -- the run that waits for the call would be at its end at the same time
        obtain ⟨l, caller, hcaller, hpoint⟩ :=
          hreach.run_of_running_call (hadvance.mem_of_beside hbeside)
        have htop := hadvance.frames ▸ List.mem_cons_self
        have hwaits : caller ≠ .start := by rcases hpoint with rfl | rfl <;> simp
        obtain ⟨-, -, rfl⟩ := hreach.live_unique htop (by simp) hcaller hwaits
        simp at hpoint
      | _ => rfl

/-- Once a run has read the state for its report, the reporter has been told that the
fragment runs, if it did. -/
theorem ReachableUnder.running_told
    (hreach : (ofFragments fragments host).ReachableUnder permitted system)
    (hconcluded : 0 < tally Entry.isConclusion (system.executor id).journal) :
    system.total (within id (Frame.telling .running)) = 0 := by
  by_contra htelling
  obtain ⟨thread, frame, hmem, hweighs⟩ := exists_of_total_pos _ (Nat.pos_of_ne_zero htelling)
  obtain rfl := Frame.eq_of_telling hweighs
  have hnone := hreach.unconcluded_of_running_call hmem
  omega

/-- Only a fragment that does not wait any more is asked to finish. -/
theorem ReachableUnder.begun_of_finish
    (hreach : (ofFragments fragments host).ReachableUnder permitted system) (id : ExecutorId) :
    Consistent (fun _ record => ∀ current, record.entry = .requested current .finished →
      current ≠ .awaitingAllocation) (system.executor id).journal := by
  refine hreach.consistent id _ fun {system after thread frame rest next} hreach hadvance entry
    hwrites current hentry => ?_
  rw [hwrites.current_eq hentry]
  cases hwrites with
  | finished => exact hreach.begun_of_running (hadvance.frames ▸ List.mem_cons_self) rfl
  | _ => cases hentry

/-- The reporter of a finished fragment was told that it runs. -/
theorem ReachableUnder.running_of_finished
    (hreach : (ofFragments fragments host).ReachableUnder permitted system)
    (hconcluded : 0 < tally Entry.isConclusion (system.executor id).journal)
    (hfinished : replay (system.executor id).journal = .finished) :
    .running ∈ notifications (system.executor id).journal := by
  have htotal := hreach.told_total id .running rfl
  have htold := hreach.running_told hconcluded
  have haccepted :=
    running_accepted (hreach.faithful id) (hreach.begun_of_finish id) (.inr (.inr hfinished))
  rw [mem_notifications rfl]
  omega

/-- The reporter of a finished fragment was not told of a cancellation. -/
theorem ReachableUnder.no_cancellation_of_finished
    (hreach : (ofFragments fragments host).ReachableUnder permitted system)
    (hfinished : replay (system.executor id).journal = .finished) :
    .cancellationRequested ∉ notifications (system.executor id).journal := by
  have htotal := hreach.told_total id .cancellationRequested rfl
  have hnone : ¬ CancellationTook (system.executor id).journal := by
    intro htook
    have hstate := replay_of_cancellationTook (hreach.faithful id) htook
    simp [hfinished] at hstate
  rw [cancellationTook_iff] at hnone
  rw [mem_notifications rfl]
  omega

end Notifications

variable {fragments : List Fragment} {host : Host} {system : System}

/-- The sequence of notifications.  Whatever the collaborators do and however many threads
run, cancel and fail the fragment, the reporter is told before its end nothing, or that it
runs, or that its cancellation was asked for, or both in this order.  The reporter of a
finished fragment was told that it runs and no more, and where the fragment is reported as
cancelled, exactly one request to cancel was accepted. -/
theorem notifications_shape (hreach : (ofFragments fragments host).Reachable system)
    (id : ExecutorId) :
    (notifications (system.executor id).journal = [] ∨
      notifications (system.executor id).journal = [.running] ∨
      notifications (system.executor id).journal = [.cancellationRequested] ∨
      notifications (system.executor id).journal = [.running, .cancellationRequested]) ∧
    ∀ thread,
      (⟨thread, .entered (.stateChanged .finished)⟩ ∈ (system.executor id).journal →
        notifications (system.executor id).journal = [.running]) ∧
      (⟨thread, .entered (.stateChanged .cancelled)⟩ ∈ (system.executor id).journal →
        tally (Entry.accepts .cancellationRequested) (system.executor id).journal = 1) := by
  have hunder := hreach.unrestricted
  have hshape := notifications_cases (hunder.notificationsOrdered id)
  refine ⟨hshape, fun thread => ⟨fun hreport => ?_, fun hreport => ?_⟩⟩
  · obtain ⟨seen, after, hjournal⟩ := List.append_of_mem hreport
    obtain ⟨before, status, gap, -, hread, hreported, hstatus, -⟩ :=
      hunder.conclusion_of_report hjournal rfl
    obtain rfl : .finished = status := Option.some.inj hreported
    have hfinished : replay (system.executor id).journal = .finished := by
      rw [hread]
      exact replay_of_finished _ hstatus.symm
    have hconcluded : 0 < tally Entry.isConclusion (system.executor id).journal :=
      (tally_pos_iff _ _).mpr ⟨⟨thread, .concluded .finished⟩, by simp [hread], rfl⟩
    have hruns := hunder.running_of_finished hconcluded hfinished
    have hspared := hunder.no_cancellation_of_finished hfinished
    rcases hshape with h | h | h | h <;> simp_all
  · obtain ⟨seen, after, hjournal⟩ := List.append_of_mem hreport
    obtain ⟨before, status, gap, -, hread, hreported, hstatus, -⟩ :=
      hunder.conclusion_of_report hjournal rfl
    obtain rfl : .cancelled = status := Option.some.inj hreported
    have hmost := accepted_le (hunder.faithful id) .cancellationRequested
    have hprior : before <+: (system.executor id).journal := hread ▸ List.prefix_append _ _
    have htook := cancellationTook_of_replay ((hunder.faithful id).earlier hprior)
      (.inr hstatus.symm)
    have hleast := tally_mono (Entry.accepts .cancellationRequested) before hprior
    rw [cancellationTook_iff] at htook
    omega

/-- A fragment that is told to cancel while it runs. -/
theorem notifications_shape_of_cancelled_run :
    ∃ system, (ofFragments [.vacant] { slots := { free := 0 } }).Reachable system ∧
      ⟨0, .entered (.stateChanged .cancelled)⟩ ∈ (system.executor 0).journal ∧
      notifications (system.executor 0).journal = [.running, .cancellationRequested] ∧
      tally (Entry.accepts .cancellationRequested) (system.executor 0).journal = 1 := by
  obtain ⟨system, hreach, hend⟩ := exists_of_moves
    (ofFragments [.vacant] { slots := { free := 0 } })
    (.call (.act 0 .run) :: List.replicate 20 (.step 0) ++
      .call (.act 0 .cancel) :: List.replicate 10 (.step 1) ++ List.replicate 25 (.step 0))
    (fun system =>
      (notifications (system.executor 0).journal, (system.executor 0).terminalReports))
    ([.running, .cancellationRequested], [⟨0, .entered (.stateChanged .cancelled)⟩]) rfl
  obtain ⟨htold, hreports⟩ := Prod.mk.inj hend
  have hreport := List.mem_of_mem_filter (hreports ▸ List.mem_singleton_self _)
  exact ⟨system, hreach, hreport, htold, ((notifications_shape hreach 0).2 0).2 hreport⟩

end System

end FragmentLifecycle
