import FragmentLifecycle.Proofs.Journal
import FragmentLifecycle.Proofs.Reachability

/-!
# What no step takes back

A fragment that has begun does not wait again, one that has stopped does not go on, a
terminal state stays terminal, an open gate and closed resources stay so, and the journal
only gets longer.  Every transition relates the executor before and after it by
`Executor.Grows`, and writes at most one record, which `Frame.Writes` derives from the
frame that moves.
-/

namespace FragmentLifecycle

namespace State

variable {state : State} (target : State)

theorem isTerminal_apply_decide (hterminal : state.isTerminal = true) :
    ((state.decide target).apply state).isTerminal = true := by
  cases state <;> cases target <;> first | rfl | cases hterminal

theorem continues_apply_decide (hstopped : state.continues = false) :
    ((state.decide target).apply state).continues = false := by
  cases state <;> cases target <;> first | rfl | cases hstopped

theorem apply_decide_ne_awaitingAllocation (hbegun : state ≠ .awaitingAllocation) :
    (state.decide target).apply state ≠ .awaitingAllocation := by
  cases state <;> cases target <;> first | exact absurd rfl hbegun | decide

/-- Nothing asks for the sending state. -/
theorem apply_decide_ne_sending (hbefore : state ≠ .sending) :
    (state.decide target).apply state ≠ .sending := by
  cases state <;> cases target <;> first | exact absurd rfl hbefore | decide

theorem apply_decide_of_failed : (State.failed.decide target).apply .failed = .failed := by
  cases target <;> rfl

theorem apply_decide_of_finished : (State.finished.decide target).apply .finished = .finished := by
  cases target <;> rfl

theorem isTerminal_apply_decide_failed (state : State) :
    ((state.decide .failed).apply state).isTerminal = true := by
  cases state <;> rfl

theorem isTerminal_apply_decide_finished (state : State) :
    ((state.decide .finished).apply state).isTerminal = true := by
  cases state <;> rfl

theorem continues_of_isTerminal (hterminal : state.isTerminal = true) :
    state.continues = false := by
  simp [continues, hterminal]

end State

structure Executor.Grows (before after : Executor) : Prop where
  fragment : after.fragment = before.fragment
  journal : before.journal <+: after.journal
  begun : before.state ≠ .awaitingAllocation → after.state ≠ .awaitingAllocation
  stopped : before.state.continues = false → after.state.continues = false
  terminal : before.state.isTerminal = true → after.state.isTerminal = true
  failed : before.state = .failed → after.state = .failed
  finished : before.state = .finished → after.state = .finished
  gate : before.gate.isOpen = true → after.gate.isOpen = true
  closed : before.resourcesClosed = true → after.resourcesClosed = true

namespace Executor.Grows

variable {before after : Executor} {thread : ThreadId}

theorem of_state (hfragment : after.fragment = before.fragment)
    (hjournal : before.journal <+: after.journal) (hstate : after.state = before.state)
    (hgate : before.gate.isOpen = true → after.gate.isOpen = true)
    (hclosed : before.resourcesClosed = true → after.resourcesClosed = true) :
    before.Grows after :=
  ⟨hfragment, hjournal, fun h => hstate ▸ h, fun h => hstate ▸ h, fun h => hstate ▸ h,
    fun h => hstate ▸ h, fun h => hstate ▸ h, hgate, hclosed⟩

theorem refl (executor : Executor) : executor.Grows executor :=
  of_state rfl (List.prefix_refl _) rfl id id

theorem trans {later : Executor} (hafter : before.Grows after) (hlater : after.Grows later) :
    before.Grows later where
  fragment := hlater.fragment.trans hafter.fragment
  journal := hafter.journal.trans hlater.journal
  begun hbegun := hlater.begun (hafter.begun hbegun)
  stopped hstopped := hlater.stopped (hafter.stopped hstopped)
  terminal hterminal := hlater.terminal (hafter.terminal hterminal)
  failed hfailed := hlater.failed (hafter.failed hfailed)
  finished hfinished := hlater.finished (hafter.finished hfinished)
  gate hopen := hlater.gate (hafter.gate hopen)
  closed hclosed := hlater.closed (hafter.closed hclosed)

theorem request (executor : Executor) (target : State) :
    executor.Grows (executor.request thread target).2 where
  fragment := rfl
  journal := List.prefix_append _ _
  begun := State.apply_decide_ne_awaitingAllocation target
  stopped := State.continues_apply_decide target
  terminal := State.isTerminal_apply_decide target
  failed hfailed := by
    rw [state_request, hfailed]
    exact State.apply_decide_of_failed target
  finished hfinished := by
    rw [state_request, hfinished]
    exact State.apply_decide_of_finished target
  gate := id
  closed := id

theorem record (executor : Executor) (entry : Entry) :
    executor.Grows (executor.record thread entry) :=
  of_state rfl (List.prefix_append _ _) rfl id id

theorem append (executor : Executor) (cause : Fault) :
    executor.Grows (executor.append thread cause) :=
  of_state rfl (List.prefix_append _ _) rfl id id

theorem untouched (hsame : before.Untouched thread after) : before.Grows after := by
  refine of_state hsame.fragment ?_ hsame.state ?_ ?_
  · rcases hsame.journal with hjournal | ⟨receiver, hjournal⟩
    · exact hjournal ▸ List.prefix_refl _
    · exact hjournal ▸ List.prefix_append _ _
  · rw [hsame.gate]
    exact id
  · rw [hsame.resourcesClosed]
    exact id

end Executor.Grows

section Transitions

variable {view : LockView} {thread : ThreadId} {id : ExecutorId} {frame : Frame}
  {signal : Signal} {executor executor' : Executor} {next : Next}

theorem Lifecycle.state_of_drain {lifecycle next : Lifecycle} {causes : Composite}
    (hdrain : lifecycle.drain = (some causes, next)) : next.state = lifecycle.state := by
  simp only [Lifecycle.drain, Prod.mk.injEq] at hdrain
  exact (congrArg Lifecycle.state hdrain.2).symm

theorem Transition.grows
    (htransition : Transition view thread id frame signal executor next executor') :
    executor.Grows executor' := by
  cases htransition
  case aside hsame => exact .untouched hsame
  case callProceeds hsame _ => exact .untouched hsame
  case drains hcauses =>
    refine .of_state rfl (List.prefix_append _ _) ?_ (fun h => h) fun h => h
    exact Lifecycle.state_of_drain hcauses
  case closeBegins => exact .of_state rfl (List.prefix_refl _) rfl (fun h => h) fun _ => rfl
  case gateOpened | waitersReleased =>
    exact .of_state rfl (List.prefix_refl _) rfl (fun _ => rfl) fun h => h
  all_goals first
  | exact .refl _
  | exact .request _ _
  | exact .record _ _
  | exact .append _ _
  | exact .of_state rfl (List.prefix_refl _) rfl (fun h => h) fun h => h

/-- What a frame of executor `id` writes into its journal when it moves. -/
inductive Frame.Writes (id : ExecutorId) (executor : Executor) : Frame → Entry → Prop
  | forwarded {frame receiver} (houtside : frame.isCore id = false) :
      Writes id executor frame (.forwarded receiver)
  | running {l} : Writes id executor (.run id l .announce) (.requested executor.state .running)
  | finished {l} : Writes id executor (.run id l .finish) (.requested executor.state .finished)
  | concluded {l} : Writes id executor (.run id l .conclude) (.concluded executor.state)
  | substitute {l} : Writes id executor (.run id l .ensureCause) (.recorded substituteCause)
  | drained {l causes} : Writes id executor (.run id l .drain) (.drained causes)
  | cancellation :
      Writes id executor (.cancel id .request) (.requested executor.state .cancellationRequested)
  | cause {cause} : Writes id executor (.fail id cause .append) (.recorded cause)
  | failure {cause} :
      Writes id executor (.fail id cause .request) (.requested executor.state .failed)
  | entered {call} : Writes id executor (.call id call .enter) (.entered call)
  | acted {call action rest answer} :
      Writes id executor (.call id call (.acting action rest)) (.acted action answer)
  | returned {call} : Writes id executor (.call id call (.play [])) (.left call false)
  | unparked {call} : Writes id executor (.call id call .parking) (.left call false)
  | panicked {call payload}
      (houtcome : (executor.fragment.script.planOf call).outcome = .panic payload) :
      Writes id executor (.call id call (.play [])) (.left call true)
  | unwound {call action rest} :
      Writes id executor (.call id call (.acting action rest)) (.left call true)

theorem Transition.journal_cases
    (htransition : Transition view thread id frame signal executor next executor') :
    executor'.journal = executor.journal ∨
      ∃ entry, frame.Writes id executor entry ∧
        executor'.journal = executor.journal ++ [⟨thread, entry⟩] := by
  cases htransition
  case aside houtside _ hsame =>
    rcases hsame.journal with hjournal | ⟨receiver, hjournal⟩
    · exact .inl hjournal
    · exact .inr ⟨_, .forwarded houtside, hjournal⟩
  case callProceeds hjournal => exact .inl hjournal
  case runAccepted | runRefused => exact .inr ⟨_, .running, rfl⟩
  case finishes => exact .inr ⟨_, .finished, rfl⟩
  case concludes | concludesFailed => exact .inr ⟨_, .concluded, rfl⟩
  case causeSubstituted => exact .inr ⟨_, .substitute, rfl⟩
  case drains => exact .inr ⟨_, .drained, rfl⟩
  case cancelAccepted | cancelIgnored => exact .inr ⟨_, .cancellation, rfl⟩
  case causeAppended => exact .inr ⟨_, .cause, rfl⟩
  case failureRequested => exact .inr ⟨_, .failure, rfl⟩
  case contextEntered | callEntered => exact .inr ⟨_, .entered, rfl⟩
  case callActed => exact .inr ⟨_, .acted, rfl⟩
  case callReturns => exact .inr ⟨_, .returned, rfl⟩
  case parkingReturns => exact .inr ⟨_, .unparked, rfl⟩
  case callPanics houtcome => exact .inr ⟨_, .panicked houtcome, rfl⟩
  case callUnwinds => exact .inr ⟨_, .unwound, rfl⟩
  all_goals exact .inl rfl

/-- The state that a frame of executor `id` asks for when it moves. -/
inductive Frame.Asks (id : ExecutorId) : Frame → State → Prop
  | running {l} : Asks id (.run id l .announce) .running
  | finished {l} : Asks id (.run id l .finish) .finished
  | cancellation : Asks id (.cancel id .request) .cancellationRequested
  | failure {cause} : Asks id (.fail id cause .request) .failed

/-- The state changes only by a request. -/
theorem Transition.state_cases
    (htransition : Transition view thread id frame signal executor next executor') :
    executor'.state = executor.state ∨
      ∃ target, frame.Asks id target ∧
        executor'.state = (executor.state.decide target).apply executor.state := by
  cases htransition
  case aside hsame => exact .inl hsame.state
  case callProceeds hsame _ => exact .inl hsame.state
  case drains hcauses => exact .inl (Lifecycle.state_of_drain hcauses)
  case runAccepted | runRefused => exact .inr ⟨_, .running, rfl⟩
  case finishes => exact .inr ⟨_, .finished, rfl⟩
  case cancelAccepted | cancelIgnored => exact .inr ⟨_, .cancellation, rfl⟩
  case failureRequested => exact .inr ⟨_, .failure, rfl⟩
  all_goals exact .inl rfl

end Transitions

/-- A request is recorded with the state that it was decided in. -/
theorem Frame.Writes.current_eq {id : ExecutorId} {executor : Executor} {frame : Frame}
    {entry : Entry} (hwrites : frame.Writes id executor entry) {current target : State}
    (hentry : entry = .requested current target) : current = executor.state := by
  cases hwrites <;> cases hentry <;> rfl

namespace System

variable {fragments : List Fragment} {host : Host} {permitted : Command → Prop}
  {system : System}

/-- Moves take nothing back. -/
theorem ReachableUnder.grows {start : System} (hlater : start.ReachableUnder permitted system)
    (id : ExecutorId) : (start.executor id).Grows (system.executor id) := by
  induction hlater with
  | refl => exact .refl _
  | move move _ _ hmove ih =>
    rcases advance_or_turnover hmove with ⟨_, _, _, _, hadvance⟩ | ⟨_, _, hturn⟩
    · exact ih.trans (Frame.step_transition id hadvance.step).grows
    · rw [hturn.executor_eq]
      exact ih

/-- An executor keeps the fragment that it was made for. -/
theorem ReachableUnder.fragment_eq
    (hreach : (ofFragments fragments host).ReachableUnder permitted system) (id : ExecutorId) :
    (system.executor id).fragment = (fragments[id]?).getD .vacant := by
  refine hreach.invariant (fun system =>
    (system.executor id).fragment = (fragments[id]?).getD .vacant) rfl ?_ ?_
  · intro system after thread root hturn hfragment
    rw [hturn.executor_eq]
    exact hfragment
  · intro system after thread frame rest next hreach hadvance hfragment
    exact (Frame.step_transition id hadvance.step).grows.fragment.trans hfragment

/-- A journal is consistent where every frame that moves writes only what agrees with the
journal so far. -/
theorem ReachableUnder.consistent (id : ExecutorId) (agrees : List Record → Record → Prop)
    (hwrites : ∀ {system after : System} {thread frame rest next},
      (ofFragments fragments host).ReachableUnder permitted system →
      system.Advance after thread frame rest next → ∀ entry,
      frame.Writes id (system.executor id) entry →
      agrees (system.executor id).journal ⟨thread, entry⟩)
    (hreach : (ofFragments fragments host).ReachableUnder permitted system) :
    Consistent agrees (system.executor id).journal := by
  refine hreach.always id (fun executor => Consistent agrees executor.journal)
    (fun _ => .nil) ?_
  intro system after thread frame rest next hreach hadvance htransition hjournal
  rcases htransition.journal_cases with hsame | ⟨entry, hentry, hlonger⟩
  · rw [hsame]
    exact hjournal
  · rw [hlonger]
    exact hjournal.append (hwrites hreach hadvance entry hentry)

/-- A record was written by a step of its thread, in a system that the journal before it had
led to. -/
theorem ReachableUnder.written
    (hreach : (ofFragments fragments host).ReachableUnder permitted system) {id : ExecutorId}
    {seen later : List Record} {record : Record}
    (hjournal : (system.executor id).journal = seen ++ record :: later) :
    ∃ before after frame rest next,
      (ofFragments fragments host).ReachableUnder permitted before ∧
      before.Advance after record.thread frame rest next ∧
      (ofFragments fragments host).ReachableUnder permitted after ∧
      after.ReachableUnder permitted system ∧ (before.executor id).journal = seen ∧
      (after.executor id).journal = seen ++ [record] ∧
      frame.Writes id (before.executor id) record.entry := by
  induction hreach generalizing later with
  | refl => simp [executor, ofFragments, Executor.ofFragment] at hjournal
  | @move system following move hpermitted hreach hmove ih =>
    have hearlier {later : List Record}
        (hsplit : (system.executor id).journal = seen ++ record :: later) :
        ∃ before after frame rest next,
          (ofFragments fragments host).ReachableUnder permitted before ∧
          before.Advance after record.thread frame rest next ∧
          (ofFragments fragments host).ReachableUnder permitted after ∧
          after.ReachableUnder permitted following ∧ (before.executor id).journal = seen ∧
          (after.executor id).journal = seen ++ [record] ∧
          frame.Writes id (before.executor id) record.entry := by
      obtain ⟨before, after, frame, rest, next, hbefore, hadvance, hafter, hlater, hwritten⟩ :=
        ih hsplit
      exact ⟨before, after, frame, rest, next, hbefore, hadvance, hafter,
        .move move hpermitted hlater hmove, hwritten⟩
    obtain ⟨thread, frame, rest, next, hadvance⟩ | ⟨thread, root, hturn⟩ :=
      advance_or_turnover hmove
    · rcases (Frame.step_transition id hadvance.step).journal_cases with
        hsame | ⟨entry, hwrites, hlonger⟩
      · exact hearlier (hsame.symm.trans hjournal)
      · have hsplit := hlonger.symm.trans hjournal
        rcases List.eq_nil_or_concat later with rfl | ⟨between, last, rfl⟩
        · obtain ⟨hseen, hlast⟩ := List.append_inj' hsplit rfl
          obtain rfl : ⟨thread, entry⟩ = record := by simpa using hlast
          exact ⟨system, following, frame, rest, next, hreach, hadvance,
            .move move hpermitted hreach hmove, .refl, hseen, hjournal, hwrites⟩
        · rw [List.concat_eq_append, ← List.cons_append, ← List.append_assoc] at hsplit
          exact hearlier (List.append_inj' hsplit rfl).1
    · rw [hturn.executor_eq] at hjournal
      exact hearlier hjournal

/-- A call was entered in a system that the journal had led to. -/
theorem ReachableUnder.entered
    (hreach : (ofFragments fragments host).ReachableUnder permitted system) {id : ExecutorId}
    {seen later : List Record} {thread : ThreadId} {call : Call}
    (hjournal : (system.executor id).journal = seen ++ ⟨thread, .entered call⟩ :: later) :
    ∃ earlier, (ofFragments fragments host).ReachableUnder permitted earlier ∧
      (earlier.executor id).journal = seen ∧ .call id call .enter ∈ earlier.frames thread := by
  obtain ⟨before, after, frame, rest, next, hbefore, hadvance, -, -, hseen, -, hwrites⟩ :=
    hreach.written hjournal
  cases hwrites
  exact ⟨before, hbefore, hseen, hadvance.frames ▸ List.mem_cons_self⟩

end System

end FragmentLifecycle
