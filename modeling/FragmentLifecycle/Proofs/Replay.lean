import FragmentLifecycle.Proofs.Succession
import Mathlib.Data.List.Induction

/-!
# The replay of a journal

The state of a fragment is the replay of the requests in its journal.  So a terminal
state can be read off the journal: a failure that took outweighs a cancellation that was
accepted, and otherwise the fragment has finished.
-/

namespace FragmentLifecycle

def Entry.apply (state : State) : Entry → State
  | .requested _ target => (state.decide target).apply state
  | _ => state

/-- The state after all requests in a journal. -/
def replay (journal : List Record) : State :=
  journal.foldl (fun state record => record.entry.apply state) .awaitingAllocation

@[simp]
theorem replay_append (journal : List Record) (thread : ThreadId) (entry : Entry) :
    replay (journal ++ [⟨thread, entry⟩]) = entry.apply (replay journal) := by
  simp [replay, List.foldl_append]

/-- Every request was decided in the state that the requests before it had led to. -/
def Faithful : List Record → Prop :=
  Consistent fun before record => ∀ current target,
    record.entry = .requested current target → current = replay before

/-! ## Failures and cancellations that took -/

/-- A failure was recorded whose request for the failed state, the next thing that its
thread did, was decided before the fragment had finished. -/
def FailureTook (journal : List Record) : Prop :=
  ∃ before thread cause middle current after,
    journal = before ++ ⟨thread, .recorded cause⟩ :: middle ++
      ⟨thread, .requested current .failed⟩ :: after ∧
    (∀ record ∈ middle, record.thread ≠ thread) ∧ current ≠ .finished

/-- A request to cancel was accepted. -/
def CancellationTook (journal : List Record) : Prop :=
  ∃ record ∈ journal, ∃ current, record.entry = .requested current .cancellationRequested ∧
    current.decide .cancellationRequested = .accept .cancellationRequested true

/-- Every request for the failed state comes right after the cause of its thread. -/
def Paired : List Record → Prop :=
  Consistent fun before record => ∀ current, record.entry = .requested current .failed →
    ∃ earlier cause middle, before = earlier ++ ⟨record.thread, .recorded cause⟩ :: middle ∧
      ∀ other ∈ middle, other.thread ≠ record.thread

namespace State

variable {state : State} (target : State)

theorem apply_decide_eq_failed_iff :
    (state.decide target).apply state = .failed ↔
      state = .failed ∨ (target = .failed ∧ state ≠ .finished) := by
  cases state <;> cases target <;> decide

theorem apply_decide_cancelled
    (hcancelled : state = .cancellationRequested ∨ state = .cancelled ∨ state = .failed) :
    (state.decide target).apply state = .cancellationRequested ∨
      (state.decide target).apply state = .cancelled ∨
      (state.decide target).apply state = .failed := by
  rcases hcancelled with rfl | rfl | rfl <;> cases target <;> decide

theorem cancelled_of_apply_decide
    (hcancelled : (state.decide target).apply state = .cancellationRequested ∨
      (state.decide target).apply state = .cancelled) :
    (state = .cancellationRequested ∨ state = .cancelled) ∨
      (target = .cancellationRequested ∧
        state.decide .cancellationRequested = .accept .cancellationRequested true) := by
  revert hcancelled
  cases state <;> cases target <;> decide

end State

section Replay

variable {journal : List Record}

theorem failureTook_append (record : Record) (htook : FailureTook journal) :
    FailureTook (journal ++ [record]) := by
  obtain ⟨before, thread, cause, middle, current, after, rfl, hmiddle, hcurrent⟩ := htook
  exact ⟨before, thread, cause, middle, current, after ++ [record], by simp, hmiddle, hcurrent⟩

theorem cancellationTook_append (later : List Record) (htook : CancellationTook journal) :
    CancellationTook (journal ++ later) := by
  obtain ⟨request, hmem, hrequest⟩ := htook
  exact ⟨request, List.mem_append_left _ hmem, hrequest⟩

theorem failureTook_of_replay (hfaithful : Faithful journal) (hpaired : Paired journal)
    (hfailed : replay journal = .failed) : FailureTook journal := by
  induction journal using List.reverseRecOn with
  | nil => cases hfailed
  | append_singleton journal record ih =>
    have hbefore := ih hfaithful.init hpaired.init
    obtain ⟨thread, entry⟩ := record
    rw [replay_append] at hfailed
    cases entry with
    | requested current target =>
      rcases State.apply_decide_eq_failed_iff target |>.mp hfailed with hold | ⟨rfl, hstate⟩
      · exact failureTook_append _ (hbefore hold)
      · have hcurrent := hfaithful.last current .failed rfl
        obtain ⟨earlier, cause, middle, hsplit, hmiddle⟩ := hpaired.last current rfl
        refine ⟨earlier, thread, cause, middle, current, [], ?_, hmiddle, hcurrent ▸ hstate⟩
        rw [hsplit]
    | _ => exact failureTook_append _ (hbefore hfailed)

/-- A state that no request leaves stays as it is. -/
theorem replay_of_absorbing (later : List Record)
    (habsorbs : ∀ target, ((replay journal).decide target).apply (replay journal) =
      replay journal) : replay (journal ++ later) = replay journal := by
  induction later using List.reverseRecOn with
  | nil => rw [List.append_nil]
  | append_singleton later record ih =>
    obtain ⟨thread, entry⟩ := record
    rw [← List.append_assoc, replay_append, ih]
    cases entry with
    | requested current target => exact habsorbs target
    | _ => rfl

theorem isTerminal_replay_append (later : List Record)
    (hterminal : (replay journal).isTerminal = true) :
    (replay (journal ++ later)).isTerminal = true := by
  induction later using List.reverseRecOn with
  | nil => rwa [List.append_nil]
  | append_singleton later record ih =>
    obtain ⟨thread, entry⟩ := record
    rw [← List.append_assoc, replay_append]
    cases entry with
    | requested current target => exact State.isTerminal_apply_decide target ih
    | _ => exact ih

theorem replay_of_finished (later : List Record) (hfinished : replay journal = .finished) :
    replay (journal ++ later) = .finished := by
  apply (replay_of_absorbing later ?_).trans hfinished
  rw [hfinished]
  exact State.apply_decide_of_finished

theorem replay_of_failed (later : List Record) (hfailed : replay journal = .failed) :
    replay (journal ++ later) = .failed := by
  apply (replay_of_absorbing later ?_).trans hfailed
  rw [hfailed]
  exact State.apply_decide_of_failed

theorem replay_of_failureTook (hfaithful : Faithful journal) (htook : FailureTook journal) :
    replay journal = .failed := by
  obtain ⟨before, thread, cause, middle, current, after, rfl, -, hcurrent⟩ := htook
  have hstate := hfaithful _ _ _ rfl current .failed rfl
  rw [List.append_cons]
  apply replay_of_failed
  rw [replay_append]
  exact (State.apply_decide_eq_failed_iff _).mpr (.inr ⟨rfl, hstate ▸ hcurrent⟩)

theorem replay_eq_failed_iff (hfaithful : Faithful journal) (hpaired : Paired journal) :
    replay journal = .failed ↔ FailureTook journal :=
  ⟨failureTook_of_replay hfaithful hpaired, replay_of_failureTook hfaithful⟩

theorem cancellationTook_of_replay (hfaithful : Faithful journal)
    (hcancelled : replay journal = .cancellationRequested ∨ replay journal = .cancelled) :
    CancellationTook journal := by
  induction journal using List.reverseRecOn with
  | nil => rcases hcancelled with h | h <;> cases h
  | append_singleton journal record ih =>
    obtain ⟨thread, entry⟩ := record
    rw [replay_append] at hcancelled
    cases entry with
    | requested current target =>
      rcases State.cancelled_of_apply_decide target hcancelled with hold | ⟨rfl, haccepted⟩
      · exact cancellationTook_append _ (ih hfaithful.init hold)
      · refine ⟨⟨thread, _⟩, by simp, current, rfl, ?_⟩
        rw [hfaithful.last current .cancellationRequested rfl]
        exact haccepted
    | _ => exact cancellationTook_append _ (ih hfaithful.init hcancelled)

theorem replay_of_cancellationTook (hfaithful : Faithful journal)
    (htook : CancellationTook journal) :
    replay journal = .cancellationRequested ∨ replay journal = .cancelled ∨
      replay journal = .failed := by
  induction journal using List.reverseRecOn with
  | nil =>
    obtain ⟨record, hmem, -⟩ := htook
    cases hmem
  | append_singleton journal record ih =>
    obtain ⟨request, hmem, current, hentry, haccepted⟩ := htook
    obtain ⟨thread, entry⟩ := record
    rw [replay_append]
    rcases List.mem_append.mp hmem with hold | hlast
    · have hbefore := ih hfaithful.init ⟨request, hold, current, hentry, haccepted⟩
      cases entry with
      | requested => exact State.apply_decide_cancelled _ hbefore
      | _ => exact hbefore
    · obtain rfl := List.mem_singleton.mp hlast
      obtain rfl : entry = _ := hentry
      have hstate := hfaithful.last current .cancellationRequested rfl
      left
      simp only [Entry.apply, ← hstate, haccepted, Decision.apply]

/-- Where the replay is terminal, it is told by what took. -/
theorem replay_terminal (hfaithful : Faithful journal) (hpaired : Paired journal)
    (hterminal : (replay journal).isTerminal = true) :
    (replay journal = .failed ↔ FailureTook journal) ∧
      (replay journal = .cancelled ↔ ¬ FailureTook journal ∧ CancellationTook journal) ∧
      (replay journal = .finished ↔ ¬ FailureTook journal ∧ ¬ CancellationTook journal) := by
  have hfailed := replay_eq_failed_iff hfaithful hpaired
  have hcancelled := cancellationTook_of_replay hfaithful
  have htook := replay_of_cancellationTook hfaithful
  refine ⟨hfailed, ?_, ?_⟩ <;> rw [← hfailed]
  · constructor
    · intro hstate
      exact ⟨by simp [hstate], hcancelled (.inr hstate)⟩
    · rintro ⟨hnot, hcancellation⟩
      rcases htook hcancellation with h | h | h
      · simp [h, State.isTerminal] at hterminal
      · exact h
      · exact absurd h hnot
  · constructor
    · intro hstate
      refine ⟨by simp [hstate], fun hcancellation => ?_⟩
      rcases htook hcancellation with h | h | h <;> simp [h] at hstate
    · rintro ⟨hnot, hnone⟩
      cases hstate : replay journal with
      | finished => rfl
      | failed => exact absurd hstate hnot
      | cancelled => exact absurd (hcancelled (.inr hstate)) hnone
      | _ => simp [hstate, State.isTerminal] at hterminal

end Replay

theorem Transition.state_eq_replay {view : LockView} {thread : ThreadId} {id : ExecutorId}
    {frame : Frame} {signal : Signal} {executor executor' : Executor} {next : Next}
    (htransition : Transition view thread id frame signal executor next executor')
    (hstate : executor.state = replay executor.journal) :
    executor'.state = replay executor'.journal := by
  cases htransition
  case aside hsame =>
    rw [hsame.state, hstate]
    rcases hsame.journal with hjournal | ⟨receiver, hjournal⟩ <;> simp [hjournal, Entry.apply]
  case callProceeds hsame hjournal => rw [hsame.state, hjournal, hstate]
  case drains hcauses =>
    have hkept := Lifecycle.state_of_drain hcauses
    simpa [Entry.apply, Executor.state, hkept] using hstate
  all_goals first
  | exact hstate
  | simp [Entry.apply, hstate]

/-! ## Journals of reachable systems -/

namespace System

section Journals

variable {fragments : List Fragment} {host : Host} {permitted : Command → Prop}
  {system : System} {id : ExecutorId}

theorem ReachableUnder.state_eq_replay
    (hreach : (ofFragments fragments host).ReachableUnder permitted system) (id : ExecutorId) :
    (system.executor id).state = replay (system.executor id).journal :=
  hreach.always id (fun executor => executor.state = replay executor.journal) (fun _ => rfl)
    fun _ _ htransition hstate => htransition.state_eq_replay hstate

theorem ReachableUnder.faithful
    (hreach : (ofFragments fragments host).ReachableUnder permitted system) (id : ExecutorId) :
    Faithful (system.executor id).journal := by
  refine hreach.consistent id _ fun {system after thread frame rest next} hreach _ entry hwrites
    current target hentry => ?_
  rw [← hreach.state_eq_replay id]
  exact hwrites.current_eq hentry

theorem ReachableUnder.paired
    (hreach : (ofFragments fragments host).ReachableUnder permitted system) (id : ExecutorId) :
    Paired (system.executor id).journal := by
  refine hreach.consistent id _ fun {system after thread frame rest next} hreach hadvance entry
    hwrites current hentry => ?_
  cases hwrites with
  | failure =>
    obtain ⟨earlier, middle, hjournal, hmiddle⟩ :=
      hreach.cause_of_failure (hadvance.frames ▸ List.mem_cons_self)
    exact ⟨earlier, _, middle, hjournal, hmiddle⟩
  | _ => cases hentry

end Journals

end System

end FragmentLifecycle
