import FragmentLifecycle.Proofs.Growth

/-!
# Histories of a lifecycle

The calls made on a new lifecycle, one after another.  States have ranks, and a call either
leaves the state alone or takes it to a higher rank, so few calls are ever accepted
(`Lifecycle.rank_add_countP_isAccepted`).  What one call may do is said once, by
`Lifecycle.Step.IsLawful`, and every call of every history keeps to it.
-/

namespace FragmentLifecycle

/-- How far a fragment is.  Sending stands beside running, and both ways to stop without a
failure are equally far. -/
def State.rank : State → Nat
  | .awaitingAllocation => 0
  | .running | .sending => 1
  | .cancellationRequested => 2
  | .cancelled | .finished => 3
  | .failed => 4

/-- The states that are announced as soon as they are accepted. -/
def State.isAnnounced : State → Bool
  | .running | .cancellationRequested => true
  | _ => false

def Decision.isAccepted : Decision → Bool
  | .accept _ _ => true
  | _ => false

namespace State

variable (current target : State)

theorem rank_le_four : current.rank ≤ 4 := by
  cases current <;> decide

theorem isAccepted_decide_iff :
    (current.decide target).isAccepted = true ↔
      (current.decide target).apply current ≠ current := by
  cases current <;> cases target <;> decide

theorem rank_lt_of_isAccepted (haccepted : (current.decide target).isAccepted = true) :
    current.rank < ((current.decide target).apply current).rank := by
  revert haccepted
  cases current <;> cases target <;> decide

/-- A cancelled state is only ever left over from before, or where a finish meets a
cancellation. -/
theorem eq_cancellationRequested_of_cancelled
    (hcancelled : (current.decide target).apply current = .cancelled) :
    current = .cancelled ∨ target = .finished ∧ current = .cancellationRequested := by
  revert hcancelled
  cases current <;> cases target <;> decide

theorem apply_decide_of_isTerminal (hterminal : current.isTerminal = true) :
    (current.decide target).apply current = current ∨
      current = .cancelled ∧ (current.decide target).apply current = .failed := by
  revert hterminal
  cases current <;> cases target <;> decide

end State

namespace Lifecycle

/-- What is answered to a request says whether the request was accepted. -/
theorem changed_effectOf_iff (current target : State) (decision : Decision) :
    (effectOf current target decision).changed = .ok true ↔ decision.isAccepted = true := by
  cases decision with
  | accept state notify => cases notify <;> simp [effectOf, Decision.isAccepted]
  | ignore warn => simp [effectOf, Decision.isAccepted]
  | invalid => simp [effectOf, Decision.isAccepted]

/-- What is announced is an accepted state that is announced at once. -/
theorem announced_effectOf (current target : State) :
    (effectOf current target (current.decide target)).announced =
      if (current.decide target).isAccepted &&
          ((current.decide target).apply current).isAnnounced then
        some ((current.decide target).apply current)
      else none := by
  cases current <;> cases target <;> rfl

/-- The state that a call asks for. -/
def Call.target : Call → State
  | .request target => target
  | .fail _ => .failed

/-- The cause that a call records. -/
def Call.cause? : Call → Option Fault
  | .request _ => none
  | .fail cause => some cause

/-- A call with its effect, and the lifecycle before and after it. -/
structure Step where
  call : Call
  before : Lifecycle
  effect : Effect
  after : Lifecycle

namespace Step

def isAccepted (step : Step) : Bool :=
  (step.before.state.decide step.call.target).isAccepted

/-- What a call may do. -/
structure IsLawful (step : Step) : Prop where
  not_sending : step.after.state ≠ .sending
  cancelled : step.after.state = .cancelled → step.before.state = .cancelled ∨
    step.call = .request .finished ∧ step.before.state = .cancellationRequested
  terminal : step.before.state.isTerminal = true →
    step.after.state = step.before.state ∨
      step.before.state = .cancelled ∧ step.after.state = .failed
  forward : step.isAccepted = true → step.before.state.rank < step.after.state.rank
  changed : step.effect.changed = .ok true ↔ step.after.state ≠ step.before.state
  accepted : step.isAccepted = true ↔ step.effect.changed = .ok true
  refused : ∀ target, step.call = .request target → step.isAccepted = false →
    step.after = step.before ∧ step.effect.announced = none
  announced : step.effect.announced =
    if step.isAccepted && step.after.state.isAnnounced then some step.after.state else none
  causes : step.after.failures.pending = step.before.failures.pending ++ step.call.cause?.toList
  fail : ∀ cause, step.call = .fail cause → step.effect.announced = none

end Step

section Step

variable (lifecycle : Lifecycle) (call : Call)

/-- A call made now. -/
def step : Step :=
  ⟨call, lifecycle, (lifecycle.perform call).1, (lifecycle.perform call).2⟩

theorem state_after_step :
    (lifecycle.step call).after.state =
      (lifecycle.state.decide call.target).apply lifecycle.state := by
  cases call <;> rfl

theorem effect_step :
    (lifecycle.step call).effect =
      effectOf lifecycle.state call.target (lifecycle.state.decide call.target) := by
  cases call <;> rfl

theorem pending_after_step :
    (lifecycle.step call).after.failures.pending =
      lifecycle.failures.pending ++ call.cause?.toList := by
  cases call with
  | request target => exact (List.append_nil _).symm
  | fail cause => rfl

theorem isAccepted_step_iff :
    (lifecycle.step call).isAccepted = true ↔
      (lifecycle.step call).after.state ≠ lifecycle.state := by
  rw [state_after_step]
  exact State.isAccepted_decide_iff lifecycle.state call.target

/-- A call that is not accepted leaves the state alone. -/
theorem state_of_not_isAccepted (hrefused : (lifecycle.step call).isAccepted = false) :
    (lifecycle.step call).after.state = lifecycle.state := by
  by_contra hchanged
  rw [(isAccepted_step_iff lifecycle call).mpr hchanged] at hrefused
  cases hrefused

theorem announced_step :
    (lifecycle.step call).effect.announced =
      if (lifecycle.step call).isAccepted && (lifecycle.step call).after.state.isAnnounced then
        some (lifecycle.step call).after.state
      else none := by
  rw [effect_step, state_after_step]
  exact announced_effectOf lifecycle.state call.target

variable {lifecycle}

/-- Every call keeps to the law, unless the fragment is sending. -/
theorem isLawful_step (hsending : lifecycle.state ≠ .sending) :
    (lifecycle.step call).IsLawful where
  not_sending := by
    rw [state_after_step]
    exact State.apply_decide_ne_sending call.target hsending
  cancelled := by
    intro hcancelled
    rw [state_after_step] at hcancelled
    rcases State.eq_cancellationRequested_of_cancelled _ _ hcancelled with
      hbefore | ⟨htarget, hbefore⟩
    · exact .inl hbefore
    · cases call with
      | request target => exact .inr ⟨congrArg Call.request htarget, hbefore⟩
      | fail cause => cases htarget
  terminal := by
    rw [state_after_step]
    exact State.apply_decide_of_isTerminal lifecycle.state call.target
  forward := by
    rw [state_after_step]
    exact State.rank_lt_of_isAccepted lifecycle.state call.target
  changed := by
    rw [effect_step, changed_effectOf_iff]
    exact isAccepted_step_iff lifecycle call
  accepted := by
    rw [effect_step, changed_effectOf_iff]
    rfl
  refused := by
    rintro target rfl hrefused
    refine ⟨?_, ?_⟩
    · exact congrArg (Lifecycle.mk · lifecycle.failures)
        (state_of_not_isAccepted lifecycle (.request target) hrefused)
    · rw [announced_step, hrefused]
      rfl
  announced := announced_step lifecycle call
  causes := pending_after_step lifecycle call
  fail := by
    rintro cause rfl
    rw [announced_step, state_after_step]
    rcases lifecycle with ⟨state, failures⟩
    cases state <;> rfl

end Step

/-- Calls made one after another. -/
def history : Lifecycle → List Call → List Step
  | _, [] => []
  | lifecycle, call :: rest => lifecycle.step call :: (lifecycle.step call).after.history rest

/-- The lifecycle after calls made one after another. -/
def afterAll (lifecycle : Lifecycle) (calls : List Call) : Lifecycle :=
  calls.foldl (fun current call => (current.perform call).2) lifecycle

section History

variable (lifecycle : Lifecycle) (calls : List Call)

/-- A history is what the calls answer, with the lifecycle after each. -/
theorem history_performAll :
    (lifecycle.history calls).map (fun step => (step.effect, step.after)) =
      lifecycle.performAll calls := by
  induction calls generalizing lifecycle with
  | nil => rfl
  | cons call rest ih => exact congrArg (_ :: ·) (ih _)

/-- Every accepted call costs a rank. -/
theorem rank_add_countP_isAccepted :
    lifecycle.state.rank + (lifecycle.history calls).countP Step.isAccepted ≤
      (lifecycle.afterAll calls).state.rank := by
  induction calls generalizing lifecycle with
  | nil => exact Nat.le_refl _
  | cons call rest ih =>
      have hrest := ih (lifecycle.step call).after
      change _ ≤ ((lifecycle.step call).after.afterAll rest).state.rank
      rw [history, List.countP_cons]
      split
      next haccepted =>
        have hforward : lifecycle.state.rank < (lifecycle.step call).after.state.rank := by
          rw [state_after_step]
          exact State.rank_lt_of_isAccepted lifecycle.state call.target haccepted
        omega
      next hrefused =>
        rw [state_of_not_isAccepted lifecycle call (Bool.eq_false_iff.mpr hrefused)] at hrest
        omega

/-- What is announced over a history, in order. -/
theorem announced_history :
    (lifecycle.history calls).filterMap (·.effect.announced) =
      (((lifecycle.history calls).filter Step.isAccepted).map (·.after.state)).filter
        State.isAnnounced := by
  induction calls generalizing lifecycle with
  | nil => rfl
  | cons call rest ih =>
      rw [history, List.filterMap_cons, announced_step, List.filter_cons, ih]
      cases (lifecycle.step call).isAccepted with
      | false => rfl
      | true =>
          rw [if_pos rfl, List.map_cons, List.filter_cons]
          cases (lifecycle.step call).after.state.isAnnounced <;> rfl

/-- The causes that wait after a history are those from before it and those of its
calls. -/
theorem pending_afterAll :
    (lifecycle.afterAll calls).failures.pending =
      lifecycle.failures.pending ++ calls.filterMap Call.cause? := by
  induction calls generalizing lifecycle with
  | nil => exact (List.append_nil _).symm
  | cons call rest ih =>
      refine (ih (lifecycle.step call).after).trans ?_
      rw [pending_after_step, List.append_assoc]
      cases call <;> rfl

/-- Nothing is asked of a finished or failed fragment that would change its state. -/
theorem state_afterAll_of_ended
    (hended : lifecycle.state = .finished ∨ lifecycle.state = .failed) :
    (lifecycle.afterAll calls).state = lifecycle.state := by
  induction calls generalizing lifecycle with
  | nil => rfl
  | cons call rest ih =>
      have hkept : (lifecycle.step call).after.state = lifecycle.state := by
        rw [state_after_step]
        rcases hended with hfinished | hfailed
        · rw [hfinished]
          exact State.apply_decide_of_finished call.target
        · rw [hfailed]
          exact State.apply_decide_of_failed call.target
      refine (ih (lifecycle.step call).after ?_).trans hkept
      rwa [hkept]

theorem isLawful_of_mem_history {lifecycle : Lifecycle} (hsending : lifecycle.state ≠ .sending)
    {calls : List Call} {step : Step} (hstep : step ∈ lifecycle.history calls) :
    step.IsLawful := by
  induction calls generalizing lifecycle with
  | nil => cases hstep
  | cons call rest ih =>
      have hlawful := isLawful_step call hsending
      rcases List.mem_cons.mp hstep with rfl | hlater
      · exact hlawful
      · exact ih hlawful.not_sending hlater

end History

/-- The calls on a new lifecycle: each keeps to the law, a finished or failed state is kept
by all that follow, at most four are accepted, exactly the accepted states that are announced
at once are announced, in order, and exactly the causes of failures are recorded, in order. -/
theorem requests_move_forward (calls : List Call) :
    (({} : Lifecycle).history calls).map (fun step => (step.effect, step.after)) =
        ({} : Lifecycle).performAll calls ∧
      (∀ step ∈ ({} : Lifecycle).history calls, step.IsLawful) ∧
      (∀ later, (({} : Lifecycle).afterAll calls).state = .finished ∨
          (({} : Lifecycle).afterAll calls).state = .failed →
        (({} : Lifecycle).afterAll (calls ++ later)).state =
          (({} : Lifecycle).afterAll calls).state) ∧
      (({} : Lifecycle).history calls).countP Step.isAccepted ≤ 4 ∧
      (({} : Lifecycle).history calls).filterMap (·.effect.announced) =
        (((({} : Lifecycle).history calls).filter Step.isAccepted).map (·.after.state)).filter
          State.isAnnounced ∧
      (({} : Lifecycle).afterAll calls).failures.pending = calls.filterMap Call.cause? := by
  refine ⟨history_performAll {} calls, ?_, ?_, ?_, announced_history {} calls, ?_⟩
  · exact fun step hstep => isLawful_of_mem_history State.noConfusion hstep
  · intro later hended
    rw [afterAll, List.foldl_append]
    exact state_afterAll_of_ended (({} : Lifecycle).afterAll calls) later hended
  · have hranks := rank_add_countP_isAccepted {} calls
    have hbound := State.rank_le_four (({} : Lifecycle).afterAll calls).state
    omega
  · exact pending_afterAll {} calls

/-- Four calls can be accepted. -/
example : (({} : Lifecycle).history [.request .running, .request .cancellationRequested,
    .request .finished, .fail (.message "late"), .request .finished]).countP
      Step.isAccepted = 4 := by
  decide

end Lifecycle

end FragmentLifecycle
