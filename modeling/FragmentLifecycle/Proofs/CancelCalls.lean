import FragmentLifecycle.Proofs.Cancellation
import FragmentLifecycle.Proofs.Returns

/-!
# Calls that cancel

A fragment is cancelled directly, under its handle, with all hosted fragments, on the
departure of its foreman, or where no thread could be started for it.  Each of these calls
cancels one fragment after the other and passes a panic on.  So when it returns, all the
fragments that it was to cancel have stopped (`System.stopped_of_returns`).
-/

namespace FragmentLifecycle

/-- The executors whose foreman is among `nodes`. -/
def NodeSet.orphans (nodes : NodeSet) (watches : List Watch) : List ExecutorId :=
  (watches.filter fun watch => watch.foreman ∈ nodes).map Watch.executor

/-- The fragments that a call under way has yet to cancel. -/
def Frame.pending : Frame → List ExecutorId
  | .cancel id _ => [id]
  | .host _ (.walk ids) => ids
  | .depart nodes (.walk watches) | .depart nodes (.cancelling watches) => nodes.orphans watches
  | _ => []

/-- The fragments that a call cancels when it takes its next step in `world`. -/
def Frame.cancels (world : World) : Frame → List ExecutorId
  | .perform id .cancel .start | .start id _ .withdraw => [id]
  | .host (.cancel handle) .start => (world.host.executor? handle).toList
  | .host (.cancelAll order) .start => (world.host.listing order).map Prod.snd
  | .depart nodes .snapshot => nodes.orphans world.registry.snapshot
  | frame => frame.pending

theorem Frame.cancels_walk (world : World) (call : HostCall) (ids : List ExecutorId) :
    (Frame.host call (.walk ids)).cancels world = ids := by
  cases call <;> rfl

/-- The stack of a call that has `id` yet to cancel, that cancels it, or that a panic of the
cancellation has come back to. -/
inductive Cancelling (id : ExecutorId) : List Frame → Signal → Prop
  | due {above frame signal} (hpending : id ∈ frame.pending) :
      Cancelling id (above ++ [frame]) signal
  | called {above point caller signal} (hcaller : caller.Awaits (.cancel id)) :
      Cancelling id (above ++ [.cancel id point, caller]) signal
  | unwinding {caller payload} (hcaller : caller.Awaits (.cancel id)) :
      Cancelling id [caller] (.raised payload)

theorem Cancelling.ne_nil {id : ExecutorId} {stack : List Frame} {signal : Signal}
    (hcancelling : Cancelling id stack signal) : stack ≠ [] := by
  cases hcancelling <;> simp

theorem NodeSet.mem_orphans_cons {nodes : NodeSet} {watch : Watch} {watches : List Watch}
    {id : ExecutorId} :
    id ∈ nodes.orphans (watch :: watches) ↔
      (watch.foreman ∈ nodes ∧ watch.executor = id) ∨ id ∈ nodes.orphans watches := by
  by_cases hforeman : watch.foreman ∈ nodes <;> simp [orphans, hforeman, eq_comm]

theorem Frame.mem_cancels_of_pending {frame : Frame} {id : ExecutorId}
    (hpending : id ∈ frame.pending) (world : World) : id ∈ frame.cancels world := by
  unfold Frame.cancels
  split <;> first | exact hpending | cases hpending

section Steps

variable {world after : World} {view : LockView} {thread : ThreadId} {id : ExecutorId}
  {frame : Frame} {signal : Signal} {next : Next}

/-- A panic of a cancellation is passed on. -/
theorem Frame.Awaits.unwinds {payload : Payload} (hawaits : frame.Awaits (.cancel id))
    (hstep : frame.step world view thread (.raised payload) = some (after, next)) :
    next = .raise payload := by
  generalize hrole : Role.cancel id = role at hawaits
  cases hawaits with
  | departure | withdrawal | entry | hostCancel | hostWalk =>
    simp only [Frame.step, stepDepart, stepStart, stepPerform, stepHost, Option.some.injEq,
      Prod.mk.injEq] at hstep
    exact hstep.2.symm
  | _ => cases hrole

private theorem Cancelling.of_call {caller callee : Frame}
    (hcancels : (callee = .cancel id .lockSetup ∧ caller.Awaits (.cancel id)) ∨
      id ∈ caller.pending) : Cancelling id [callee, caller] .go := by
  rcases hcancels with ⟨rfl, hcaller⟩ | hpending
  · exact @Cancelling.called id [] .lockSetup caller .go hcaller
  · exact @Cancelling.due id [callee] caller .go hpending

private theorem step_depart_cancels {nodes : NodeSet} {point : DepartPoint}
    (hstep : stepDepart world nodes point signal = some (after, next))
    (hcancels : id ∈ (Frame.depart nodes point).cancels world)
    (hreleased : (world.executors id).released = false) :
    Cancelling id next.frames next.signal ∨ ∃ payload, next = .raise payload := by
  revert hstep
  fun_cases stepDepart world nodes point signal
  all_goals
    intro hstep
    simp only [reduceCtorEq, Option.some.injEq, Prod.mk.injEq] at hstep
  all_goals
    obtain ⟨-, rfl⟩ := hstep
  case case1 => cases hcancels
  case case2 => exact .inl (@Cancelling.due id [] _ _ hcancels)
  case case3 => cases hcancels
  case case4 watch rest executor hcancelled =>
    refine .inl (Cancelling.of_call ?_)
    rcases NodeSet.mem_orphans_cons.mp hcancels with ⟨-, rfl⟩ | hrest
    · exact .inl ⟨rfl, .departure⟩
    · exact .inr hrest
  case case5 watch rest executor hskipped =>
    rcases NodeSet.mem_orphans_cons.mp hcancels with ⟨hforeman, rfl⟩ | hrest
    · exact absurd ⟨hforeman, hreleased⟩ hskipped
    · exact .inl (@Cancelling.due id [] _ _ hrest)
  case case6 => exact .inl (@Cancelling.due id [] _ _ hcancels)
  case case7 => exact .inr ⟨_, rfl⟩

private theorem step_host_cancels {call : HostCall} {point : HostPoint}
    (hstep : stepHost world call point signal = some (after, next))
    (hcancels : id ∈ (Frame.host call point).cancels world) :
    Cancelling id next.frames next.signal ∨ ∃ payload, next = .raise payload := by
  cases point with
  | start =>
    cases signal with
    | go =>
      simp only [stepHost, Option.some.injEq] at hstep
      cases call with
      | cancel handle =>
        have hfound : world.host.executor? handle = some id := by
          simpa [Frame.cancels] using hcancels
        simp only [startHostCall, hfound] at hstep
        obtain ⟨-, rfl⟩ := Prod.mk.inj hstep
        exact .inl (.of_call (.inl ⟨rfl, .hostCancel⟩))
      | cancelAll =>
        obtain ⟨-, rfl⟩ := Prod.mk.inj hstep
        exact .inl (@Cancelling.due id [] _ _ hcancels)
      | _ => cases hcancels
    | _ => cases hstep
  | walk ids =>
    rw [Frame.cancels_walk] at hcancels
    cases signal with
    | go =>
      cases ids with
      | nil => cases hcancels
      | cons first rest =>
        simp only [stepHost, Option.some.injEq, Prod.mk.injEq] at hstep
        obtain ⟨-, rfl⟩ := hstep
        refine .inl (.of_call ?_)
        rcases List.mem_cons.mp hcancels with rfl | hrest
        · exact .inl ⟨rfl, .hostWalk⟩
        · exact .inr hrest
    | replied reply =>
      simp only [stepHost, Option.some.injEq, Prod.mk.injEq] at hstep
      obtain ⟨-, rfl⟩ := hstep
      exact .inl (@Cancelling.due id [] _ _ hcancels)
    | raised payload =>
      simp only [stepHost, Option.some.injEq, Prod.mk.injEq] at hstep
      exact .inr ⟨_, hstep.2.symm⟩
  | _ => cases call <;> cases hcancels

/-- A call goes on to cancel what it is to cancel, or a panic ends it.  How a cancellation
goes on is not told. -/
theorem Frame.step_cancels (hstep : frame.step world view thread signal = some (after, next))
    (hcancels : id ∈ frame.cancels world) (hreleased : (world.executors id).released = false) :
    (∃ point, frame = .cancel id point) ∨ Cancelling id next.frames next.signal ∨
      ∃ payload, next = .raise payload := by
  cases frame with
  | cancel owner point =>
    obtain rfl : id = owner := List.mem_singleton.mp hcancels
    exact .inl ⟨point, rfl⟩
  | depart nodes point => exact .inr (step_depart_cancels hstep hcancels hreleased)
  | host call point => exact .inr (step_host_cancels hstep hcancels)
  | perform owner action point =>
    cases action with
    | cancel =>
      cases point with
      | start =>
        obtain rfl : id = owner := List.mem_singleton.mp hcancels
        cases signal with
        | go =>
          simp only [Frame.step, stepPerform, startAction, Option.some.injEq, Prod.mk.injEq]
            at hstep
          obtain ⟨-, rfl⟩ := hstep
          exact .inr (.inl (.of_call (.inl ⟨rfl, .entry rfl⟩)))
        | _ => cases hstep
      | _ => cases hcancels
    | _ => cases point <;> cases hcancels
  | start owner refusal point =>
    cases point with
    | withdraw =>
      obtain rfl : id = owner := List.mem_singleton.mp hcancels
      cases signal with
      | go =>
        simp only [Frame.step, stepStart, Option.some.injEq, Prod.mk.injEq] at hstep
        obtain ⟨-, rfl⟩ := hstep
        exact .inr (.inl (.of_call (.inl ⟨rfl, .withdrawal⟩)))
      | _ => cases hstep
    | _ => cases hcancels
  | _ => cases hcancels

end Steps

section Transitions

variable {view : LockView} {thread : ThreadId} {id : ExecutorId} {frame : Frame}
  {signal : Signal} {executor executor' : Executor} {next : Next}

/-- A cancellation goes on, is ended by a panic, or returns from its last point. -/
theorem Transition.cancel_cases {point : CancelPoint}
    (htransition : Transition view thread id (.cancel id point) signal executor next executor') :
    (∃ above point', next.frames = above ++ [.cancel id point']) ∨
      (∃ payload, next = .raise payload) ∨ point = .wake := by
  cases htransition
  case aside houtside _ _ => simp [Frame.isCore] at houtside
  case cancelCloseUnwinds | cancelReportUnwinds => exact .inr (.inl ⟨_, rfl⟩)
  case cancelEnds => exact .inr (.inr rfl)
  case cancelCloses | cancelAccepted => exact .inl ⟨[_], _, rfl⟩
  all_goals exact .inl ⟨[], _, rfl⟩

/-- No frame lets go of an executor. -/
theorem Transition.released_eq
    (htransition : Transition view thread id frame signal executor next executor') :
    executor'.released = executor.released := by
  cases htransition
  case aside hsame => exact hsame.released
  case callProceeds hsame _ => exact hsame.released
  all_goals rfl

end Transitions

namespace System

/-- The fragment has stopped, or its cancellation is due in the call that stands on `rest`. -/
def IsStopping (system : System) (id : ExecutorId) (thread : ThreadId) (rest : List Frame) : Prop :=
  (system.executor id).state.continues = false ∨
    ∃ stack, system.frames thread = stack ++ rest ∧ Cancelling id stack (system.signal thread)

section Calls

variable {fragments : List Fragment} {host : Host} {permitted : Command → Prop}
  {start system after : System} {id : ExecutorId} {thread : ThreadId} {frame : Frame}
  {rest below : List Frame} {next : Next}

theorem ReachableUnder.not_released
    (hreach : (ofFragments fragments host).ReachableUnder permitted system) (id : ExecutorId) :
    (system.executor id).released = false := by
  refine hreach.always id (fun executor => executor.released = false) (fun _ => rfl) ?_
  intro system after thread frame rest next _ _ htransition hbefore
  exact htransition.released_eq.trans hbefore

/-- A cancellation goes on, is ended by a panic, or has stopped its fragment. -/
theorem Advance.cancel_cases
    (hreach : (ofFragments fragments host).ReachableUnder permitted system) {point : CancelPoint}
    (hadvance : system.Advance after thread (.cancel id point) rest next) :
    (after.executor id).state.continues = false ∨
      (∃ above point', next.frames = above ++ [.cancel id point']) ∨
        ∃ payload, next = .raise payload := by
  have htransition := Frame.step_transition id hadvance.step
  rcases htransition.cancel_cases with hframes | hraised | rfl
  · exact .inr (.inl hframes)
  · exact .inr (.inr hraised)
  · have hstopped := (hreach.released_of_cancel (hadvance.frames ▸ List.mem_cons_self)).2 rfl
    exact .inl (htransition.grows.stopped hstopped)

/-- What becomes of the cancellation of `id` by a step of the call that is to make it. -/
theorem Advance.cancelling_of_cancels
    (hreach : (ofFragments fragments host).ReachableUnder permitted system)
    (hadvance : system.Advance after thread frame rest next)
    (hcancels : id ∈ frame.cancels system.world) :
    (after.executor id).state.continues = false ∨ Cancelling id next.frames next.signal ∨
      ∃ payload, next = .raise payload := by
  rcases Frame.step_cancels hadvance.step hcancels (hreach.not_released id) with
    ⟨point, rfl⟩ | hcancelling
  · refine (hadvance.cancel_cases hreach).imp_right (Or.imp_left ?_)
    rintro ⟨above, point', hframes⟩
    rw [hframes]
    exact .due (List.mem_singleton_self id)
  · exact .inr hcancelling

/-- The same for a step of any frame of the call, which stands on `rest`. -/
theorem Advance.cancelling_of_cancelling
    (hreach : (ofFragments fragments host).ReachableUnder permitted system)
    (hadvance : system.Advance after thread frame (below ++ rest) next)
    (hcancelling : Cancelling id (frame :: below) (system.signal thread)) :
    (after.executor id).state.continues = false ∨
      Cancelling id (next.frames ++ below) next.signal ∨
        (below = [] ∧ ∃ payload, next = .raise payload) := by
  generalize hstack : frame :: below = stack, hsignal : system.signal thread = signal
    at hcancelling
  cases hcancelling with
  | @due above outer _ hpending =>
    cases above with
    | nil =>
      obtain ⟨rfl, rfl⟩ := List.cons.inj hstack
      simpa using hadvance.cancelling_of_cancels hreach (Frame.mem_cancels_of_pending hpending _)
    | cons top above =>
      rw [List.cons_append] at hstack
      obtain ⟨rfl, rfl⟩ := List.cons.inj hstack
      rw [← List.append_assoc]
      exact .inr (.inl (.due hpending))
  | @called above point caller _ hcaller =>
    cases above with
    | nil =>
      obtain ⟨rfl, rfl⟩ := List.cons.inj hstack
      rcases hadvance.cancel_cases hreach with hstopped | ⟨above, point', hframes⟩ | ⟨payload, rfl⟩
      · exact .inl hstopped
      · rw [hframes, List.append_assoc]
        exact .inr (.inl (.called hcaller))
      · exact .inr (.inl (.unwinding hcaller))
    | cons top above =>
      rw [List.cons_append] at hstack
      obtain ⟨rfl, rfl⟩ := List.cons.inj hstack
      rw [← List.append_assoc]
      exact .inr (.inl (.called hcaller))
  | unwinding hcaller =>
    obtain ⟨rfl, rfl⟩ := List.cons.inj hstack
    have hstep := hadvance.step
    rw [hsignal] at hstep
    exact .inr (.inr ⟨rfl, _, hcaller.unwinds hstep⟩)

/-- The call goes on with the cancellation, or a panic ends the call. -/
theorem IsStopping.advance
    (hreach : (ofFragments fragments host).ReachableUnder permitted system)
    (hstopping : system.IsStopping id thread rest)
    (hadvance : system.Advance after thread frame below next) :
    after.IsStopping id thread rest ∨
      (after.frames thread = rest ∧ ∃ payload, after.signal thread = .raised payload) := by
  rcases hstopping with hstopped | ⟨stack, hframes, hcancelling⟩
  · exact .inl (.inl ((Frame.step_transition id hadvance.step).grows.stopped hstopped))
  · obtain ⟨top, beneath, rfl⟩ := List.exists_cons_of_ne_nil hcancelling.ne_nil
    obtain ⟨rfl, rfl⟩ := List.cons.inj (hadvance.frames.symm.trans hframes)
    rcases hadvance.cancelling_of_cancelling hreach hcancelling with
      hstopped | hstill | ⟨rfl, payload, rfl⟩
    · exact .inl (.inl hstopped)
    · rw [← hadvance.ownSignal] at hstill
      exact .inl (.inr ⟨_, hadvance.own.trans (List.append_assoc _ _ _).symm, hstill⟩)
    · exact .inr ⟨hadvance.own, payload, hadvance.ownSignal⟩

/-- The moves of other threads leave the call as it is. -/
theorem IsStopping.beside {mover : ThreadId} (hstopping : system.IsStopping id thread rest)
    (hadvance : system.Advance after mover frame below next) (hthread : thread ≠ mover) :
    after.IsStopping id thread rest := by
  rcases hstopping with hstopped | ⟨stack, hframes, hcancelling⟩
  · exact .inl ((Frame.step_transition id hadvance.step).grows.stopped hstopped)
  · have hbusy : system.frames thread ≠ [] := by simp [hframes, hcancelling.ne_nil]
    obtain ⟨hsame, hsignal⟩ := hadvance.same_of_busy hthread hbusy
    exact .inr ⟨stack, hsame.trans hframes, hsignal ▸ hcancelling⟩

theorem IsStopping.turnover {mover : ThreadId} {root : Frame}
    (hstopping : system.IsStopping id thread rest)
    (hturn : system.Turnover after mover root) (hstill : after.frames thread ≠ []) :
    after.IsStopping id thread rest := by
  rcases hstopping with hstopped | ⟨stack, hframes, hcancelling⟩
  · left
    rw [hturn.executor_eq]
    exact hstopped
  · have hbusy : system.frames thread ≠ [] := by simp [hframes, hcancelling.ne_nil]
    obtain ⟨hsame, hsignal⟩ :=
      (hturn.same_of_busy hbusy).resolve_right fun hgone => hstill hgone.2
    exact .inr ⟨stack, hsame.trans hframes, hsignal ▸ hcancelling⟩

/-- While a call is under way, the fragment that it is to cancel is stopping. -/
theorem IsStopping.above (hreach : (ofFragments fragments host).Reachable start)
    (hstart : start.IsStopping id thread rest)
    (habove : start.Above thread rest.length system) : system.IsStopping id thread rest := by
  induction habove with
  | refl => exact hstart
  | @move system after move habove hmove hheight ih =>
    have hreach := (hreach.above habove).unrestricted
    rcases advance_or_turnover hmove with
      ⟨mover, frame, beneath, next, hadvance⟩ | ⟨mover, root, hturn⟩
    · by_cases hthread : thread = mover
      · subst hthread
        rcases ih.advance hreach hadvance with hstill | ⟨hover, -⟩
        · exact hstill
        · rw [hover] at hheight
          exact absurd hheight (Nat.lt_irrefl _)
      · exact ih.beside hadvance hthread
    · exact ih.turnover hturn (List.ne_nil_of_length_pos (Nat.zero_lt_of_lt hheight))

/-- A call that returns leaves every fragment stopped that it was to cancel. -/
theorem stopped_of_returns (hreach : (ofFragments fragments host).Reachable system)
    (hreturns : system.Returns thread frame after) (hcancels : id ∈ frame.cancels system.world) :
    (after.executor id).state.continues = false := by
  obtain ⟨started, before, rest, reply, hframes, hstart, habove, hend, hrest, hreply⟩ := hreturns
  have hstarted : (ofFragments fragments host).Reachable started :=
    .move (.step thread) hreach hstart
  have hbegun : started.IsStopping id thread rest := by
    obtain ⟨first, beneath, next, hadvance⟩ := advance_of_step hstart
    obtain ⟨rfl, rfl⟩ := List.cons.inj (hadvance.frames.symm.trans hframes)
    rcases hadvance.cancelling_of_cancels hreach.unrestricted hcancels with
      hstopped | hcancelling | ⟨payload, rfl⟩
    · exact .inl hstopped
    · rw [← hadvance.ownSignal] at hcancelling
      exact .inr ⟨next.frames, hadvance.own, hcancelling⟩
    · have hheight := habove.height_start
      rw [hadvance.own] at hheight
      exact absurd hheight (Nat.lt_irrefl _)
  obtain ⟨last, beneath, next, hadvance⟩ := advance_of_step hend
  have hbefore := hbegun.above hstarted habove
  rcases hbefore.advance (hstarted.above habove).unrestricted hadvance with
    (hstopped | ⟨stack, hstack, hcancelling⟩) | ⟨-, payload, hraised⟩
  · exact hstopped
  · have hempty : stack = [] := List.append_left_eq_self.mp (hstack.symm.trans hrest)
    exact absurd hempty hcancelling.ne_nil
  · rw [hreply] at hraised
    cases hraised

end Calls

end System

end FragmentLifecycle
