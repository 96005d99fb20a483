import FragmentLifecycle.Proofs.Closing
import FragmentLifecycle.Proofs.Tree

/-!
# Cancellations that return

A cancellation that has returned found a tree or waited until the resources were closed,
and its fragment has stopped.  So a call whose plan cancels the fragment leaves it
cancelled when it has played the plan (`System.ReachableUnder.remaining_or_cancelled`).
-/

namespace FragmentLifecycle

/-- The points of a cancellation that has found a tree, or has closed the resources. -/
def CancelPoint.isReleased : CancelPoint → Bool
  | .waitGate | .request | .announcing | .wake => true
  | _ => false

/-- The points of a cancellation whose request was decided. -/
def CancelPoint.isDecided : CancelPoint → Bool
  | .announcing | .wake => true
  | _ => false

/-- The actions that a call is still to play. -/
def CallPoint.remaining (plan : Plan) : CallPoint → List Action
  | .play actions => actions
  | .acting action rest => action :: rest
  | .parking | .parked => []
  | _ => plan.actions

/-- The frames that a cancellation answers, as an action and as the action of a call. -/
inductive Frame.AwaitsCancel (id : ExecutorId) : Frame → Prop
  | action : AwaitsCancel id (.perform id .cancel .waiting)
  | call {call rest} : AwaitsCancel id (.call id call (.acting .cancel rest))

section Actions

variable {world after : World} {view : LockView} {thread : ThreadId} {id : ExecutorId}
  {point : PerformPoint} {signal : Signal} {next : Next}

/-- A cancellation is called, and answered when it has returned. -/
theorem Frame.step_perform_cancel
    (hstep : (Frame.perform id .cancel point).step world view thread signal = some (after, next)) :
    next = .call (.perform id .cancel .waiting) (.cancel id .lockSetup) ∨
      (next.frames = [] ∧ ∀ reply, next.signal = .replied reply →
        point = .readStats ∨ (point = .waiting ∧ ∃ reply, signal = .replied reply)) := by
  cases point <;> cases signal <;>
    simp [Frame.step, stepPerform, startAction] at hstep <;> obtain ⟨-, rfl⟩ := hstep <;> simp

end Actions

section Transitions

variable {view : LockView} {thread : ThreadId} {id : ExecutorId} {frame : Frame}
  {signal : Signal} {executor executor' : Executor} {next : Next}

/-- A cancellation finds a tree or waits for the close of the resources, and its request
stops the fragment. -/
theorem Transition.cancel_pushed
    (htransition : Transition view thread id frame signal executor next executor')
    (hcore : frame.isCore id = true) {point : CancelPoint}
    (hpushed : .cancel id point ∈ next.frames) :
    (point.isReleased = true → executor.treeHeld = true ∨
      (frame = .cancel id .closing ∧ ∃ reply, signal = .replied reply) ∨
      ∃ point', frame = .cancel id point' ∧ point'.isReleased = true) ∧
    (point.isDecided = true → executor'.state.continues = false ∨
      ∃ point', frame = .cancel id point' ∧ point'.isDecided = true) := by
  cases htransition
  case aside houtside _ _ => simp [houtside] at hcore
  all_goals simp at hpushed
  all_goals subst hpushed
  case cancelFindsTree hheld => exact ⟨fun _ => .inl hheld, by simp [CancelPoint.isDecided]⟩
  case cancelClosed =>
    exact ⟨fun _ => .inr (.inl ⟨rfl, _, rfl⟩), by simp [CancelPoint.isDecided]⟩
  case cancelPasses =>
    exact ⟨fun _ => .inr (.inr ⟨_, rfl, rfl⟩), by simp [CancelPoint.isDecided]⟩
  case cancelAccepted hstate =>
    refine ⟨fun _ => .inr (.inr ⟨_, rfl, rfl⟩), fun _ => .inl ?_⟩
    rw [Executor.state_request, State.decide_cancellationRequested, if_pos hstate]
    rfl
  case cancelIgnored hstate =>
    exact ⟨fun _ => .inr (.inr ⟨_, rfl, rfl⟩),
      fun _ => .inl (State.continues_apply_decide _ hstate)⟩
  case cancelAnnounced =>
    exact ⟨fun _ => .inr (.inr ⟨_, rfl, rfl⟩), fun _ => .inr ⟨_, rfl, rfl⟩⟩
  all_goals simp [CancelPoint.isReleased, CancelPoint.isDecided]

/-- A cancellation returns from its last point. -/
theorem Transition.cancel_replied {point : CancelPoint} {reply : Reply}
    (htransition : Transition view thread id (.cancel id point) signal executor next executor')
    (hsignal : next.signal = .replied reply) : point = .wake := by
  cases htransition with
  | cancelEnds => rfl
  | aside houtside => simp [Frame.isCore] at houtside
  | _ => cases hsignal

/-- A call goes on with what it is still to play, but for the action that has answered. -/
theorem Transition.remaining_pushed
    (htransition : Transition view thread id frame signal executor next executor')
    (hcore : frame.isCore id = true) {call : Call} {point : CallPoint} {plan : Plan}
    (hplan : executor.fragment.script.planOf call = plan)
    (hpushed : .call id call point ∈ next.frames) :
    point.remaining plan = plan.actions ∨
      ∃ point', frame = .call id call point' ∧ ∀ action ∈ point'.remaining plan,
        action ∈ point.remaining plan ∨
          ∃ rest reply, point' = .acting action rest ∧ signal = .replied reply := by
  subst hplan
  cases htransition
  case aside houtside _ _ => simp [houtside] at hcore
  case callProceeds hpoints _ _ =>
    simp at hpushed
    obtain ⟨rfl, rfl⟩ := hpushed
    right
    refine ⟨_, rfl, fun action haction => .inl ?_⟩
    cases hpoints <;> exact haction
  all_goals simp at hpushed
  all_goals try obtain ⟨rfl, rfl⟩ := hpushed
  case callActs =>
    right
    exact ⟨_, rfl, fun action haction => .inl haction⟩
  case callActed =>
    right
    refine ⟨_, rfl, fun action haction => ?_⟩
    rcases List.mem_cons.mp haction with rfl | hrest
    · exact .inr ⟨_, _, rfl, rfl⟩
    · exact .inl hrest
  all_goals exact .inl rfl

/-- A call that returns has nothing left to play. -/
theorem Transition.remaining_of_replied {call : Call} {point : CallPoint} {reply : Reply}
    (htransition : Transition view thread id (.call id call point) signal executor next executor')
    (hsignal : next.signal = .replied reply) (plan : Plan) : point.remaining plan = [] := by
  cases htransition with
  | callReturns | parkingReturns => rfl
  | aside houtside => simp [Frame.isCore] at houtside
  | _ => cases hsignal

/-- A call starts its actions from the beginning. -/
theorem Transition.perform_pushed {owner : ExecutorId} {action : Action} {point : PerformPoint}
    (htransition : Transition view thread id frame signal executor next executor')
    (hcore : frame.isCore id = true) (hpushed : .perform owner action point ∈ next.frames) :
    point = .start := by
  cases htransition
  case aside houtside _ _ => simp [houtside] at hcore
  all_goals simp at hpushed
  case callActs => exact hpushed.2.2

end Transitions

namespace System

/-- Nothing keeps a cancellation from asking for its state: the resources are closed, or a
tree was there to wait for. -/
def IsReleased (system : System) (id : ExecutorId) : Prop :=
  system.IsClosed id ∨ 0 < (system.executor id).treesBuilt

/-- A cancellation has come to its end. -/
def IsCancelled (system : System) (id : ExecutorId) : Prop :=
  system.IsReleased id ∧ (system.executor id).state.continues = false

section Cancelling

variable {fragments : List Fragment} {host : Host} {permitted : Command → Prop}
  {system after : System} {id : ExecutorId} {thread : ThreadId} {frame : Frame}
  {rest : List Frame} {next : Next}

theorem Advance.treesBuilt_le (hadvance : system.Advance after thread frame rest next)
    (id : ExecutorId) : (system.executor id).treesBuilt ≤ (after.executor id).treesBuilt := by
  have hgrows := (Frame.step_transition id hadvance.step).grows
  rw [Executor.treesBuilt, Executor.treesBuilt, System.executor, System.executor, hgrows.fragment]
  exact tally_mono _ _ hgrows.journal

theorem IsReleased.advance (hreleased : system.IsReleased id)
    (hadvance : system.Advance after thread frame rest next) : after.IsReleased id := by
  rcases hreleased with hclosed | hbuilt
  · exact .inl (hclosed.advance hadvance)
  · exact .inr (Nat.lt_of_lt_of_le hbuilt (hadvance.treesBuilt_le id))

theorem IsReleased.turnover {root : Frame} (hreleased : system.IsReleased id)
    (hturn : system.Turnover after thread root) : after.IsReleased id := by
  rcases hreleased with hclosed | hbuilt
  · exact .inl (hclosed.turnover hturn)
  · rw [← hturn.executor_eq] at hbuilt
    exact .inr hbuilt

theorem IsCancelled.advance (hcancelled : system.IsCancelled id)
    (hadvance : system.Advance after thread frame rest next) : after.IsCancelled id :=
  ⟨hcancelled.1.advance hadvance,
    (Frame.step_transition id hadvance.step).grows.stopped hcancelled.2⟩

theorem IsCancelled.turnover {root : Frame} (hcancelled : system.IsCancelled id)
    (hturn : system.Turnover after thread root) : after.IsCancelled id := by
  refine ⟨hcancelled.1.turnover hturn, ?_⟩
  rw [hturn.executor_eq]
  exact hcancelled.2

/-! ### A cancellation that returns -/

/-- How far a cancellation has come tells what it has found and done. -/
theorem ReachableUnder.released_of_cancel
    (hreach : (ofFragments fragments host).ReachableUnder permitted system) {point : CancelPoint}
    (hmem : .cancel id point ∈ system.frames thread) :
    (point.isReleased = true → system.IsReleased id) ∧
      (point.isDecided = true → (system.executor id).state.continues = false) := by
  refine hreach.pervades id (fun system _ frame => ∀ point, frame = .cancel id point →
    (point.isReleased = true → system.IsReleased id) ∧
      (point.isDecided = true → (system.executor id).state.continues = false)) ?_ ?_ ?_ ?_ hmem
    (by simp [Frame.isCore]) point rfl
  · rintro system thread _ ⟨⟩ point ⟨⟩
    exact ⟨by simp [CancelPoint.isReleased], by simp [CancelPoint.isDecided]⟩
  · intro system after thread root hturn owner frame hholds point hframe
    obtain ⟨hreleased, hdecided⟩ := hholds point hframe
    refine ⟨fun hpoint => (hreleased hpoint).turnover hturn, fun hpoint => ?_⟩
    rw [hturn.executor_eq]
    exact hdecided hpoint
  · rintro system after thread frame rest next hreach hadvance htransition hcore hframe _ hpushed -
      point rfl
    obtain ⟨hreleased, hdecided⟩ := htransition.cancel_pushed hcore hpushed
    constructor
    · intro hpoint
      rcases hreleased hpoint with hheld | ⟨rfl, reply, hsignal⟩ | ⟨point', rfl, hpoint'⟩
      · have htree := hreach.tree_total id
        rw [hheld, Bool.toNat_true] at htree
        exact IsReleased.advance (.inr (by omega)) hadvance
      · have hclosed := hreach.closed_of_reply .cancelClose hadvance.frames hsignal
        exact IsReleased.advance (.inl hclosed) hadvance
      · exact ((hframe point' rfl).1 hpoint').advance hadvance
    · intro hpoint
      rcases hdecided hpoint with hstopped | ⟨point', rfl, hpoint'⟩
      · exact hstopped
      · exact htransition.grows.stopped ((hframe point' rfl).2 hpoint')
  · intro system after thread frame rest next hreach hadvance htransition owner other _ _ hother
      point hframe
    obtain ⟨hreleased, hdecided⟩ := hother point hframe
    exact ⟨fun hpoint => (hreleased hpoint).advance hadvance,
      fun hpoint => htransition.grows.stopped (hdecided hpoint)⟩

/-- A cancellation that a call makes as an action reads no statistics. -/
theorem ReachableUnder.not_reading
    (hreach : (ofFragments fragments host).ReachableUnder permitted system) {point : PerformPoint}
    {call : Call} {later : List Action} {below : List Frame}
    (hframes : system.frames thread =
      .perform id .cancel point :: .call id call (.acting .cancel later) :: below) :
    point ≠ .readStats := by
  rintro rfl
  refine hreach.stackwise (fun _ _ frames _ => ∀ call later below,
    ¬ .perform id .cancel .readStats :: .call id call (.acting .cancel later) :: below <:+ frames)
    ?_ ?_ ?_ ?_ thread call later below (hframes ▸ List.suffix_refl _)
  · simp
  · simp [List.suffix_cons_iff]
  · intro system after thread root _ owner frames signal hholds
    exact hholds
  · intro system after thread frame rest next hreach hadvance hlinks hholds
    refine ⟨fun call later below hsuffix => ?_, fun other _ => hholds other⟩
    have hrest {call : Call} {later : List Action} {below : List Frame} :
        ¬ .perform id .cancel .readStats :: .call id call (.acting .cancel later) :: below <:+
          rest := by
      intro hsuffix
      refine hholds thread call later below ?_
      rw [hadvance.frames]
      exact hsuffix.trans (List.suffix_cons _ _)
    have hresumed (hrole : frame.role = .perform id .cancel)
        (hmem : .perform id .cancel .readStats ∈ next.frames) : False := by
      obtain ⟨point, rfl⟩ := Frame.eq_perform_of_role hrole
      rcases Frame.step_perform_cancel hadvance.step with rfl | ⟨hnone, -⟩
      · simp at hmem
      · simp [hnone] at hmem
    cases next with
    | goto resumed =>
      rcases List.suffix_cons_iff.mp hsuffix with hsame | hbelow
      · obtain ⟨rfl, -⟩ := List.cons.inj hsame
        exact hresumed hlinks.symm List.mem_cons_self
      · exact hrest hbelow
    | call resumed called =>
      rcases List.suffix_cons_iff.mp hsuffix with hsame | hbelow
      · obtain ⟨rfl, htail⟩ := List.cons.inj hsame
        obtain ⟨rfl, -⟩ := List.cons.inj htail
        obtain ⟨point, rfl⟩ := Frame.eq_call_of_role hlinks.1.symm
        cases (Frame.step_transition id hadvance.step).perform_pushed (by simp [Frame.isCore])
          List.mem_cons_self
      · rcases List.suffix_cons_iff.mp hbelow with hsame | hbelow
        · obtain ⟨rfl, -⟩ := List.cons.inj hsame
          exact hresumed hlinks.1.symm (by simp)
        · exact hrest hbelow
    | reply | raise | fork => exact hrest hsuffix

/-- The fragment is cancelled where a cancellation has returned. -/
theorem ReachableUnder.cancelled_of_reply
    (hreach : (ofFragments fragments host).ReachableUnder permitted system) {caller : Frame}
    {reply : Reply} (hcaller : caller.AwaitsCancel id)
    (hframes : system.frames thread = caller :: rest)
    (hsignal : system.signal thread = .replied reply) : system.IsCancelled id := by
  refine hreach.on_reply (fun system _ caller signal => caller.AwaitsCancel id →
    ∀ reply, signal = .replied reply → system.IsCancelled id) ?_ ?_ ?_ hframes (by simp [hsignal])
    hcaller reply hsignal
  · intro system after thread root hturn owner caller signal hholds hcaller reply hsignal
    exact (hholds hcaller reply hsignal).turnover hturn
  · intro system after thread frame caller rest next hreach hadvance hawaits _ hbefore hcaller
      reply hsignal
    have hframes := hadvance.frames
    generalize hrole : frame.role = role at hawaits
    cases hcaller with
    | action =>
      obtain ⟨point, rfl⟩ : ∃ point, frame = .cancel id point := by
        apply Frame.eq_cancel_of_role
        cases hawaits with
        | entry hentry => exact hrole.trans (Option.some.inj hentry).symm
      obtain rfl := (Frame.step_transition id hadvance.step).cancel_replied hsignal
      obtain ⟨hreleased, hdecided⟩ := hreach.released_of_cancel (hframes ▸ List.mem_cons_self)
      exact IsCancelled.advance ⟨hreleased rfl, hdecided rfl⟩ hadvance
    | call =>
      obtain ⟨point, rfl⟩ : ∃ point, frame = .perform id .cancel point := by
        apply Frame.eq_perform_of_role
        cases hawaits with
        | action => exact hrole
      rcases Frame.step_perform_cancel hadvance.step with rfl | ⟨-, hanswered⟩
      · cases hsignal
      · rcases hanswered reply hsignal with rfl | ⟨rfl, answer, hanswer⟩
        · exact absurd rfl (hreach.not_reading hframes)
        · have hcancelled := hbefore (by simp [hanswer]) .action answer hanswer
          exact hcancelled.advance hadvance
  · intro system after thread frame rest next hreach hadvance owner caller signal _ _ hholds
      hcaller reply hsignal
    exact (hholds hcaller reply hsignal).advance hadvance

/-- A call that was to cancel its fragment has done so, or has yet to come to it. -/
theorem ReachableUnder.remaining_or_cancelled
    (hreach : (ofFragments fragments host).ReachableUnder permitted system) {call : Call}
    {point : CallPoint} (hmem : .call id call point ∈ system.frames thread)
    (hcancels : .cancel ∈ (((fragments[id]?).getD .vacant).script.planOf call).actions) :
    .cancel ∈ point.remaining (((fragments[id]?).getD .vacant).script.planOf call) ∨
      system.IsCancelled id := by
  refine hreach.pervades id (fun system _ frame => ∀ call point, frame = .call id call point →
    .cancel ∈ (((fragments[id]?).getD .vacant).script.planOf call).actions →
      .cancel ∈ point.remaining (((fragments[id]?).getD .vacant).script.planOf call) ∨
        system.IsCancelled id) ?_ ?_ ?_ ?_ hmem (by simp [Frame.isCore]) call point rfl hcancels
  · rintro system thread _ ⟨⟩ call point ⟨⟩ hcancels
    exact .inl hcancels
  · intro system after thread root hturn owner frame hholds call point hframe hcancels
    exact (hholds call point hframe hcancels).imp_right fun hcancelled => hcancelled.turnover hturn
  · rintro system after thread frame rest next hreach hadvance htransition hcore hframe _ hpushed -
      call point rfl hcancels
    have hplan := congrArg (fun fragment => fragment.script.planOf call) (hreach.fragment_eq id)
    rcases htransition.remaining_pushed hcore hplan hpushed with hall | ⟨point', rfl, hkept⟩
    · rw [hall]
      exact .inl hcancels
    · rcases hframe call point' rfl hcancels with hbefore | hcancelled
      · rcases hkept _ hbefore with hstill | ⟨later, reply, rfl, hsignal⟩
        · exact .inl hstill
        · have hcancelled := hreach.cancelled_of_reply .call hadvance.frames hsignal
          exact .inr (hcancelled.advance hadvance)
      · exact .inr (hcancelled.advance hadvance)
  · intro system after thread frame rest next hreach hadvance _ owner other _ _ hother call point
      hframe hcancels
    exact (hother call point hframe hcancels).imp_right fun hcancelled =>
      hcancelled.advance hadvance

end Cancelling

end System

end FragmentLifecycle
