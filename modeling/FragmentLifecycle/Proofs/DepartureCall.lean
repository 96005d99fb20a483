import FragmentLifecycle.Proofs.EarlyCalls
import FragmentLifecycle.Proofs.OwnFrames
import FragmentLifecycle.Proofs.Progress
import FragmentLifecycle.Proofs.WakeUps

/-!
# The call that makes a departure known

The call goes through the listeners that it found and cancels one fragment after the other.
`Departing` lists where it may stand, with the watches that it has still to look at; every step
of it leads from one of these places to another one and tells what becomes of the executors
(`Departing.step`).  Where the reporters acknowledge a cancellation, each step also brings the
call nearer to its end.
-/

namespace FragmentLifecycle

/-- The reporter returns from the report of a cancellation and does not call back. -/
def Fragment.Acknowledges (fragment : Fragment) : Prop :=
  (fragment.script.onReport .cancellationRequested).IsPassive

def Call.cancellation : Call := .stateChanged .cancellationRequested

/-- The points of a cancellation that finds a tree, up to its request. -/
def CancelPoint.isAsking : CancelPoint → Bool
  | .lockSetup | .inspect | .waitGate | .request => true
  | .closing | .announcing | .wake => false

/-! ## What a call has still to do -/

/-- The steps that a list of watches takes at most, where the reporter of an executor plays as
many actions as `actions` tells. -/
def watchCost (actions : ExecutorId → Nat) (watches : List Watch) : Nat :=
  (watches.map fun watch => 4 * actions watch.executor + 10).sum

/-- The steps of the call that are left to a frame of it, and to the frames that it calls.
`due` is the bound for the listeners. -/
def Frame.cost (actions : ExecutorId → Nat) (due : Nat) : Frame → Nat
  | .depart _ .start => due + 3
  | .depart _ .snapshot => due + 2
  | .depart _ (.walk watches) => watchCost actions watches + 1
  | .depart _ (.cancelling rest) => watchCost actions rest + 2
  | .cancel id .lockSetup => 4 * actions id + 8
  | .cancel id .inspect => 4 * actions id + 7
  | .cancel id .waitGate => 4 * actions id + 6
  | .cancel id .request => 4 * actions id + 5
  | .cancel _ .announcing => 2
  | .cancel _ .wake => 1
  | .call id _ .enter => 4 * actions id + 2
  | .call _ _ (.play remaining) => 4 * remaining.length + 1
  | .call _ _ (.acting _ rest) => 4 * rest.length + 2
  | .perform _ _ .start => 2
  | .perform _ _ .readStats => 1
  | _ => 0

def stackCost (actions : ExecutorId → Nat) (due : Nat) (frames : List Frame) : Nat :=
  (frames.map (Frame.cost actions due)).sum

/-! ## The report of a cancellation -/

/-- The frames of a reporter that acknowledges a cancellation, above the one that waits for it. -/
inductive Acknowledging (id : ExecutorId) : List Frame → Signal → Prop
  | plays {actions} (hpassive : ∀ action ∈ actions, action.IsPassive) :
      Acknowledging id [.call id .cancellation (.play actions)] .go
  | acts {action rest point} (haction : action.IsPassive)
      (hpassive : ∀ action ∈ rest, action.IsPassive) (hpoint : point ≠ .waiting) :
      Acknowledging id
        [.perform id action point, .call id .cancellation (.acting action rest)] .go
  | acted {action rest answer} (hpassive : ∀ action ∈ rest, action.IsPassive) :
      Acknowledging id [.call id .cancellation (.acting action rest)]
        (.replied (.answer answer))
  | returned {reply} : Acknowledging id [] (.replied reply)

section Reports

variable {world after : World} {view : LockView} {thread : ThreadId} {id : ExecutorId}
  {frame : Frame} {above : List Frame} {signal : Signal} {next : Next}

theorem Action.IsPassive.step {action : Action} {point : PerformPoint}
    (hpassive : action.IsPassive) (hpoint : point ≠ .waiting)
    (hstep : (Frame.perform id action point).step world view thread .go = some (after, next)) :
    after.exit = world.exit ∧ ((point = .start ∧ next = .goto (.perform id action .readStats)) ∨
      ∃ answer, next = .reply (.answer answer)) := by
  cases point with
  | waiting => exact absurd rfl hpoint
  | readStats =>
    obtain ⟨rfl, rfl⟩ := Prod.mk.inj (Option.some.inj hstep)
    exact ⟨rfl, .inr ⟨_, rfl⟩⟩
  | start =>
    have hresult := Option.some.inj hstep
    cases action with
    | status =>
      simp only [startAction] at hresult
      split at hresult <;> obtain ⟨rfl, rfl⟩ := Prod.mk.inj hresult
      · exact ⟨rfl, .inl ⟨rfl, rfl⟩⟩
      · exact ⟨rfl, .inr ⟨_, rfl⟩⟩
    | display | sink | principal | register | listeners | recordStat =>
      obtain ⟨rfl, rfl⟩ := Prod.mk.inj hresult
      exact ⟨rfl, .inr ⟨_, rfl⟩⟩
    | «scoped» body =>
      simp only [startAction, hpassive (world.principals thread)] at hresult
      obtain ⟨rfl, rfl⟩ := Prod.mk.inj hresult
      exact ⟨rfl, .inr ⟨_, rfl⟩⟩
    | _ => cases hpassive

/-- A reporter that acknowledges a cancellation goes on until it has returned. -/
theorem Acknowledging.step (actions : ExecutorId → Nat) (due : Nat)
    (hacknowledges : Acknowledging id (frame :: above) signal)
    (hpassive : (world.executors id).fragment.Acknowledges)
    (hstep : frame.step world view thread signal = some (after, next)) :
    Acknowledging id (next.frames ++ above) next.signal ∧
      stackCost actions due (next.frames ++ above) < stackCost actions due (frame :: above) ∧
      after.exit = world.exit := by
  generalize hstack : frame :: above = stack at hacknowledges
  cases hacknowledges with
  | returned => cases hstack
  | @plays remaining hremaining =>
    obtain ⟨rfl, rfl⟩ := List.cons.inj hstack
    cases remaining with
    | nil =>
      have hend : ∃ reply, next = .reply reply ∧ after.exit = world.exit := by
        obtain ⟨reply, hreply⟩ := hpassive.outcome
        have hreturns := hpassive.returns
        have hresult := Option.some.inj hstep
        simp only [Call.cancellation, Script.planOf] at hresult
        generalize ((world.executors id).fragment.script.onReport _).outcome = outcome at *
        cases outcome with
        | more | done | error =>
          obtain ⟨rfl, rfl⟩ := Prod.mk.inj hresult
          exact ⟨_, rfl, rfl⟩
        | panic => cases hreply
        | park => exact absurd rfl hreturns
      obtain ⟨reply, rfl, hexit⟩ := hend
      exact ⟨.returned, by simp [stackCost, Frame.cost], hexit⟩
    | cons action rest =>
      obtain ⟨rfl, rfl⟩ := Prod.mk.inj (Option.some.inj hstep)
      obtain ⟨haction, hrest⟩ := List.forall_mem_cons.mp hremaining
      refine ⟨.acts haction hrest (by simp), ?_, rfl⟩
      simp [stackCost, Frame.cost]
      omega
  | @acts action rest point haction hrest hpoint =>
    obtain ⟨rfl, rfl⟩ := List.cons.inj hstack
    obtain ⟨hexit, ⟨rfl, rfl⟩ | ⟨answer, rfl⟩⟩ := haction.step hpoint hstep
    · exact ⟨.acts haction hrest (by simp), by simp [stackCost, Frame.cost], hexit⟩
    · refine ⟨.acted hrest, ?_, hexit⟩
      cases point with
      | waiting => exact absurd rfl hpoint
      | start | readStats => simp [stackCost, Frame.cost]
  | @acted action rest answer hrest =>
    obtain ⟨rfl, rfl⟩ := List.cons.inj hstack
    obtain ⟨rfl, rfl⟩ := Prod.mk.inj (Option.some.inj hstep)
    exact ⟨.plays hrest, by simp [stackCost, Frame.cost], rfl⟩

end Reports

/-! ## The places of the call -/

section Places

variable (nodes : NodeSet) (listeners : List Watch) (affected acknowledges : ExecutorId → Prop)

/-- The call has asked the fragment of `id` for the last watch that it looked at, and `due` are
the ones after it. -/
structure IsLatest (id : ExecutorId) (due : List Watch) : Prop where
  affected : affected id
  other : ∀ watch ∈ due, watch.executor ≠ id
  last : ∃ watch : Watch, watch.executor = id ∧ watch :: due <:+ listeners

/-- Where the call stands that finds `listeners`: the watches that it has still to look at, the
fragment whose reporter it is about to call, its stack and its signal. -/
inductive Departing (world : World) :
    List Watch → Option ExecutorId → List Frame → Signal → Prop
  | begins {point} (hfound : world.registry.snapshot = listeners)
      (hpoint : point = .start ∨ point = .snapshot) :
      Departing world listeners none [.depart nodes point] .go
  | walks {due} : Departing world due none [.depart nodes (.walk due)] .go
  | asks {watch rest point} (hforeman : watch.foreman ∈ nodes) (hpoint : point.isAsking = true) :
      Departing world (watch :: rest) none
        [.cancel watch.executor point, .depart nodes (.cancelling rest)] .go
  | tells {id rest} (hlatest : IsLatest listeners affected id rest) :
      Departing world rest (some id)
        [.call id .cancellation .enter, .cancel id .announcing, .depart nodes (.cancelling rest)]
        .go
  | waits {id rest above signal} (hlatest : IsLatest listeners affected id rest)
      (hown : ∀ frame ∈ above, frame.isOwn id = true)
      (hreport : acknowledges id → Acknowledging id above signal) :
      Departing world rest none
        (above ++ [.cancel id .announcing, .depart nodes (.cancelling rest)]) signal
  | wakes {id rest} :
      Departing world rest none [.cancel id .wake, .depart nodes (.cancelling rest)] .go
  | returns {rest reply} :
      Departing world rest none [.depart nodes (.cancelling rest)] (.replied reply)
  | ends {reply} : Departing world [] none [] (.replied reply)
  | unwinds {id due frames payload} (hlatest : IsLatest listeners affected id due)
      (hrefuses : ¬ acknowledges id)
      (hlost : 0 < tally Entry.isLostCancellation (world.executors id).journal)
      (hframes : frames = [] ∨ frames = [.depart nodes (.cancelling due)]) :
      Departing world due none frames (.raised payload)

end Places

/-- What a step of the call does to the executors: the watches and the reporter that the call has
still to look at and to call, before and after it. -/
inductive DepartureStep (nodes : NodeSet) (affected : ExecutorId → Prop) (thread : ThreadId)
    (world after : World) :
    List Watch → Option ExecutorId → List Watch → Option ExecutorId → Prop
  | moves {due} (hexecutors : after.executors = world.executors) :
      DepartureStep nodes affected thread world after due none due none
  | skips {watch rest} (hforeman : watch.foreman ∉ nodes)
      (hexecutors : after.executors = world.executors) :
      DepartureStep nodes affected thread world after (watch :: rest) none rest none
  | asks {watch rest} (hforeman : watch.foreman ∈ nodes)
      (hcontinues : (world.executors watch.executor).state.continues = true)
      (hexecutors : after.executors =
        (world.request watch.executor thread .cancellationRequested).2.executors) :
      DepartureStep nodes affected thread world after (watch :: rest) none rest
        (some watch.executor)
  | passes {watch rest} (hstopped : (world.executors watch.executor).state.continues = false)
      (hexecutors : after.executors =
        (world.request watch.executor thread .cancellationRequested).2.executors) :
      DepartureStep nodes affected thread world after (watch :: rest) none rest none
  | tells {id rest} (haffected : affected id) (hother : ∀ watch ∈ rest, watch.executor ≠ id)
      (hexecutors : after.executors =
        (world.record id thread (.entered .cancellation)).executors) :
      DepartureStep nodes affected thread world after rest (some id) rest none
  | acts {id rest} (haffected : affected id) (hother : ∀ watch ∈ rest, watch.executor ≠ id)
      (hothers : ∀ other, other ≠ id → after.executors other = world.executors other) :
      DepartureStep nodes affected thread world after rest none rest none

/-- A step of the call by `frame`, which stands on `below`: it starts no thread and leads to
another place, and it brings the call nearer to its end where the reporters acknowledge. -/
structure DepartureMove (nodes : NodeSet) (listeners : List Watch)
    (affected acknowledges : ExecutorId → Prop) (actions : ExecutorId → Nat) (total : Nat)
    (thread : ThreadId) (world after : World) (frame : Frame) (below : List Frame) (next : Next)
    (due : List Watch) (telling : Option ExecutorId) : Prop where
  forked : next.forked = []
  leads : ∃ due' telling',
    DepartureStep nodes affected thread world after due telling due' telling' ∧
      Departing nodes listeners affected acknowledges after due' telling' (next.frames ++ below)
        next.signal
  nears : (∀ id, affected id → acknowledges id) →
    stackCost actions total (next.frames ++ below) < stackCost actions total (frame :: below) ∧
      after.exit = world.exit

section Steps

variable {nodes : NodeSet} {listeners : List Watch} {affected acknowledges : ExecutorId → Prop}
  {actions : ExecutorId → Nat} {total : Nat} {world after : World} {view : LockView}
  {thread : ThreadId} {due rest : List Watch} {watch : Watch} {telling : Option ExecutorId}
  {id : ExecutorId} {frame : Frame} {above below : List Frame} {signal : Signal} {next : Next}

private theorem begin_move {point : DepartPoint} (hpoint : point = .start ∨ point = .snapshot)
    (hfound : world.registry.snapshot = listeners) (htotal : watchCost actions listeners ≤ total)
    (hstep : (Frame.depart nodes point).step world view thread .go = some (after, next)) :
    DepartureMove nodes listeners affected acknowledges actions total thread world after
      (.depart nodes point) [] next listeners none := by
  subst hfound
  rcases hpoint with rfl | rfl
  · obtain ⟨rfl, rfl⟩ := Prod.mk.inj (Option.some.inj hstep)
    exact ⟨rfl, ⟨_, _, .moves rfl, .begins rfl (.inr rfl)⟩,
      fun _ => ⟨by simp [stackCost, Frame.cost], rfl⟩⟩
  · obtain ⟨rfl, rfl⟩ := Prod.mk.inj (Option.some.inj hstep)
    refine ⟨rfl, ⟨_, _, .moves rfl, .walks⟩, fun _ => ⟨?_, rfl⟩⟩
    simp [stackCost, Frame.cost]
    omega

private theorem walk_move (hreleased : ∀ id, (world.executors id).released = false)
    (hstep : (Frame.depart nodes (.walk due)).step world view thread .go = some (after, next)) :
    DepartureMove nodes listeners affected acknowledges actions total thread world after
      (.depart nodes (.walk due)) [] next due none := by
  cases due with
  | nil =>
    obtain ⟨rfl, rfl⟩ := Prod.mk.inj (Option.some.inj hstep)
    exact ⟨rfl, ⟨_, _, .moves rfl, .ends⟩, fun _ => ⟨by simp [stackCost, Frame.cost], rfl⟩⟩
  | cons watch rest =>
    simp only [Frame.step, stepDepart, hreleased, and_true] at hstep
    split at hstep <;> obtain ⟨rfl, rfl⟩ := Prod.mk.inj (Option.some.inj hstep)
    · rename_i hforeman
      refine ⟨rfl, ⟨_, _, .moves rfl, .asks hforeman rfl⟩, fun _ => ⟨?_, rfl⟩⟩
      simp [stackCost, Frame.cost, watchCost]
      omega
    · rename_i hforeman
      refine ⟨rfl, ⟨_, _, .skips hforeman rfl, .walks⟩, fun _ => ⟨?_, rfl⟩⟩
      simp [stackCost, Frame.cost, watchCost]

private theorem ask_move {point : CancelPoint} (hforeman : watch.foreman ∈ nodes)
    (hpoint : point.isAsking = true)
    (hother : ∀ other ∈ rest, watch.executor ≠ other.executor)
    (hremaining : watch :: rest <:+ listeners)
    (hheld : (world.executors watch.executor).treeHeld = true)
    (haffects : (world.executors watch.executor).state.continues = true →
      affected watch.executor)
    (hstep : (Frame.cancel watch.executor point).step world view thread .go =
      some (after, next)) :
    DepartureMove nodes listeners affected acknowledges actions total thread world after
      (.cancel watch.executor point) [.depart nodes (.cancelling rest)] next (watch :: rest)
      none := by
  cases point with
  | closing | announcing | wake => cases hpoint
  | lockSetup =>
    simp only [Frame.step, stepCancel] at hstep
    split at hstep
    · cases hstep
    · obtain ⟨rfl, rfl⟩ := Prod.mk.inj (Option.some.inj hstep)
      exact ⟨rfl, ⟨_, _, .moves rfl, .asks hforeman rfl⟩,
        fun _ => ⟨by simp [stackCost, Frame.cost], rfl⟩⟩
  | inspect =>
    simp only [Frame.step, stepCancel, hheld, if_true] at hstep
    obtain ⟨rfl, rfl⟩ := Prod.mk.inj (Option.some.inj hstep)
    exact ⟨rfl, ⟨_, _, .moves rfl, .asks hforeman rfl⟩,
        fun _ => ⟨by simp [stackCost, Frame.cost], rfl⟩⟩
  | waitGate =>
    simp only [Frame.step, stepCancel] at hstep
    split at hstep
    · obtain ⟨rfl, rfl⟩ := Prod.mk.inj (Option.some.inj hstep)
      exact ⟨rfl, ⟨_, _, .moves rfl, .asks hforeman rfl⟩,
        fun _ => ⟨by simp [stackCost, Frame.cost], rfl⟩⟩
    · cases hstep
  | request =>
    rw [step_request] at hstep
    obtain ⟨rfl, rfl⟩ := Prod.mk.inj (Option.some.inj hstep)
    by_cases hcontinues : (world.executors watch.executor).state.continues = true
    · simp only [hcontinues, if_true]
      have hlatest : IsLatest listeners affected watch.executor rest :=
        ⟨haffects hcontinues, fun other hmem => (hother other hmem).symm, watch, rfl, hremaining⟩
      refine ⟨rfl, ⟨_, _, .asks hforeman hcontinues rfl, .tells hlatest⟩, fun _ => ⟨?_, ?_⟩⟩
      · simp [stackCost, Frame.cost]
        omega
      · simp
    · rw [if_neg hcontinues]
      refine ⟨rfl, ⟨_, _, .passes (by simpa using hcontinues) rfl, .wakes⟩, fun _ => ⟨?_, ?_⟩⟩
      · simp [stackCost, Frame.cost]
      · simp

private theorem tell_move (hlatest : IsLatest listeners affected id rest)
    (hreporter : acknowledges id → (world.executors id).fragment.Acknowledges)
    (hactions : actions id =
      ((world.executors id).fragment.script.onReport .cancellationRequested).actions.length)
    (hstep : (Frame.call id .cancellation .enter).step world view thread .go =
      some (after, next)) :
    DepartureMove nodes listeners affected acknowledges actions total thread world after
      (.call id .cancellation .enter) [.cancel id .announcing, .depart nodes (.cancelling rest)]
      next rest (some id) := by
  have hresult : after = world.record id thread (.entered .cancellation) ∧
      next = .goto (.call id .cancellation
        (.play ((world.executors id).fragment.script.onReport .cancellationRequested).actions)) :=
    (Prod.mk.inj (Option.some.inj hstep)).imp Eq.symm Eq.symm
  obtain ⟨rfl, rfl⟩ := hresult
  have hown : ∀ frame ∈ [Frame.call id .cancellation (.play
      ((world.executors id).fragment.script.onReport .cancellationRequested).actions)],
      frame.isOwn id = true := by simp [Frame.isOwn]
  refine ⟨rfl, ⟨_, _, .tells hlatest.affected hlatest.other rfl, .waits hlatest hown ?_⟩,
    fun _ => ⟨?_, rfl⟩⟩
  · exact fun hacknowledges => .plays (hreporter hacknowledges).actions
  · simp [stackCost, Frame.cost, hactions]

private theorem wait_move (hlatest : IsLatest listeners affected id rest)
    (hown : ∀ frame ∈ above, frame.isOwn id = true)
    (hreport : acknowledges id → Acknowledging id above signal)
    (hreporter : acknowledges id → (world.executors id).fragment.Acknowledges)
    (hlost : ∀ payload, frame = .cancel id .announcing → signal = .raised payload →
      0 < tally Entry.isLostCancellation (world.executors id).journal)
    (hstack : frame :: below =
      above ++ [.cancel id .announcing, .depart nodes (.cancelling rest)])
    (hstep : frame.step world view thread signal = some (after, next))
    (hsilent : frame.isAnnouncement = false) :
    DepartureMove nodes listeners affected acknowledges actions total thread world after frame
      below next rest none := by
  cases above with
  | nil =>
    obtain ⟨rfl, rfl⟩ := List.cons.inj hstack
    cases signal with
    | go => cases hstep
    | replied reply =>
      obtain ⟨rfl, rfl⟩ := Prod.mk.inj (Option.some.inj hstep)
      exact ⟨rfl, ⟨_, _, .moves rfl, .wakes⟩, fun _ => ⟨by simp [stackCost, Frame.cost], rfl⟩⟩
    | raised payload =>
      obtain ⟨rfl, rfl⟩ := Prod.mk.inj (Option.some.inj hstep)
      have hrefuses : ¬ acknowledges id := fun hacknowledges => nomatch hreport hacknowledges
      exact ⟨rfl, ⟨_, _, .moves rfl, .unwinds hlatest hrefuses (hlost _ rfl rfl) (.inr rfl)⟩,
        fun hall => absurd (hall id hlatest.affected) hrefuses⟩
  | cons top above =>
    obtain ⟨rfl, rfl⟩ := List.cons.inj hstack
    obtain ⟨hframe, habove⟩ := List.forall_mem_cons.mp hown
    have hkeeps := Frame.step_own hframe hsilent hstep
    refine ⟨hkeeps.forked, ⟨_, _, .acts hlatest.affected hlatest.other hkeeps.others, ?_⟩,
      fun hall => ?_⟩
    · rw [List.append_eq, ← List.append_assoc]
      refine .waits hlatest (fun pushed hpushed => ?_) fun hacknowledges =>
        ((hreport hacknowledges).step actions total (hreporter hacknowledges) hstep).1
      rcases List.mem_append.mp hpushed with hpushed | hbelow
      · exact hkeeps.frames pushed hpushed
      · exact habove pushed hbelow
    · have hacknowledges := hall id hlatest.affected
      obtain ⟨-, hnears, hexit⟩ :=
        (hreport hacknowledges).step actions total (hreporter hacknowledges) hstep
      refine ⟨?_, hexit⟩
      simp only [stackCost, List.map_append, List.map_cons, List.sum_append, List.sum_cons]
        at hnears ⊢
      omega

/-- A step of the call leads on, starts no thread, and comes nearer to the end of the call
where every reporter acknowledges the cancellation. -/
theorem Departing.step
    (hdeparting : Departing nodes listeners affected acknowledges world due telling
      (frame :: below) signal)
    (hstep : frame.step world view thread signal = some (after, next))
    (hsilent : frame.isAnnouncement = false)
    (hreleased : ∀ id, (world.executors id).released = false)
    (hremaining : due <:+ listeners)
    (hheld : ∀ watch ∈ due, (world.executors watch.executor).treeHeld = true)
    (haffects : ∀ watch ∈ due, watch.foreman ∈ nodes →
      (world.executors watch.executor).state.continues = true → affected watch.executor)
    (hreporter : ∀ id, acknowledges id → (world.executors id).fragment.Acknowledges)
    (hactions : ∀ id, actions id =
      ((world.executors id).fragment.script.onReport .cancellationRequested).actions.length)
    (hdistinct : due.Pairwise fun first second => first.executor ≠ second.executor)
    (hraised : ∀ id payload, frame = .cancel id .announcing → signal = .raised payload →
      0 < tally Entry.isLostCancellation (world.executors id).journal)
    (htotal : watchCost actions due ≤ total) :
    DepartureMove nodes listeners affected acknowledges actions total thread world after frame
      below next due telling := by
  generalize hstack : frame :: below = stack at hdeparting
  cases hdeparting with
  | ends => cases hstack
  | begins hfound hpoint =>
    obtain ⟨rfl, rfl⟩ := List.cons.inj hstack
    exact begin_move hpoint hfound htotal hstep
  | walks =>
    obtain ⟨rfl, rfl⟩ := List.cons.inj hstack
    exact walk_move hreleased hstep
  | asks hforeman hpoint =>
    obtain ⟨rfl, rfl⟩ := List.cons.inj hstack
    exact ask_move hforeman hpoint (List.pairwise_cons.mp hdistinct).1 hremaining
      (hheld _ List.mem_cons_self) (haffects _ List.mem_cons_self hforeman) hstep
  | tells hlatest =>
    obtain ⟨rfl, rfl⟩ := List.cons.inj hstack
    exact tell_move hlatest (hreporter _) (hactions _) hstep
  | waits hlatest hown hreport =>
    exact wait_move hlatest hown hreport (hreporter _) (hraised _) hstack hstep hsilent
  | wakes =>
    obtain ⟨rfl, rfl⟩ := List.cons.inj hstack
    obtain ⟨rfl, rfl⟩ := Prod.mk.inj (Option.some.inj hstep)
    exact ⟨rfl, ⟨_, _, .moves (by simp), .returns⟩,
      fun _ => ⟨by simp [stackCost, Frame.cost], by simp⟩⟩
  | returns =>
    obtain ⟨rfl, rfl⟩ := List.cons.inj hstack
    obtain ⟨rfl, rfl⟩ := Prod.mk.inj (Option.some.inj hstep)
    exact ⟨rfl, ⟨_, _, .moves rfl, .walks⟩, fun _ => ⟨by simp [stackCost, Frame.cost], rfl⟩⟩
  | unwinds hlatest hrefuses hlost hframes =>
    rcases hframes with rfl | rfl
    · cases hstack
    · obtain ⟨rfl, rfl⟩ := List.cons.inj hstack
      obtain ⟨rfl, rfl⟩ := Prod.mk.inj (Option.some.inj hstep)
      exact ⟨rfl, ⟨_, _, .moves rfl, .unwinds hlatest hrefuses hlost (.inl rfl)⟩,
        fun hall => absurd (hall _ hlatest.affected) hrefuses⟩

/-- Once the call has found the listeners, it stands where it does whatever others do. -/
theorem Departing.of_journals {frames : List Frame}
    (hdeparting : Departing nodes listeners affected acknowledges world due telling frames signal)
    (hfound : due ≠ listeners)
    (hgrows : ∀ id, (world.executors id).journal <+: (after.executors id).journal) :
    Departing nodes listeners affected acknowledges after due telling frames signal := by
  cases hdeparting with
  | begins => exact absurd rfl hfound
  | walks => exact .walks
  | asks hforeman hpoint => exact .asks hforeman hpoint
  | tells hlatest => exact .tells hlatest
  | waits hlatest hown hreport => exact .waits hlatest hown hreport
  | wakes => exact .wakes
  | returns => exact .returns
  | ends => exact .ends
  | @unwinds id _ _ _ hlatest hrefuses hlost hframes =>
    exact .unwinds hlatest hrefuses (Nat.lt_of_lt_of_le hlost (tally_mono _ _ (hgrows id))) hframes

/-- A call that is over has nobody left to tell.  It has looked at every watch, or the reporter
of the last one that it looked at panicked. -/
theorem Departing.over
    (hdeparting : Departing nodes listeners affected acknowledges world due telling [] signal) :
    telling = none ∧ ((due = [] ∧ ∃ reply, signal = .replied reply) ∨
      ∃ id payload, IsLatest listeners affected id due ∧
        0 < tally Entry.isLostCancellation (world.executors id).journal ∧
          signal = .raised payload) := by
  generalize hstack : ([] : List Frame) = stack at hdeparting
  cases hdeparting with
  | ends => exact ⟨rfl, .inl ⟨rfl, _, rfl⟩⟩
  | unwinds hlatest _ hlost => exact ⟨rfl, .inr ⟨_, _, hlatest, hlost, rfl⟩⟩
  | waits => exact absurd hstack.symm (by simp)
  | _ => cases hstack

/-- Where the reporters acknowledge, the call ends by returning. -/
theorem Departing.returned
    (hdeparting : Departing nodes listeners affected acknowledges world due telling [] signal)
    (hall : ∀ id, affected id → acknowledges id) : ∃ reply, signal = .replied reply := by
  generalize hstack : ([] : List Frame) = stack at hdeparting
  cases hdeparting with
  | ends => exact ⟨_, rfl⟩
  | unwinds hlatest hrefuses => exact absurd (hall _ hlatest.affected) hrefuses
  | waits => exact absurd hstack.symm (by simp)
  | _ => cases hstack

/-- A reporter that acknowledges makes no departure known. -/
theorem Departing.silent
    (hdeparting : Departing nodes listeners affected acknowledges world due telling
      (frame :: below) signal)
    (hall : ∀ id, affected id → acknowledges id) : frame.isAnnouncement = false := by
  generalize hstack : frame :: below = stack at hdeparting
  cases hdeparting with
  | ends => cases hstack
  | begins | walks | asks | tells | wakes | returns =>
    obtain ⟨rfl, rfl⟩ := List.cons.inj hstack
    rfl
  | unwinds hlatest hrefuses => exact absurd (hall _ hlatest.affected) hrefuses
  | waits hlatest _ hreport =>
    cases hreport (hall _ hlatest.affected) with
    | @acts action rest point haction =>
      obtain ⟨rfl, rfl⟩ := List.cons.inj hstack
      cases action with
      | depart => cases haction
      | _ => rfl
    | _ =>
      obtain ⟨rfl, rfl⟩ := List.cons.inj hstack
      rfl

/-- Where the reporters acknowledge, nothing stops the call at fragments with a tree behind an
open gate and nobody in their setup sections. -/
theorem Departing.not_stopped
    (hdeparting : Departing nodes listeners affected acknowledges world due telling
      (frame :: below) signal)
    (hall : ∀ id, affected id → acknowledges id)
    (hfree : ∀ watch ∈ due, view.setupHeldElsewhere watch.executor = false)
    (hopen : ∀ watch ∈ due, (world.executors watch.executor).gate.isOpen = true) :
    ¬ frame.Blocked world view ∧ ¬ frame.Rests world thread := by
  generalize hstack : frame :: below = stack at hdeparting
  cases hdeparting with
  | ends => cases hstack
  | begins | walks | tells | wakes | returns =>
    obtain ⟨rfl, rfl⟩ := List.cons.inj hstack
    constructor <;> rintro ⟨⟩
  | unwinds hlatest hrefuses => exact absurd (hall _ hlatest.affected) hrefuses
  | @asks watch rest point =>
    obtain ⟨rfl, rfl⟩ := List.cons.inj hstack
    refine ⟨?_, by rintro ⟨⟩⟩
    rintro (_ | hheld | _ | hshut)
    · rw [hfree watch List.mem_cons_self] at hheld
      cases hheld
    · rw [hopen watch List.mem_cons_self] at hshut
      cases hshut
  | waits hlatest _ hreport =>
    cases hreport (hall _ hlatest.affected) <;> obtain ⟨rfl, rfl⟩ := List.cons.inj hstack <;>
      constructor <;> rintro ⟨⟩

end Steps

end FragmentLifecycle
