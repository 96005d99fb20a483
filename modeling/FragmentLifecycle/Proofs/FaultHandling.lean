import FragmentLifecycle.Proofs.CancelledBuild
import FragmentLifecycle.Proofs.CauseOrigins
import FragmentLifecycle.Proofs.Progress
import FragmentLifecycle.Proofs.Returns
import FragmentLifecycle.Proofs.RunCalls

/-!
# How an error is handled

What a run does with an error that was returned to it depends on the outermost exhaustion
in it alone.  It calls the handler of an exhausted heap, or does not, records one cause,
closes the resources and reports the failure, whatever goes on beside it
(`System.returned_fault_handled`).
-/

namespace FragmentLifecycle

/-! ## What is found in a fault -/

namespace Fault

/-- The contexts of a fault from the outside in, and its base as the last of them.  The
source of an error is none of them. -/
def layers : Fault → List Context
  | .message text | .foreign text _ => [.text text]
  | .outOfMemory exhaustion => [.outOfMemory exhaustion]
  | .execution error => [.execution error]
  | .within context inner => context :: inner.layers

theorem outOfMemory?_eq (fault : Fault) :
    fault.outOfMemory? = fault.layers.findSome? Context.outOfMemory? := by
  induction fault with
  | within context inner ih =>
    rw [outOfMemory?, layers, List.findSome?_cons, ih]
    cases context.outOfMemory? <;> rfl
  | _ => rfl

theorem execution?_eq (fault : Fault) :
    fault.execution? = fault.layers.findSome? Context.execution? := by
  induction fault with
  | within context inner ih =>
    rw [execution?, layers, List.findSome?_cons, ih]
    cases context.execution? <;> rfl
  | _ => rfl

end Fault

theorem MemoryPool.isRecoverable_eq_false_iff {pool : MemoryPool} :
    pool.isRecoverable = false ↔ pool = .heap := by
  cases pool <;> decide

/-! ## The calls that handle an error -/

/-- The calls by which a run handles an error.  The outermost exhaustion in it is recorded
as an error of execution, after the handler was called if it is that of the heap.  Without
one, the error is recorded as it is. -/
def Fault.handling (id : ExecutorId) (fault : Fault) : List Role :=
  match fault.layers.findSome? Context.outOfMemory? with
  | none => [.fail id fault]
  | some exhaustion =>
      if exhaustion.pool = .heap then
        [.call id (.exhausted exhaustion), .fail id (.execution (.memory exhaustion))]
      else [.fail id (.execution (.memory exhaustion))]

/-- The calls of a run on account of an error, as far as it has come with them. -/
def Fault.AccountsFor (id : ExecutorId) (fault : Fault) (calls : List Role) : Prop :=
  calls <+: fault.handling id ++ [.closeResources id] ∨
    ∃ report, calls = fault.handling id ++ [.closeResources id, .call id (.fail report)]

/-- An error that the build or an advance has returned is on its way to its handling. -/
inductive RunPoint.Returned (fault : Fault) : RunPoint → Signal → Prop
  | built : Returned fault .building (.replied (.failed fault))
  | advanced {previous} : Returned fault (.advancing previous) (.replied (.failed fault))
  | driven {previous} : Returned fault (.restorePrincipal previous (.failed fault)) .go
  | due : Returned fault (.settleFault fault) .go

/-- How far a run has come from the error that ended its driving to its own end. -/
def RunPoint.stage : RunPoint → Nat
  | .restorePrincipal _ _ => 1
  | .settleFault _ => 2
  | .alarming _ => 3
  | .recording => 4
  | .releaseWaiters => 5
  | .closing => 6
  | .unwatch => 7
  | .conclude => 8
  | .ensureCause => 9
  | .drain => 10
  | .reporting => 11
  | .retire => 12
  | _ => 0

/-- The points of a run between its close of the resources and its report. -/
def RunPoint.isConcluding : RunPoint → Bool
  | .closing | .unwatch | .conclude | .ensureCause | .drain => true
  | _ => false

/-- The calls that a run has made for an error at the points that it comes to. -/
inductive RunPoint.Handles (id : ExecutorId) (fault : Fault) : RunPoint → List Role → Prop
  | alarming {exhaustion} (hheap : fault.ExhaustsHeap exhaustion) :
      Handles id fault (.alarming exhaustion) [.call id (.exhausted exhaustion)]
  | recording : Handles id fault .recording (fault.handling id)
  | releasing : Handles id fault .releaseWaiters (fault.handling id)
  | concluding {point} (hpoint : point.isConcluding = true) :
      Handles id fault point (fault.handling id ++ [.closeResources id])
  | reported {point report} (hpoint : point = .reporting ∨ point = .retire) :
      Handles id fault point
        (fault.handling id ++ [.closeResources id, .call id (.fail report)])

section Handling

variable {id : ExecutorId} {fault : Fault} {point : RunPoint} {calls : List Role}

theorem Fault.handling_of_none (hnone : fault.outOfMemory? = none) :
    fault.handling id = [.fail id fault] := by
  rw [Fault.outOfMemory?_eq] at hnone
  rw [Fault.handling, hnone]

theorem Fault.handling_of_recoverable {exhaustion : OutOfMemory}
    (hmemory : fault.outOfMemory? = some exhaustion)
    (hrecoverable : exhaustion.pool.isRecoverable = true) :
    fault.handling id = [.fail id (.execution (.memory exhaustion))] := by
  rw [Fault.outOfMemory?_eq] at hmemory
  have hpool : exhaustion.pool ≠ .heap := by
    intro hheap
    rw [hheap] at hrecoverable
    cases hrecoverable
  simp only [Fault.handling, hmemory, if_neg hpool]

theorem Fault.handling_of_heap {exhaustion : OutOfMemory}
    (hheap : fault.ExhaustsHeap exhaustion) : fault.handling id =
      [.call id (.exhausted exhaustion), .fail id (.execution (.memory exhaustion))] := by
  obtain ⟨hmemory, hpool⟩ := hheap
  rw [Fault.outOfMemory?_eq] at hmemory
  simp only [Fault.handling, hmemory, if_pos (MemoryPool.isRecoverable_eq_false_iff.mp hpool)]

/-- The outermost exhaustion counts, also where the base is one of the heap. -/
example : (Fault.within (.outOfMemory ⟨.allocator, "outer"⟩)
      (.outOfMemory ⟨.heap, "inner"⟩)).handling id =
    [.fail id (.execution (.memory ⟨.allocator, "outer"⟩))] := rfl

theorem RunPoint.Handles.accountsFor (hhandles : point.Handles id fault calls) :
    fault.AccountsFor id calls := by
  cases hhandles with
  | alarming hheap =>
    refine .inl ?_
    rw [Fault.handling_of_heap hheap]
    exact ⟨_, rfl⟩
  | recording | releasing => exact .inl (List.prefix_append _ _)
  | concluding => exact .inl (List.prefix_refl _)
  | reported => exact .inr ⟨_, rfl⟩

theorem RunPoint.Handles.ne_start (hhandles : point.Handles id fault calls) :
    point ≠ .start := by
  rintro rfl
  cases hhandles with
  | concluding hpoint => cases hpoint
  | reported hpoint => rcases hpoint with hpoint | hpoint <;> cases hpoint

theorem RunPoint.Returned.ne_start {signal : Signal} (hreturned : point.Returned fault signal) :
    point ≠ .start := by
  cases hreturned <;> exact RunPoint.noConfusion

end Handling

/-! ## Stages of the handling -/

def Call.isAlarm : Call → Bool
  | .exhausted _ => true
  | _ => false

/-- Weighs the frames that the handler of an exhausted heap is still to be called from: a run
before the stage of the alarm, and a call of the handler that has yet to begin. -/
def Frame.alarmDue : Frame → Nat
  | .run _ _ .start => 0
  | .run _ _ point => (decide (point.stage < 3)).toNat
  | .call _ target .enter => target.isAlarm.toNat
  | _ => 0

section Transitions

variable {view : LockView} {thread : ThreadId} {id : ExecutorId} {frame : Frame}
  {signal : Signal} {executor executor' : Executor} {next : Next} {fault : Fault}
  {l : Option ListenerId} {point : RunPoint} {calls : List Role}

/-- Calls of the handler that were made and that are due never become more, but where a
run begins. -/
theorem Transition.alarm_le
    (htransition : Transition view thread id frame signal executor next executor')
    (hcore : frame.isCore id = true) :
    tally (Entry.isEntered Call.isAlarm) executor'.journal + executor'.course.fresh +
      (next.frames.map (within id Frame.alarmDue)).sum ≤
        tally (Entry.isEntered Call.isAlarm) executor.journal + executor.course.fresh +
          frame.alarmDue := by
  cases htransition
  case aside houtside _ _ => simp [houtside] at hcore
  case runBegins hnew => simp [hnew, Frame.alarmDue, Course.fresh, RunPoint.stage]
  case callProceeds hpoints hsame hjournal =>
    rw [hjournal, hsame.course]
    cases hpoints <;> simp [Frame.alarmDue]
  all_goals simp [Frame.alarmDue, Entry.isEntered, RunPoint.stage, Call.isAlarm]
  all_goals
    try simp only [Course.fresh]
    try omega

/-- An error that was returned comes to its handling as it is, and the handling begins
with the call that the outermost exhaustion in it asks for. -/
theorem Frame.step_of_returned {world after : World} (hreturned : point.Returned fault signal)
    (hstep : (Frame.run id l point).step world view thread signal = some (after, next)) :
    (∃ point', next = .goto (.run id l point') ∧ point'.Returned fault .go ∧
        point.stage < point'.stage) ∨
      ∃ point' callee, next = .call (.run id l point') callee ∧
        point'.Handles id fault [callee.role] ∧ point'.isSettled = false ∧
        point.stage < point'.stage := by
  cases hreturned with
  | built =>
    obtain ⟨-, rfl⟩ := Prod.mk.inj (Option.some.inj hstep)
    exact .inl ⟨_, rfl, .due, by simp [RunPoint.stage]⟩
  | advanced =>
    obtain ⟨-, rfl⟩ := Prod.mk.inj (Option.some.inj hstep)
    exact .inl ⟨_, rfl, .driven, by simp [RunPoint.stage]⟩
  | driven =>
    obtain ⟨-, rfl⟩ := Prod.mk.inj (Option.some.inj hstep)
    exact .inl ⟨_, rfl, .due, by simp [RunPoint.stage]⟩
  | due =>
    have htransition := Frame.step_transition id hstep
    generalize world.executors id = executor, after.executors id = executor' at htransition
    cases htransition with
    | aside houtside => simp [Frame.isCore] at houtside
    | @faultSettled _ _ _ cause hcause =>
      have hhandling : fault.handling id = [.fail id cause] := by
        rcases hcause with ⟨hnone, rfl⟩ | ⟨exhaustion, hmemory, hrecoverable, rfl⟩
        · exact Fault.handling_of_none hnone
        · exact Fault.handling_of_recoverable hmemory hrecoverable
      refine .inr ⟨_, _, rfl, ?_, rfl, by simp [RunPoint.stage]⟩
      rw [Frame.role, ← hhandling]
      exact .recording
    | alarmBegins hmemory hheap =>
      exact .inr ⟨_, _, rfl, .alarming ⟨hmemory, hheap⟩, rfl, by simp [RunPoint.stage]⟩

/-- What a step of a run makes of its handling: the run goes on to a later stage, has
retired after its report, or is unwound by a panic. -/
theorem Transition.handling
    (htransition : Transition view thread id (.run id l point) signal executor next executor')
    (hhandles : point.Handles id fault calls) (hsettled : executor.SettledAt point)
    (hfailed : point.isSettled = true → executor.state = .failed)
    (hrecorded : ∀ reply, point = .recording → signal = .replied reply →
      executor.state = .failed) :
    (∃ point', .run id l point' ∈ next.frames ∧
        point'.Handles id fault (calls ++ ((Frame.run id l point).made? id next).toList) ∧
        (point'.isSettled = true → executor'.state = .failed) ∧ point.stage < point'.stage) ∨
      (executor'.course = .ended thread ∧ executor'.state = .failed ∧ next = .done ∧
        ∃ report, calls =
          fault.handling id ++ [.closeResources id, .call id (.fail report)]) ∨
      (executor'.course = .unwound thread ∧ ∃ payload, signal = .raised payload ∧
        next = .raise payload) := by
  have hgrows := htransition.grows
  cases hhandles with
  | alarming hheap =>
    cases htransition with
    | aside houtside => simp [Frame.isCore] at houtside
    | alarmReturns =>
      refine .inl ⟨.recording, by simp, ?_, by simp [RunPoint.isSettled], by simp [RunPoint.stage]⟩
      have hhandling : fault.handling id = _ := Fault.handling_of_heap hheap
      rw [Frame.made?_call, Option.toList_some, Frame.role, List.singleton_append, ← hhandling]
      exact .recording
    | alarmUnwinds => exact .inr (.inr ⟨rfl, _, rfl, rfl⟩)
  | recording =>
    cases htransition with
    | aside houtside => simp [Frame.isCore] at houtside
    | failureRecorded =>
      refine .inl ⟨.releaseWaiters, by simp, ?_, fun _ => hrecorded _ rfl rfl, by decide⟩
      simpa using .releasing
  | releasing =>
    cases htransition with
    | aside houtside => simp [Frame.isCore] at houtside
    | waitersReleased =>
      refine .inl ⟨.closing, by simp, ?_, fun _ => hgrows.failed (hfailed rfl), by decide⟩
      simpa [Frame.role] using .concluding rfl
  | concluding hpoint =>
    cases htransition
    case aside houtside _ _ => simp [Frame.isCore] at houtside
    case concludes hstate => exact absurd (hfailed rfl) hstate
    case drainsNothing hcauses =>
      have hempty := Lifecycle.isEmpty_of_drain hcauses
      rw [hsettled.cause rfl] at hempty
      cases hempty
    case drains =>
      refine .inl ⟨.reporting, by simp, ?_, fun _ => hgrows.failed (hfailed rfl), by decide⟩
      simpa [Frame.role] using .reported (.inl rfl)
    case closingUnwinds => exact .inr (.inr ⟨rfl, _, rfl, rfl⟩)
    case resourcesReleased | unwatched | concludesFailed | causePresent | causeSubstituted =>
      refine .inl ⟨_, List.mem_cons_self, ?_, fun _ => hgrows.failed (hfailed rfl), by decide⟩
      simpa using .concluding rfl
    all_goals cases hpoint
  | reported hpoint =>
    cases htransition
    case aside houtside _ _ => simp [Frame.isCore] at houtside
    case reportReturns =>
      refine .inl ⟨.retire, by simp, ?_, fun _ => hgrows.failed (hfailed rfl), by decide⟩
      simpa using .reported (.inr rfl)
    case reportUnwinds => exact .inr (.inr ⟨rfl, _, rfl, rfl⟩)
    case retires => exact .inr (.inl ⟨rfl, hgrows.failed (hfailed rfl), rfl, _, rfl⟩)
    all_goals simp at hpoint

end Transitions

namespace System

/-- How far a run has come with an error that was returned to it, by the calls that it has
made since. -/
inductive Handling (system : System) (thread : ThreadId) (id : ExecutorId) (fault : Fault) :
    List Role → Prop
  | returned {l point rest} (hframes : system.frames thread = .run id l point :: rest)
      (hreturned : point.Returned fault (system.signal thread)) :
      Handling system thread id fault []
  | underWay {l point calls} (hmem : .run id l point ∈ system.frames thread)
      (hhandles : point.Handles id fault calls)
      (hfailed : point.isSettled = true → (system.executor id).state = .failed) :
      Handling system thread id fault calls
  | ended {report} (hcourse : (system.executor id).course = .ended thread)
      (hfailed : (system.executor id).state = .failed) :
      Handling system thread id fault
        (fault.handling id ++ [.closeResources id, .call id (.fail report)])
  | unwound {calls} (hcourse : (system.executor id).course = .unwound thread)
      (haccounts : fault.AccountsFor id calls) : Handling system thread id fault calls

section Calls

variable {fragments : List Fragment} {host : Host} {permitted : Command → Prop}
  {start system after : System} {id : ExecutorId} {thread owner : ThreadId} {frame : Frame}
  {rest : List Frame} {next : Next} {fault : Fault} {l : Option ListenerId} {point : RunPoint}
  {calls : List Role}

/-! ### The handling, move by move -/

/-- A run that records a failure has not asked to finish. -/
theorem ReachableUnder.unfinished_of_recording
    (hreach : (ofFragments fragments host).ReachableUnder permitted system)
    (hmem : .run id l .recording ∈ system.frames thread) :
    ¬ ((system.executor id).state = .finished ∨ (system.executor id).state = .cancelled) := by
  have hle := hreach.finish_le id
  have hdue := weight_le_total (within id Frame.finishDue) hmem
  simp [Frame.finishDue, RunPoint.isSettled] at hdue
  rw [hreach.state_eq_replay id]
  exact replay_of_no_finish (by omega)

/-- Where the record of a failure has returned to the run, the fragment has failed. -/
theorem ReachableUnder.failed_of_recorded
    (hreach : (ofFragments fragments host).ReachableUnder permitted system) {reply : Reply}
    (hframes : system.frames thread = .run id l .recording :: rest)
    (hsignal : system.signal thread = .replied reply) :
    (system.executor id).state = .failed := by
  have hterminal := hreach.terminal_of_recorded hframes hsignal
  have hunfinished := hreach.unfinished_of_recording (hframes ▸ List.mem_cons_self)
  cases hstate : (system.executor id).state <;> simp_all [State.isTerminal]

theorem Handling.turnover {root : Frame} (hhandling : system.Handling thread id fault calls)
    (hturn : system.Turnover after owner root) : after.Handling thread id fault calls := by
  have hkept {l : Option ListenerId} {point : RunPoint}
      (hmem : .run id l point ∈ system.frames thread) :
      after.frames thread = system.frames thread ∧ after.signal thread = system.signal thread := by
    have hcore : (Frame.run id l point).isCore id = true := by simp [Frame.isCore]
    exact hturn.same_of_core hmem hcore
  cases hhandling with
  | returned hframes hreturned =>
    obtain ⟨hsame, hsignal⟩ := hkept (hframes ▸ List.mem_cons_self)
    exact .returned (hsame.trans hframes) (hsignal ▸ hreturned)
  | underWay hmem hhandles hfailed =>
    exact .underWay ((hkept hmem).1 ▸ hmem) hhandles (hturn.executor_eq id ▸ hfailed)
  | ended hcourse hfailed =>
    exact .ended (hturn.executor_eq id ▸ hcourse) (hturn.executor_eq id ▸ hfailed)
  | unwound hcourse haccounts => exact .unwound (hturn.executor_eq id ▸ hcourse) haccounts

/-- A step of the run itself takes its handling one stage further. -/
theorem Handling.own
    (hreach : (ofFragments fragments host).ReachableUnder permitted system)
    (hhandling : system.Handling thread id fault calls)
    (hadvance : system.Advance after thread (.run id l point) rest next)
    (hpoint : point ≠ .start) :
    ((∃ point', .run id l point' ∈ after.frames thread ∧ point.stage < point'.stage) ∨
        (after.executor id).course = .ended thread ∨
        ∃ payload, system.signal thread = .raised payload) ∧
      after.Handling thread id fault
        (calls ++ ((Frame.run id l point).made? id next).toList) := by
  have htop : .run id l point ∈ system.frames thread := hadvance.frames ▸ List.mem_cons_self
  have htransition := Frame.step_transition id hadvance.step
  have hover {thread : ThreadId} (hcourse : (system.executor id).course = .ended thread ∨
      (system.executor id).course = .unwound thread) : False := by
    rw [hreach.course_of_run htop hpoint] at hcourse
    rcases hcourse with hcourse | hcourse <;> cases hcourse
  cases hhandling with
  | returned hframes hreturned =>
    obtain ⟨hsame, rfl⟩ := List.cons.inj (hadvance.frames.symm.trans hframes)
    obtain ⟨-, rfl, rfl⟩ := Frame.run.inj hsame
    rcases Frame.step_of_returned hreturned hadvance.step with
      ⟨point', rfl, hnext, hstage⟩ | ⟨point', callee, rfl, hhandles, hunsettled, hstage⟩
    · refine ⟨.inl ⟨point', ?_, hstage⟩, .returned hadvance.own ?_⟩
      · rw [hadvance.own]
        exact List.mem_cons_self
      · rw [hadvance.ownSignal]
        exact hnext
    · have hmem : .run id l point' ∈ after.frames thread := by
        rw [hadvance.own]
        exact List.mem_cons_of_mem _ List.mem_cons_self
      refine ⟨.inl ⟨point', hmem, hstage⟩, .underWay hmem ?_ ?_⟩
      · simpa using hhandles
      · rw [hunsettled]
        exact fun hsettled => absurd hsettled Bool.false_ne_true
  | underWay hmem hhandles hfailed =>
    obtain ⟨-, rfl, rfl⟩ := hreach.live_unique htop hpoint hmem hhandles.ne_start
    have hrecorded (reply : Reply) (hrecording : point = .recording)
        (hsignal : system.signal thread = .replied reply) :
        (system.executor id).state = .failed :=
      hreach.failed_of_recorded (hrecording ▸ hadvance.frames) hsignal
    rcases htransition.handling hhandles (hreach.settled hmem) hfailed hrecorded with
      ⟨point', hpushed, hnext, hlater, hstage⟩ | ⟨hcourse, hstate, rfl, report, rfl⟩ |
        ⟨hcourse, payload, hraised, rfl⟩
    · have hmem : .run id l point' ∈ after.frames thread := by
        rw [hadvance.own]
        exact List.mem_append_left _ hpushed
      exact ⟨.inl ⟨point', hmem, hstage⟩, .underWay hmem hnext hlater⟩
    · refine ⟨.inr (.inl hcourse), ?_⟩
      rw [Frame.made?_done, Option.toList_none, List.append_nil]
      exact .ended hcourse hstate
    · refine ⟨.inr (.inr ⟨payload, hraised⟩), .unwound hcourse ?_⟩
      rw [Frame.made?_raise, Option.toList_none, List.append_nil]
      exact hhandles.accountsFor
  | ended hcourse => exact (hover (.inl hcourse)).elim
  | unwound hcourse => exact (hover (.inr hcourse)).elim

theorem Handling.advance
    (hreach : (ofFragments fragments host).ReachableUnder permitted system)
    (hhandling : system.Handling thread id fault calls)
    (hadvance : system.Advance after owner frame rest next) :
    after.Handling thread id fault (calls ++ (frame.made? id next).toList) := by
  have hgrows := (Frame.step_transition id hadvance.step).grows
  cases hhandling with
  | returned hframes hreturned =>
    have hmem := hframes ▸ List.mem_cons_self
    rcases hadvance.own_or_beside hmem with ⟨rfl, rfl⟩ | hbeside
    · have hhandling := Handling.returned hframes hreturned
      exact (hhandling.own hreach hadvance hreturned.ne_start).2
    · have howner : thread ≠ owner := by
        rintro rfl
        obtain ⟨rfl, -⟩ := List.cons.inj (hadvance.frames.symm.trans hframes)
        exact hreturned.ne_start
          (hadvance.not_live_beside hreach hreturned.ne_start hbeside)
      obtain ⟨hsame, hsignal⟩ := hadvance.same_of_busy howner (List.ne_nil_of_mem hmem)
      rw [hadvance.made?_eq_none hreach hreturned.ne_start hbeside]
      exact .returned (hsame.trans hframes) (hsignal ▸ hreturned)
  | underWay hmem hhandles hfailed =>
    rcases hadvance.own_or_beside hmem with ⟨rfl, rfl⟩ | hbeside
    · have hhandling := Handling.underWay hmem hhandles hfailed
      exact (hhandling.own hreach hadvance hhandles.ne_start).2
    · rw [hadvance.made?_eq_none hreach hhandles.ne_start hbeside, Option.toList_none,
        List.append_nil]
      exact .underWay (hadvance.mem_of_beside_before hbeside) hhandles fun hsettled =>
        hgrows.failed (hfailed hsettled)
  | ended hcourse hfailed =>
    obtain ⟨hnone, hsame⟩ := hadvance.made?_of_over hreach (.inl hcourse)
    rw [hnone, Option.toList_none, List.append_nil]
    exact .ended (hsame.trans hcourse) (hgrows.failed hfailed)
  | unwound hcourse haccounts =>
    obtain ⟨hnone, hsame⟩ := hadvance.made?_of_over hreach (.inr hcourse)
    rw [hnone, Option.toList_none, List.append_nil]
    exact .unwound (hsame.trans hcourse) haccounts

/-- A run that handles an error is at one of the points for it. -/
theorem Handling.point_cases
    (hreach : (ofFragments fragments host).ReachableUnder permitted system)
    (hhandling : system.Handling thread id fault calls)
    (hmem : .run id l point ∈ system.frames owner) (hpoint : point ≠ .start) :
    (∃ signal, point.Returned fault signal) ∨ point.Handles id fault calls := by
  have hlive := hreach.course_of_run hmem hpoint
  cases hhandling with
  | returned hframes hreturned =>
    obtain ⟨-, -, rfl⟩ := hreach.live_unique hmem hpoint (hframes ▸ List.mem_cons_self)
      hreturned.ne_start
    exact .inl ⟨_, hreturned⟩
  | underWay hown hhandles =>
    obtain ⟨-, -, rfl⟩ := hreach.live_unique hmem hpoint hown hhandles.ne_start
    exact .inr hhandles
  | ended hcourse | unwound hcourse =>
    rw [hlive] at hcourse
    cases hcourse

/-- At these points a run finds no lock held and does not rest. -/
theorem Handling.not_kept
    (hreach : (ofFragments fragments host).ReachableUnder permitted system)
    (hhandling : system.Handling thread id fault calls)
    (hmem : .run id l point ∈ system.frames owner) (hpoint : point ≠ .start) {view : LockView} :
    ¬ ((Frame.run id l point).Blocked system.world view ∨
      (Frame.run id l point).Rests system.world owner) := by
  rintro (hblocked | hrests)
  · cases hblocked
    rcases hhandling.point_cases hreach hmem hpoint with ⟨signal, hreturned⟩ | hhandles
    · cases hreturned
    · cases hhandles with
      | concluding hconcluding => cases hconcluding
      | reported hreported => simp at hreported
  · cases hrests

/-- The run itself always takes a step, and each of its steps takes it further. -/
theorem Handling.forward
    (hreach : (ofFragments fragments host).ReachableUnder permitted system)
    (hhandling : system.Handling thread id fault calls)
    (hframes : system.frames thread = .run id l point :: rest) (hpoint : point ≠ .start)
    (hexit : system.world.exit = none)
    (hsignal : ∀ payload, system.signal thread ≠ .raised payload) :
    ∃ after, system.step thread = some after ∧
      ((after.executor id).course = .ended thread ∨
        ∃ point', .run id l point' ∈ after.frames thread ∧ point.stage < point'.stage) := by
  obtain ⟨after, hstep⟩ : ∃ after, system.step thread = some after := by
    refine Option.ne_none_iff_exists'.mp fun hstuck => ?_
    exact hhandling.not_kept hreach (hframes ▸ List.mem_cons_self) hpoint
      (hreach.stuck_cases hexit hframes hstuck)
  obtain ⟨moving, below, next, hadvance⟩ := advance_of_step hstep
  obtain ⟨rfl, rfl⟩ := List.cons.inj (hadvance.frames.symm.trans hframes)
  refine ⟨after, hstep, ?_⟩
  rcases (hhandling.own hreach hadvance hpoint).1 with hlater | hended | ⟨payload, hraised⟩
  · exact .inr hlater
  · exact .inl hended
  · exact absurd hraised (hsignal payload)

/-- The thread of the run stops nowhere but in a call that the run has made. -/
theorem Handling.waits
    (hreach : (ofFragments fragments host).ReachableUnder permitted system)
    (hhandling : system.Handling thread id fault calls)
    (hcourse : (system.executor id).course = .underWay thread) (hexit : system.world.exit = none)
    (hstuck : system.step thread = none) :
    ∃ frame above l point below, system.frames thread = frame :: above ++ .run id l point :: below ∧
      point ≠ .start ∧
      (frame.Blocked system.world (system.view thread) ∨ frame.Rests system.world thread) := by
  obtain ⟨l, point, hmem, hpoint⟩ := hreach.run_of_course hcourse
  obtain ⟨frame, rest, hframes⟩ := List.exists_cons_of_ne_nil (List.ne_nil_of_mem hmem)
  have hkept := hreach.stuck_cases hexit hframes hstuck
  rw [hframes] at hmem
  rcases List.mem_cons.mp hmem with rfl | hmem
  · exact absurd hkept (hhandling.not_kept hreach (hframes ▸ List.mem_cons_self) hpoint)
  · obtain ⟨above, below, rfl⟩ := List.append_of_mem hmem
    exact ⟨frame, above, l, point, below, hframes, hpoint, hkept⟩

/-! ### What the calls leave behind -/

theorem ReachableUnder.alarm_le
    (hreach : (ofFragments fragments host).ReachableUnder permitted system) (id : ExecutorId) :
    tally (Entry.isEntered Call.isAlarm) (system.executor id).journal +
      (system.executor id).course.fresh + system.total (within id Frame.alarmDue) ≤ 1 := by
  refine hreach.once id _ Frame.alarmDue (fun _ => rfl) ?_ fun htransition hcore =>
    htransition.alarm_le hcore
  rintro frame ⟨⟩ <;> rfl

/-- The handler has not been called where an error is returned. -/
theorem ReachableUnder.not_alarmed_of_returned
    (hreach : (ofFragments fragments host).ReachableUnder permitted system) {signal : Signal}
    (hmem : .run id l point ∈ system.frames thread) (hreturned : point.Returned fault signal)
    (exhaustion : OutOfMemory) : ¬ (system.executor id).Alarmed exhaustion := by
  rintro ⟨owner, hentered⟩
  have hle := hreach.alarm_le id
  have hdue := weight_le_total (within id Frame.alarmDue) hmem
  have hmade : 0 < tally (Entry.isEntered Call.isAlarm) (system.executor id).journal :=
    (tally_pos_iff _ _).mpr ⟨_, hentered, rfl⟩
  rw [within_run] at hdue
  have hone : (Frame.run id l point).alarmDue = 1 := by cases hreturned <;> rfl
  omega

/-- The handler is called by the run that waits for it. -/
theorem ReachableUnder.alarming_of_call
    (hreach : (ofFragments fragments host).ReachableUnder permitted system)
    {exhaustion : OutOfMemory} {callPoint : CallPoint}
    (hmem : .call id (.exhausted exhaustion) callPoint ∈ system.frames thread) :
    ∃ l, .run id l (.alarming exhaustion) ∈ system.frames thread := by
  obtain ⟨caller, hcaller, hawaits⟩ := (hreach.linked thread).exists_caller hmem rfl
  simp only [Frame.role] at hawaits
  cases hawaits with
  | alarm => exact ⟨_, List.mem_of_mem_tail hcaller⟩
  | entry hentry => cases (Action.entry?_eq_call hentry).2.2

section Returned

variable {returned : RunPoint}
  (hreach : (ofFragments fragments host).ReachableUnder (fun _ => True) start)
  (hframes : start.frames thread = .run id l returned :: rest)
  (hreturned : returned.Returned fault (start.signal thread))
  (hcalls : start.RunCalls id calls system)

include hreach hframes hreturned hcalls

theorem RunCalls.handling : system.Handling thread id fault calls :=
  hcalls.invariant (fun calls system => system.Handling thread id fault calls)
    (.returned hframes hreturned) (fun hturn hhandling => hhandling.turnover hturn)
    fun hbefore hadvance hhandling => hhandling.advance (hreach.trans hbefore.later) hadvance

/-- The handler has been called by the run alone. -/
theorem RunCalls.called_of_alarmed : ∀ exhaustion, (system.executor id).Alarmed exhaustion →
    .call id (.exhausted exhaustion) ∈ calls := by
  refine hcalls.invariant (fun calls system => ∀ exhaustion,
    (system.executor id).Alarmed exhaustion → .call id (.exhausted exhaustion) ∈ calls) ?_ ?_ ?_
  · intro exhaustion halarmed
    have hnone := hreach.not_alarmed_of_returned (hframes ▸ List.mem_cons_self) hreturned
    exact absurd halarmed (hnone exhaustion)
  · intro calls system after owner root hturn hcalled exhaustion
    rw [hturn.executor_eq]
    exact hcalled exhaustion
  · rintro calls system after owner frame rest next hbefore hadvance hcalled exhaustion
      ⟨caller, hentered⟩
    refine List.mem_append_left _ ?_
    rcases (Frame.step_transition id hadvance.step).journal_cases with
      hsame | ⟨entry, hwrites, hlonger⟩
    · exact hcalled exhaustion ⟨caller, hsame ▸ hentered⟩
    · rw [System.executor, hlonger, List.mem_append, List.mem_singleton] at hentered
      rcases hentered with hentered | hnew
      · exact hcalled exhaustion ⟨caller, hentered⟩
      · obtain ⟨rfl, rfl⟩ := Record.mk.inj hnew
        cases hwrites with
        | entered =>
          have hearlier := hreach.trans hbefore.later
          obtain ⟨l, hrun⟩ := hearlier.alarming_of_call (hadvance.frames ▸ List.mem_cons_self)
          rcases (hbefore.handling hreach hframes hreturned).point_cases hearlier hrun
              (by simp) with ⟨signal, hpoint⟩ | hhandles
          · cases hpoint
          · cases hhandles with
            | alarming => exact List.mem_singleton_self _
            | concluding hconcluding => cases hconcluding
            | reported hreported => simp at hreported

end Returned

end Calls

/-- What has become of an error that was returned to the run of an executor, by the calls
that the run has made since. -/
structure FaultHandled (system : System) (thread : ThreadId) (id : ExecutorId) (fault : Fault)
    (calls : List Role) : Prop where
  /-- The run handles the error, closes the resources and reports the failure, in this
  order and once each. -/
  inOrder : fault.AccountsFor id calls
  /-- Every call has left its trace, unless it is on top of the stack and has yet to begin. -/
  begun : ∀ role ∈ calls,
    role.Begun thread (system.executor id) ∨ system.Calling thread id role
  /-- The handler of an exhausted heap has been called by these calls alone. -/
  alarmed : ∀ exhaustion, (system.executor id).Alarmed exhaustion →
    .call id (.exhausted exhaustion) ∈ calls
  alarmedOnce : tally (Entry.isEntered Call.isAlarm) (system.executor id).journal ≤ 1
  /-- The first cause that was recorded decides the kind of a report. -/
  reported : ∀ owner report, ⟨owner, .entered (.fail report)⟩ ∈ (system.executor id).journal →
    ∃ cause others, recordedCauses (system.executor id).journal = cause :: others ∧
      report.causes.primary = cause ∧
      (report.kind = .memory ↔
        ∃ exhaustion, cause.layers.findSome? Context.execution? = some (.memory exhaustion))
  /-- The thread of the run stops nowhere but in a call that the run has made. -/
  waits : (system.executor id).course = .underWay thread → system.world.exit = none →
    system.step thread = none → ∃ frame above l point below,
      system.frames thread = frame :: above ++ .run id l point :: below ∧ point ≠ .start ∧
      (frame.Blocked system.world (system.view thread) ∨ frame.Rests system.world thread)
  /-- Where no call keeps the run, it takes a step towards its end. -/
  forward : ∀ l point rest, system.frames thread = .run id l point :: rest → point ≠ .start →
    system.world.exit = none → (∀ payload, system.signal thread ≠ .raised payload) →
    ∃ after, system.step thread = some after ∧
      ((after.executor id).course = .ended thread ∨
        ∃ point', .run id l point' ∈ after.frames thread ∧ point.stage < point'.stage)
  /-- A run that has ended has closed the resources and reported the failure. -/
  ended : (system.executor id).course = .ended thread →
    (system.executor id).state = .failed ∧ system.IsClosed id ∧ ∃ report,
      calls = fault.handling id ++ [.closeResources id, .call id (.fail report)] ∧
      (∀ role ∈ calls, role.Begun thread (system.executor id)) ∧
      (system.executor id).terminalReports = [⟨thread, .entered (.fail report)⟩]
  /-- The run ends otherwise only where the handler, the context or the reporter panics. -/
  unwound : (system.executor id).course = .unwound thread →
    ∃ record ∈ (system.executor id).journal, ∃ call, call.isTrusted = true ∧
      record.entry = .left call true

section Handled

variable {fragments : List Fragment} {host : Host} {system after : System} {thread : ThreadId}
  {id : ExecutorId} {l : Option ListenerId} {point : RunPoint} {rest : List Frame}
  {fault : Fault} {calls : List Role}

/-- How an error that the build or an advance has returned is handled, whatever goes on
beside the run.  The run looks for the outermost exhaustion among the contexts of the error
and its base.  If there is one, it calls the handler where that is one of the heap, and
records an error of execution about it; if there is none, it records the error as it is.
Then it closes the resources and reports the failure, unless a call of a collaborator never
returns or panics.  The handler is called for nothing else, and the kind of the report is
that of the first cause, which may have been recorded by others. -/
theorem returned_fault_handled (hreach : (ofFragments fragments host).Reachable system)
    (hframes : system.frames thread = .run id l point :: rest)
    (hreturned : point.Returned fault (system.signal thread))
    (hcalls : system.RunCalls id calls after) : after.FaultHandled thread id fault calls := by
  have hunder := hreach.unrestricted
  have hlater := hunder.trans hcalls.later
  have hhandling := hcalls.handling hunder hframes hreturned
  have hbegun := hcalls.begun hunder (by
    rw [hunder.course_of_run (hframes ▸ List.mem_cons_self) hreturned.ne_start]
    rfl)
  constructor
  case inOrder =>
    cases hhandling with
    | returned => exact .inl (List.nil_prefix)
    | underWay _ hhandles => exact hhandles.accountsFor
    | ended => exact .inr ⟨_, rfl⟩
    | unwound _ haccounts => exact haccounts
  case begun => exact hbegun
  case alarmed => exact hcalls.called_of_alarmed hunder hframes hreturned
  case alarmedOnce =>
    have hle := hlater.alarm_le id
    omega
  case reported =>
    intro owner report hentered
    obtain ⟨hkind, others, hcauses⟩ := hlater.primary_of_report hentered
    refine ⟨_, others, hcauses, rfl, ?_⟩
    rw [hkind, FailureKind.ofCause_eq_memory, Fault.execution?_eq]
  case waits => exact hhandling.waits hlater
  case forward =>
    intro l point rest hframes hpoint hexit hsignal
    exact hhandling.forward hlater hframes hpoint hexit hsignal
  case ended =>
    intro hcourse
    have hclosed := hlater.closed_of_ended hcourse
    have hall (role : Role) (hmem : role ∈ calls) : role.Begun thread (after.executor id) := by
      refine (hbegun role hmem).resolve_right fun hcalling => ?_
      rw [hcalling.underWay hlater] at hcourse
      cases hcourse
    cases hhandling with
    | @ended report _ hfailed =>
      have hentered : ⟨thread, .entered (.fail report)⟩ ∈ (after.executor id).journal :=
        hall (.call id (.fail report)) (by simp)
      exact ⟨hfailed, hclosed, report, rfl, hall, hlater.terminalReports_eq hentered rfl⟩
    | returned hrun hpoint =>
      rw [hlater.course_of_run (hrun ▸ List.mem_cons_self) hpoint.ne_start] at hcourse
      cases hcourse
    | underWay hrun hhandles =>
      rw [hlater.course_of_run hrun hhandles.ne_start] at hcourse
      cases hcourse
    | unwound hunwound =>
      rw [hunwound] at hcourse
      cases hcourse
  case unwound =>
    intro hcourse
    obtain ⟨record, hmem, hbreach⟩ := (tally_pos_iff _ _).mp (hlater.breach_of_unwound hcourse)
    cases hentry : record.entry with
    | left call panicked =>
      simp only [hentry, Entry.isBreach, Bool.and_eq_true] at hbreach
      obtain ⟨htrusted, rfl⟩ := hbreach
      exact ⟨record, hmem, call, htrusted, hentry⟩
    | _ => simp [hentry, Entry.isBreach] at hbreach

/-- What a builder returns that has run out of heap memory: the allocator is not to blame. -/
def exhaustedHeap : Fault :=
  .within (.text "c") (.within (.outOfMemory ⟨.heap, "m"⟩) (.outOfMemory ⟨.allocator, "n"⟩))

def exhaustedByBuild : Fragment :=
  { Fragment.vacant with script := { build := { outcome := .error exhaustedHeap } } }

/-- The handler is called, returns, and the run goes on to a report of exhausted memory. -/
theorem returned_fault_handled_of_exhausted_build :
    ∃ system rest calls after report,
      (ofFragments [exhaustedByBuild] { slots := { free := 0 } }).Reachable system ∧
      system.frames 0 = .run 0 none .building :: rest ∧
      RunPoint.building.Returned exhaustedHeap (system.signal 0) ∧
      system.RunCalls 0 calls after ∧
      calls = [.call 0 (.exhausted ⟨.heap, "m"⟩), .fail 0 (.execution (.memory ⟨.heap, "m"⟩)),
        .closeResources 0, .call 0 (.fail report)] ∧
      (after.executor 0).terminalReports = [⟨0, .entered (.fail report)⟩] ∧
      report.kind = .memory := by
  obtain ⟨system, after, hreach, hseen, -, hlater, hend⟩ := exists_later_of_moves
    (ofFragments [exhaustedByBuild] { slots := { free := 0 } })
    (.call (.act 0 .run) :: List.replicate 7 (.step 0)) (List.replicate 26 (.step 0))
    (fun system => (system.frames 0, system.signal 0))
    ([.run 0 none .building, .perform 0 .run .waiting], .replied (.failed exhaustedHeap))
    (fun system => ((system.executor 0).course, recordedCauses (system.executor 0).journal))
    (.ended 0, [.execution (.memory ⟨.heap, "m"⟩)]) rfl rfl
  obtain ⟨hframes, hsignal⟩ := Prod.mk.inj hseen
  obtain ⟨hcourse, hcauses⟩ := Prod.mk.inj hend
  have hreturned : RunPoint.building.Returned exhaustedHeap (system.signal 0) :=
    hsignal ▸ .built
  obtain ⟨calls, hcalls⟩ := (Reachable.refl.of_moves hlater).exists_runCalls 0
  have hhandled := returned_fault_handled hreach hframes hreturned hcalls
  obtain ⟨-, -, report, hmade, -, hreports⟩ := hhandled.ended hcourse
  refine ⟨system, _, calls, after, report, hreach, hframes, hreturned, hcalls, hmade, hreports, ?_⟩
  have hreported : ⟨0, .entered (.fail report)⟩ ∈ (after.executor 0).journal :=
    List.mem_of_mem_filter (hreports ▸ List.mem_singleton_self _)
  obtain ⟨cause, others, hrecorded, -, hkind⟩ := hhandled.reported 0 report hreported
  obtain ⟨rfl, -⟩ := List.cons.inj (hcauses.symm.trans hrecorded)
  exact hkind.mpr ⟨_, rfl⟩

end Handled

end System

end FragmentLifecycle
