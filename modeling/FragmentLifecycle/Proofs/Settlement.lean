import FragmentLifecycle.Proofs.Course
import FragmentLifecycle.Proofs.Growth

/-!
# The state while a run winds down

Whatever way a run took to the end of its fragment, the state is terminal from the
moment it lets its waiters go, and failed with a cause where it drains the causes of a
failure.
-/

namespace FragmentLifecycle

/-- The points of a run at which its fragment has come to its end. -/
def RunPoint.isSettled : RunPoint → Bool
  | .releaseWaiters | .closing | .unwatch | .conclude | .ensureCause | .drain | .reporting
  | .retire => true
  | _ => false

/-- The points that a run reaches once its fragment is running. -/
def RunPoint.isRunning : RunPoint → Bool
  | .announcing | .openGate | .assumePrincipal | .pausing _ | .fetchTree _ | .check _
  | .advancing _ | .restorePrincipal _ _ | .finish => true
  | _ => false

/-- What is known of the state at the points of a run. -/
structure Executor.SettledAt (executor : Executor) (point : RunPoint) : Prop where
  terminal : point.isSettled = true → executor.state.isTerminal = true
  failed : point = .ensureCause ∨ point = .drain → executor.state = .failed
  cause : point = .drain → executor.lifecycle.failures.isEmpty = false

namespace Executor.SettledAt

variable {before : Executor} {point : RunPoint}

theorem of_not_settled (hpoint : point.isSettled = false) : before.SettledAt point := by
  refine ⟨fun hsettled => ?_, fun hfailed => ?_, fun hdrain => ?_⟩
  · rw [hpoint] at hsettled
    cases hsettled
  · rcases hfailed with rfl | rfl <;> cases hpoint
  · rw [hdrain] at hpoint
    cases hpoint

end Executor.SettledAt

/-- Causes are taken away only where the run drains them. -/
theorem Transition.failures {view : LockView} {thread : ThreadId} {id : ExecutorId}
    {frame : Frame} {signal : Signal} {executor executor' : Executor} {next : Next}
    (htransition : Transition view thread id frame signal executor next executor')
    (hcause : executor.lifecycle.failures.isEmpty = false) :
    executor'.lifecycle.failures.isEmpty = false ∨ ∃ l, frame = .run id l .drain := by
  cases htransition
  case aside hsame => exact .inl (hsame.lifecycle ▸ hcause)
  case callProceeds hsame _ => exact .inl (hsame.lifecycle ▸ hcause)
  case drains => exact .inr ⟨_, rfl⟩
  case causeSubstituted | causeAppended =>
    exact .inl (by simp [Collector.append, Collector.isEmpty])
  all_goals exact .inl hcause

/-- A run that moves comes to a point that the state after the move settles. -/
theorem Transition.settled {view : LockView} {thread : ThreadId} {id : ExecutorId}
    {frame : Frame} {signal : Signal} {executor executor' : Executor} {next : Next}
    (htransition : Transition view thread id frame signal executor next executor')
    (hcore : frame.isCore id = true)
    (hsettled : ∀ l point, frame = .run id l point → executor.SettledAt point)
    (hrecorded : ∀ l reply, frame = .run id l .recording → signal = .replied reply →
      executor.state.isTerminal = true)
    {l : Option ListenerId} {point : RunPoint} (hpushed : .run id l point ∈ next.frames) :
    executor'.SettledAt point := by
  have hgrows := htransition.grows
  cases htransition
  case aside houtside _ _ => simp [houtside] at hcore
  all_goals simp at hpushed
  all_goals try obtain ⟨-, rfl⟩ := hpushed
  all_goals try exact .of_not_settled rfl
  case finishes =>
    exact ⟨fun _ => State.isTerminal_apply_decide_finished _, by simp, by simp⟩
  case failureRecorded => exact ⟨fun _ => hrecorded _ _ rfl rfl, by simp, by simp⟩
  case concludesFailed hstate =>
    exact ⟨fun _ => by simp [hstate, State.isTerminal], fun _ => hstate, by simp⟩
  case causePresent hcauses =>
    have hbefore := hsettled _ _ rfl
    exact ⟨hbefore.terminal, fun _ => hbefore.failed (.inl rfl), fun _ => hcauses⟩
  case causeSubstituted =>
    have hbefore := hsettled _ _ rfl
    exact ⟨hbefore.terminal, fun _ => hbefore.failed (.inl rfl),
      fun _ => by simp [Collector.append, Collector.isEmpty]⟩
  all_goals
    have hbefore := hsettled _ _ rfl
    exact ⟨fun _ => hgrows.terminal (hbefore.terminal rfl), by simp, by simp⟩

/-- A run gets to a running fragment from its request for this state, or past a builder
that was not called. -/
theorem Transition.running_pushed {view : LockView} {thread : ThreadId} {id : ExecutorId}
    {frame : Frame} {signal : Signal} {executor executor' : Executor} {next : Next}
    (htransition : Transition view thread id frame signal executor next executor')
    (hcore : frame.isCore id = true) {l : Option ListenerId} {point : RunPoint}
    (hpushed : .run id l point ∈ next.frames) (hpoint : point.isRunning = true) :
    (∃ point', frame = .run id l point' ∧ point'.isRunning = true) ∨
      (frame = .run id l .inspect ∧ executor.state.continues = false) ∨
      (frame = .run id l .announce ∧ executor.state.continues = true ∧
        executor'.state = .running) := by
  cases htransition
  case aside houtside _ _ => simp [houtside] at hcore
  all_goals simp at hpushed
  all_goals try obtain ⟨rfl, rfl⟩ := hpushed
  all_goals try cases hpoint
  case runAccepted hstate =>
    refine .inr (.inr ⟨rfl, by rw [hstate]; rfl, ?_⟩)
    rw [Executor.state_request, hstate]
    rfl
  case buildSkipped hstate => exact .inr (.inl ⟨rfl, hstate⟩)
  all_goals exact .inl ⟨_, rfl, rfl⟩

namespace System

section Settlement

variable {fragments : List Fragment} {host : Host} {permitted : Command → Prop}
  {system : System} {id : ExecutorId}

/-- Where the recording of a failure has returned to the run, the state is terminal. -/
theorem ReachableUnder.terminal_of_recorded
    (hreach : (ofFragments fragments host).ReachableUnder permitted system)
    {thread : ThreadId} {l : Option ListenerId} {rest : List Frame} {reply : Reply}
    (hframes : system.frames thread = .run id l .recording :: rest)
    (hsignal : system.signal thread = .replied reply) :
    (system.executor id).state.isTerminal = true := by
  refine hreach.on_return id (fun executor _ caller _ => caller = .run id l .recording →
    executor.state.isTerminal = true) ?_ ?_ hframes (by simp [hsignal]) rfl
  · rintro system after thread frame _ rest next hreach hadvance htransition hawaits hnext - rfl
    obtain ⟨cause, hrole⟩ : ∃ cause, frame.role = .fail id cause := by
      generalize frame.role = role at hawaits
      cases hawaits
      exact ⟨_, rfl⟩
    obtain ⟨point, rfl⟩ := Frame.eq_fail_of_role hrole
    generalize system.signal thread = signal, system.executor id = executor,
      after.executor id = executor' at htransition
    cases htransition with
    | causeAppended => cases hnext
    | failureRequested => exact State.isTerminal_apply_decide_failed _
    | aside houtside => simp [Frame.isCore] at houtside
  · rintro system after thread frame rest next hreach hadvance htransition owner caller signal
      - - hholds hcaller
    exact htransition.grows.terminal (hholds hcaller)

/-- At every point of a run the state is as the point promises. -/
theorem ReachableUnder.settled
    (hreach : (ofFragments fragments host).ReachableUnder permitted system)
    {thread : ThreadId} {l : Option ListenerId} {point : RunPoint}
    (hmem : .run id l point ∈ system.frames thread) : (system.executor id).SettledAt point := by
  refine hreach.everywhere id (fun executor _ frame => ∀ l point, frame = .run id l point →
    executor.SettledAt point) ?_ ?_ ?_ hmem (by simp [Frame.isCore]) l point rfl
  · rintro executor thread _ ⟨⟩ l point ⟨⟩
    exact .of_not_settled rfl
  · rintro system after thread frame rest next hreach hadvance htransition hcore hframe
      _ hpushed - l point rfl
    refine htransition.settled hcore hframe (fun l reply hrecording hsignal => ?_) hpushed
    exact hreach.terminal_of_recorded (hrecording ▸ hadvance.frames) hsignal
  · rintro system after thread frame rest next hreach hadvance htransition owner other hbeside
      - hother l point rfl
    have hpoint := hother l point rfl
    refine ⟨fun h => htransition.grows.terminal (hpoint.terminal h),
      fun h => htransition.grows.failed (hpoint.failed h), fun hdrain => ?_⟩
    -- another run that drains the causes would be a second live one
    rcases htransition.failures (hpoint.cause hdrain) with hcause | ⟨l', rfl⟩
    · exact hcause
    · have hle := hadvance.add_le_total (within id Frame.live) hbeside
      have htotal := hreach.live_total id
      simp [Frame.live, hdrain] at hle
      omega

/-- Past its request for the running state, or past a builder that was not called, a run
finds a fragment that does not wait any more. -/
theorem ReachableUnder.begun_of_running
    (hreach : (ofFragments fragments host).ReachableUnder permitted system)
    {thread : ThreadId} {l : Option ListenerId} {point : RunPoint}
    (hmem : .run id l point ∈ system.frames thread) (hpoint : point.isRunning = true) :
    (system.executor id).state ≠ .awaitingAllocation := by
  refine hreach.everywhere id (fun executor _ frame => ∀ l point, frame = .run id l point →
    point.isRunning = true → executor.state ≠ .awaitingAllocation) ?_ ?_ ?_ hmem
    (by simp [Frame.isCore]) l point rfl hpoint
  · rintro executor thread _ ⟨⟩ l point ⟨⟩ ⟨⟩
  · rintro system after thread frame rest next hreach hadvance htransition hcore hframe
      _ hpushed - l point rfl hpoint
    rcases htransition.running_pushed hcore hpushed hpoint with
      ⟨point', rfl, hrunning⟩ | ⟨rfl, hstopped⟩ | ⟨rfl, -, hstate⟩
    · exact htransition.grows.begun (hframe l point' rfl hrunning)
    · apply htransition.grows.begun
      intro hwaits
      rw [hwaits] at hstopped
      cases hstopped
    · rw [hstate]
      decide
  · intro system after thread frame rest next hreach hadvance htransition owner other _ _ hother
      l point hframe hpoint
    exact htransition.grows.begun (hother l point hframe hpoint)

end Settlement

end System

end FragmentLifecycle
