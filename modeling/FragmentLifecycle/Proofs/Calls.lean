import FragmentLifecycle.Proofs.Growth

/-!
# Calls on collaborators

A call that was entered is either in progress or has been left, and what its caller gets
is what the plan of the call says.  The journal counts both ends.
-/

namespace FragmentLifecycle

def Entry.isEntered (kind : Call → Bool) : Entry → Bool
  | .entered call => kind call
  | _ => false

def Entry.isLeft (kind : Call → Bool) : Entry → Bool
  | .left call _ => kind call
  | _ => false

/-- Weighs the calls of a kind that have been entered. -/
def Frame.inProgress (kind : Call → Bool) : Frame → Nat
  | .call _ _ .enter => 0
  | .call _ target _ => (kind target).toNat
  | _ => 0

/-- The point of a call agrees with the plan that the call plays. -/
def CallPoint.Plays (plan : Plan) : CallPoint → Prop
  | .play actions => actions <:+ plan.actions
  | .acting action rest => (action :: rest) <:+ plan.actions
  | .parking | .parked => plan.outcome = .park
  | _ => True

theorem Frame.call_of_inProgress {id : ExecutorId} {kind : Call → Bool} {frame : Frame}
    (hweighs : 0 < within id (Frame.inProgress kind) frame) :
    ∃ call point, frame = .call id call point ∧ kind call = true := by
  obtain ⟨hcore, hweight⟩ := within_pos id _ hweighs
  cases frame with
  | call owner call point =>
    obtain rfl : owner = id := by simpa [Frame.isCore] using hcore
    refine ⟨call, point, rfl, ?_⟩
    cases hkind : kind call with
    | true => rfl
    | false => cases point <;> simp [Frame.inProgress, hkind] at hweight
  | _ => cases hweight

section Transitions

variable {view : LockView} {thread : ThreadId} {id : ExecutorId} {frame : Frame}
  {signal : Signal} {executor executor' : Executor} {next : Next}

theorem CallPoint.Plays.follow {plan : Plan} {source target : CallPoint}
    (hfollows : CallPoint.Follows plan source target) (hplays : source.Plays plan) :
    target.Plays plan := by
  cases hfollows with
  | closedBefore | resumed => exact List.suffix_refl _
  | closedNow | detached => trivial
  | parks houtcome => exact houtcome
  | sleeps | wakes => exact hplays

theorem Transition.plays
    (htransition : Transition view thread id frame signal executor next executor')
    (hcore : frame.isCore id = true)
    (hplays : ∀ call point, frame = .call id call point →
      point.Plays (executor.fragment.script.planOf call)) {call : Call} {point : CallPoint}
    (hpushed : .call id call point ∈ next.frames) :
    point.Plays (executor.fragment.script.planOf call) := by
  cases htransition
  case aside houtside _ _ => simp [houtside] at hcore
  case callProceeds hpoints hsame _ =>
    simp at hpushed
    obtain ⟨rfl, rfl⟩ := hpushed
    exact .follow hpoints (hplays _ _ rfl)
  all_goals simp at hpushed
  all_goals try obtain ⟨rfl, rfl⟩ := hpushed
  case callEntered => exact List.suffix_refl _
  case callActs =>
    have hbefore := hplays _ _ rfl
    exact hbefore
  case callActed =>
    have hbefore : _ :: _ <:+ _ := hplays _ _ rfl
    exact (List.suffix_cons _ _).trans hbefore
  all_goals trivial

theorem Transition.inProgress (kind : Call → Bool)
    (htransition : Transition view thread id frame signal executor next executor')
    (hcore : frame.isCore id = true) :
    tally (Entry.isLeft kind) executor'.journal +
      (next.frames.map (within id (Frame.inProgress kind))).sum +
        tally (Entry.isEntered kind) executor.journal =
      tally (Entry.isLeft kind) executor.journal + frame.inProgress kind +
        tally (Entry.isEntered kind) executor'.journal := by
  cases htransition
  case aside houtside _ _ => simp [houtside] at hcore
  case callProceeds hpoints hsame hjournal =>
    rw [hjournal]
    cases hpoints <;> simp [Frame.inProgress]
  all_goals simp [Frame.inProgress, Entry.isLeft, Entry.isEntered]
  all_goals omega

end Transitions

namespace System

section Calls

variable {fragments : List Fragment} {host : Host} {permitted : Command → Prop}
  {system : System} {id : ExecutorId}

theorem ReachableUnder.plays
    (hreach : (ofFragments fragments host).ReachableUnder permitted system)
    {thread : ThreadId} {call : Call} {point : CallPoint}
    (hmem : .call id call point ∈ system.frames thread) :
    point.Plays ((system.executor id).fragment.script.planOf call) := by
  refine hreach.everywhere id (fun executor _ frame => ∀ call point,
    frame = .call id call point → point.Plays (executor.fragment.script.planOf call))
    ?_ ?_ ?_ hmem (by simp [Frame.isCore]) call point rfl
  · rintro executor thread _ ⟨⟩ call point ⟨⟩
    trivial
  · rintro system after thread frame rest next hreach hadvance htransition hcore hframe
      _ hpushed - call point rfl
    rw [htransition.grows.fragment]
    exact htransition.plays hcore hframe hpushed
  · rintro system after thread frame rest next hreach hadvance htransition owner other hbeside
      - hother call point rfl
    rw [htransition.grows.fragment]
    exact hother call point rfl

/-- Of what is made, a frame carries on what is not done yet. -/
theorem ReachableUnder.conserved (id : ExecutorId) (made done : Entry → Bool)
    (weight : Frame → Nat)
    (hforwarded : ∀ receiver,
      made (.forwarded receiver) = false ∧ done (.forwarded receiver) = false)
    (hentry : ∀ frame : Frame, frame.IsEntry → weight frame = 0)
    (hstep : ∀ {system after : System} {thread frame rest next},
      (ofFragments fragments host).ReachableUnder permitted system →
      system.Advance after thread frame rest next →
      Transition (system.view thread) thread id frame (system.signal thread)
        (system.executor id) next (after.executor id) → frame.isCore id = true →
      tally done (after.executor id).journal + (next.frames.map (within id weight)).sum +
          tally made (system.executor id).journal =
        tally done (system.executor id).journal + weight frame +
          tally made (after.executor id).journal)
    (hreach : (ofFragments fragments host).ReachableUnder permitted system) :
    tally done (system.executor id).journal + system.total (within id weight) =
      tally made (system.executor id).journal := by
  refine hreach.invariant (fun system => tally done (system.executor id).journal +
    system.total (within id weight) = tally made (system.executor id).journal) rfl ?_ ?_
  · intro system after thread root hturn htotal
    rw [hturn.executor_eq, hturn.total_within]
    exact htotal
  · intro system after thread frame rest next hreach hadvance htotal
    have htransition := Frame.step_transition id hadvance.step
    by_cases hcore : frame.isCore id = true
    · have hmoved := hstep hreach hadvance htransition hcore
      have hlaw := hadvance.total_within id weight
      rw [within, if_pos hcore] at hlaw
      omega
    · have houtside : frame.isCore id = false := by simpa using hcore
      obtain ⟨-, hsame⟩ := htransition.outside houtside
      rw [System.executor, hsame.tally_eq fun receiver => (hforwarded receiver).2,
        hsame.tally_eq fun receiver => (hforwarded receiver).1,
        hadvance.total_outside houtside weight hentry]
      exact htotal

/-- Calls that have been left and calls in progress add up to the calls entered. -/
theorem ReachableUnder.calls_total
    (hreach : (ofFragments fragments host).ReachableUnder permitted system) (id : ExecutorId)
    (kind : Call → Bool) :
    tally (Entry.isLeft kind) (system.executor id).journal +
      system.total (within id (Frame.inProgress kind)) =
        tally (Entry.isEntered kind) (system.executor id).journal := by
  refine hreach.conserved id (Entry.isEntered kind) (Entry.isLeft kind) (Frame.inProgress kind)
    (fun _ => ⟨rfl, rfl⟩) ?_ fun _ _ htransition hcore => htransition.inProgress kind hcore
  rintro frame ⟨⟩ <;> rfl

/-- Calls of a kind are balanced where none of them is on a stack. -/
theorem ReachableUnder.calls_balanced
    (hreach : (ofFragments fragments host).ReachableUnder permitted system)
    {kind : Call → Bool}
    (hnone : ∀ thread call point, .call id call point ∈ system.frames thread →
      kind call = false) :
    tally (Entry.isLeft kind) (system.executor id).journal =
      tally (Entry.isEntered kind) (system.executor id).journal := by
  have htotal := hreach.calls_total id kind
  have hzero : system.total (within id (Frame.inProgress kind)) = 0 := by
    refine total_eq_zero _ fun owner frame hmem => ?_
    by_contra hweighs
    obtain ⟨call, point, rfl, hkind⟩ := Frame.call_of_inProgress (Nat.pos_of_ne_zero hweighs)
    rw [hnone owner call point hmem] at hkind
    cases hkind
  omega

end Calls

end System

end FragmentLifecycle
