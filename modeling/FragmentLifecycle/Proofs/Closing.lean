import FragmentLifecycle.Proofs.Settlement

/-!
# One close of the resources

The flag for closed resources is set once, by the close that then holds the closing lock.
Whoever comes later waits for the lock, so the run goes on from its own close only when
the close is complete (`System.ReachableUnder.closed_of_past`).
-/

namespace FragmentLifecycle

/-- Weighs the closes past the flag.  They hold the closing lock. -/
def Frame.closing : Frame → Nat
  | .closeResources _ point => point.holdsClosing.toNat
  | _ => 0

/-- Only a close holds the closing lock. -/
theorem Frame.eq_closeResources_of_holds {frame : Frame} {id : ExecutorId}
    (hholds : frame.holds (.closing id) = true) :
    ∃ point, frame = .closeResources id point ∧ point.holdsClosing = true := by
  cases frame with
  | closeResources owner point =>
    simp only [Frame.holds, Bool.and_eq_true, decide_eq_true_eq, Lock.closing.injEq] at hholds
    obtain ⟨hpoint, rfl⟩ := hholds
    exact ⟨point, rfl, hpoint⟩
  | _ => simp [Frame.holds] at hholds

/-- The points of a run after its resources were closed. -/
def RunPoint.isPastClosing : RunPoint → Bool
  | .unwatch | .conclude | .ensureCause | .drain | .reporting | .retire => true
  | _ => false

section Transitions

variable {view : LockView} {thread : ThreadId} {id : ExecutorId} {frame : Frame}
  {signal : Signal} {executor executor' : Executor} {next : Next}

theorem Transition.closing_le
    (htransition : Transition view thread id frame signal executor next executor')
    (hcore : frame.isCore id = true) :
    (!executor'.resourcesClosed).toNat + (next.frames.map (within id Frame.closing)).sum ≤
      (!executor.resourcesClosed).toNat + frame.closing := by
  cases htransition
  case aside houtside _ _ => simp [houtside] at hcore
  case callProceeds hsame _ => simp [Frame.closing, hsame.resourcesClosed]
  case closeBegins hclosed => simp [Frame.closing, hclosed, ClosePoint.holdsClosing]
  all_goals simp [Frame.closing, ClosePoint.holdsClosing]

/-- A run comes past the close from there, or where its close has returned. -/
theorem Transition.past_pushed
    (htransition : Transition view thread id frame signal executor next executor')
    (hcore : frame.isCore id = true) {l : Option ListenerId} {point : RunPoint}
    (hpushed : .run id l point ∈ next.frames) (hpast : point.isPastClosing = true) :
    (∃ l' point', frame = .run id l' point' ∧ point'.isPastClosing = true) ∨
      ∃ l' reply, frame = .run id l' .closing ∧ signal = .replied reply := by
  cases htransition
  case aside houtside _ _ => simp [houtside] at hcore
  all_goals simp at hpushed
  all_goals try obtain ⟨-, rfl⟩ := hpushed
  all_goals try cases hpast
  case resourcesReleased => exact .inr ⟨_, _, rfl, rfl⟩
  all_goals exact .inl ⟨_, _, rfl, rfl⟩

end Transitions

namespace System

/-- The resources of an executor were closed, and the close has come to its end. -/
def IsClosed (system : System) (id : ExecutorId) : Prop :=
  (system.executor id).resourcesClosed = true ∧ system.total (within id Frame.closing) = 0

section Closing

variable {fragments : List Fragment} {host : Host} {permitted : Command → Prop}
  {system after : System} {thread : ThreadId} {id : ExecutorId} {frame : Frame}
  {rest : List Frame} {next : Next}

theorem ReachableUnder.closing_total
    (hreach : (ofFragments fragments host).ReachableUnder permitted system) (id : ExecutorId) :
    (!(system.executor id).resourcesClosed).toNat + system.total (within id Frame.closing) ≤ 1 := by
  refine hreach.summed_within id (fun executor => (!executor.resourcesClosed).toNat)
    Frame.closing (· ≤ 1) (fun _ _ _ => True) (fun _ _ => trivial) ?_ ?_
    (fun _ => Nat.le_refl 1) ?_
  · rintro frame ⟨⟩ <;> rfl
  · intro thread executor executor' hsame
    rw [hsame.resourcesClosed]
  · intro view thread frame signal executor next executor' _ hcore htransition others hle
    have hstep := htransition.closing_le hcore
    omega

/-- There is at most one close past the flag. -/
theorem ReachableUnder.closing_unique
    (hreach : (ofFragments fragments host).ReachableUnder permitted system) {owner : ThreadId}
    {point point' : ClosePoint} (hmem : .closeResources id point ∈ system.frames thread)
    (hmem' : .closeResources id point' ∈ system.frames owner)
    (hpoint : point.holdsClosing = true) (hpoint' : point'.holdsClosing = true) :
    thread = owner ∧ point = point' := by
  have htotal := hreach.closing_total id
  obtain ⟨hthread, hsame⟩ := eq_of_total_le_one (within id Frame.closing) (by omega) hmem hmem'
    (by simp [Frame.closing, hpoint]) (by simp [Frame.closing, hpoint'])
  rw [Frame.closeResources.injEq] at hsame
  exact ⟨hthread, hsame.2⟩

theorem ReachableUnder.closed_of_closing
    (hreach : (ofFragments fragments host).ReachableUnder permitted system) {point : ClosePoint}
    (hmem : .closeResources id point ∈ system.frames thread)
    (hpoint : point.holdsClosing = true) : (system.executor id).resourcesClosed = true := by
  have htotal := hreach.closing_total id
  have hweighs := weight_le_total (within id Frame.closing) hmem
  rw [within_closeResources, Frame.closing, hpoint, Bool.toNat_true] at hweighs
  by_contra hopen
  rw [Bool.not_eq_true] at hopen
  rw [hopen, Bool.not_false, Bool.toNat_true] at htotal
  omega

/-- A thread that finds the closing lock free finds no close in progress. -/
theorem total_closing_of_free (hfree : (system.view thread).closingHeld id = false) :
    system.total (within id Frame.closing) = 0 := by
  refine total_eq_zero _ fun owner frame hmem => ?_
  have hframe : frame.holds (.closing id) = false := by
    by_contra hholds
    have hheld : system.held (.closing id) = true :=
      held_iff.mpr ⟨owner, frame, hmem, by simpa using hholds⟩
    exact absurd (hfree.symm.trans hheld) Bool.false_ne_true
  cases frame with
  | closeResources owner point =>
    by_cases howner : owner = id
    · subst howner
      simpa [Frame.holds, Frame.closing] using hframe
    · exact within_outside id _ (by simp [Frame.isCore, howner])
  | _ => simp [within, Frame.closing]

namespace IsClosed

theorem advance (hclosed : system.IsClosed id)
    (hadvance : system.Advance after thread frame rest next) : after.IsClosed id := by
  obtain ⟨hflag, htotal⟩ := hclosed
  have htransition := Frame.step_transition id hadvance.step
  have hafter : (after.executor id).resourcesClosed = true := htransition.grows.closed hflag
  refine ⟨hafter, ?_⟩
  by_cases hcore : frame.isCore id = true
  · have hlaw := hadvance.total_within id Frame.closing
    have hstep := htransition.closing_le hcore
    have hbefore : (!(system.world.executors id).resourcesClosed).toNat = 0 := by
      rw [← System.executor, hflag]
      rfl
    have hframe : within id Frame.closing frame = frame.closing := if_pos hcore
    omega
  · rwa [hadvance.total_outside (by simpa using hcore) Frame.closing
      (by rintro frame ⟨⟩ <;> rfl)]

theorem turnover {root : Frame} (hclosed : system.IsClosed id)
    (hturn : system.Turnover after thread root) : after.IsClosed id := by
  rw [IsClosed, hturn.executor_eq, hturn.total_within]
  exact hclosed

end IsClosed

/-- A close that returns leaves the resources closed. -/
theorem ReachableUnder.closed_of_close
    (hreach : (ofFragments fragments host).ReachableUnder permitted system) {point : ClosePoint}
    {reply : Reply} (hadvance : system.Advance after thread (.closeResources id point) rest next)
    (hsignal : next.signal = .replied reply) : after.IsClosed id := by
  have htotal := hreach.closing_total id
  have hlaw := hadvance.total_within id Frame.closing
  have htransition := Frame.step_transition id hadvance.step
  have hbefore := weight_le_total (within id Frame.closing)
    (hadvance.frames ▸ List.mem_cons_self)
  rw [IsClosed]
  simp only [System.executor] at htotal ⊢
  generalize system.signal thread = signal, system.world.executors id = executor,
    after.world.executors id = executor' at htransition htotal
  cases htransition with
  | aside houtside => simp [Frame.isCore] at houtside
  | closeRepeats hfree hclosed =>
    have hnone := total_closing_of_free hfree
    simp [Frame.closing, ClosePoint.holdsClosing] at hlaw
    exact ⟨hclosed, by omega⟩
  | closeEnds =>
    simp [Frame.closing, ClosePoint.holdsClosing] at hlaw hbefore
    cases hflag : executor.resourcesClosed
    · simp [hflag] at htotal
      omega
    · exact ⟨rfl, by omega⟩
  | _ => cases hsignal

/-- The resources are closed where a close has returned. -/
theorem ReachableUnder.closed_of_reply
    (hreach : (ofFragments fragments host).ReachableUnder permitted system) {caller : Frame}
    {reply : Reply} (hcaller : caller.Awaits (.closeResources id))
    (hframes : system.frames thread = caller :: rest)
    (hsignal : system.signal thread = .replied reply) : system.IsClosed id := by
  refine hreach.on_reply (fun system _ caller signal => caller.Awaits (.closeResources id) →
    ∀ reply, signal = .replied reply → system.IsClosed id) ?_ ?_ ?_ hframes (by simp [hsignal])
    hcaller reply hsignal
  · intro system after thread root hturn owner caller signal hholds hcaller reply hsignal
    exact (hholds hcaller reply hsignal).turnover hturn
  · intro system after thread frame caller rest next hreach hadvance hawaits _ _ hcaller reply
      hsignal
    obtain ⟨point, rfl⟩ : ∃ point, frame = .closeResources id point := by
      apply Frame.eq_closeResources_of_role
      generalize frame.role = role at hawaits
      cases hcaller with
      | close | cancelClose =>
        cases hawaits
        rfl
      | @entry owner action _ hentry => cases action <;> cases hentry
    exact hreach.closed_of_close hadvance hsignal
  · intro system after thread frame rest next hreach hadvance owner caller signal _ _ hholds
      hcaller reply hsignal
    exact (hholds hcaller reply hsignal).advance hadvance

/-- The resources are closed when the run has come past its close, and from then on. -/
theorem ReachableUnder.closed_of_past
    (hreach : (ofFragments fragments host).ReachableUnder permitted system)
    {l : Option ListenerId} {point : RunPoint} (hmem : .run id l point ∈ system.frames thread)
    (hpast : point.isPastClosing = true) : system.IsClosed id := by
  refine hreach.pervades id (fun system _ frame => ∀ l point, frame = .run id l point →
    point.isPastClosing = true → system.IsClosed id) ?_ ?_ ?_ ?_ hmem (by simp [Frame.isCore]) l
    point rfl hpast
  · rintro system thread _ ⟨⟩ l point ⟨⟩ ⟨⟩
  · intro system after thread root hturn owner frame hholds l point hframe hpast
    exact (hholds l point hframe hpast).turnover hturn
  · rintro system after thread frame rest next hreach hadvance htransition hcore hframe _ hpushed -
      l point rfl hpast
    rcases htransition.past_pushed hcore hpushed hpast with
      ⟨l', point', rfl, hbefore⟩ | ⟨l', reply, rfl, hsignal⟩
    · exact (hframe l' point' rfl hbefore).advance hadvance
    · exact (hreach.closed_of_reply .close hadvance.frames hsignal).advance hadvance
  · intro system after thread frame rest next hreach hadvance _ owner other _ _ hother l point
      hframe hpast
    exact (hother l point hframe hpast).advance hadvance

end Closing

end System

end FragmentLifecycle
