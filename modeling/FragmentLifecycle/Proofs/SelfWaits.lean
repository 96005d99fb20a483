import FragmentLifecycle.Proofs.ClosePanics
import FragmentLifecycle.Proofs.ShutGate

/-!
# Cancellations that wait for their own thread

A collaborator may cancel the fragment that calls it.  Only the setup lock may be taken
again by the thread that holds it: a cancellation made while the running state is announced
waits at the gate that its own thread is about to open, and one made while the tree or the
context is closed waits for the closing lock that its own thread holds.  Neither ever goes
on.  At the other calls on collaborators no cancellation waits for itself
(`System.self_wait_iff_announcing_or_closing`).
-/

namespace FragmentLifecycle

/-- The calls inside which a cancellation may come to wait for its own thread. -/
def Call.isDeadEnd : Call → Bool
  | .stateChanged .running | .closeRoot | .closeContext => true
  | _ => false

/-- The points of a close that waits for a collaborator. -/
def ClosePoint.isCalling : ClosePoint → Bool
  | .closingRoot | .closingContext => true
  | _ => false

section Transitions

variable {view : LockView} {thread : ThreadId} {id : ExecutorId} {signal : Signal}
  {executor executor' : Executor} {next : Next}

theorem Transition.lock_cases
    (htransition :
      Transition view thread id (.cancel id .lockSetup) signal executor next executor') :
    next = .goto (.cancel id .inspect) := by
  cases htransition with
  | cancelLocks => rfl
  | aside houtside => simp [Frame.isCore] at houtside

/-- A cancellation waits at the gate where it finds a tree, and closes the resources where
it finds none. -/
theorem Transition.inspect_cases
    (htransition :
      Transition view thread id (.cancel id .inspect) signal executor next executor') :
    (executor.treeHeld = true ∧ next = .goto (.cancel id .waitGate)) ∨
      (executor.treeHeld = false ∧
        next = .call (.cancel id .closing) (.closeResources id .lockClosing)) := by
  cases htransition with
  | cancelFindsTree hheld => exact .inl ⟨hheld, rfl⟩
  | cancelCloses hheld => exact .inr ⟨hheld, rfl⟩
  | aside houtside => simp [Frame.isCore] at houtside

end Transitions

namespace System

/-- The cancellation that stands on `rest` waits for its own thread: at the gate that the
run on this thread is yet to open, or for the closing lock that this thread holds. -/
inductive WaitsForItself (system : System) (id : ExecutorId) (thread : ThreadId)
    (rest : List Frame) : Prop
  | atGate (hframes : system.frames thread = .cancel id .waitGate :: rest)
      (hshut : (system.executor id).gate.isOpen = false)
      (hcourse : (system.executor id).course = .underWay thread)
  | forClose
      (hframes :
        system.frames thread = .closeResources id .lockClosing :: .cancel id .closing :: rest)
      (hholds : (system.stack thread).holds (.closing id) = true)

/-- The cancellation that stands on `rest` has not come past the lock and the look at the
tree, or waits for its own thread. -/
inductive HeldUp (system : System) (id : ExecutorId) (thread : ThreadId) (rest : List Frame) : Prop
  | called {point : CancelPoint} (hpoint : point = .lockSetup ∨ point = .inspect)
      (hframes : system.frames thread = .cancel id point :: rest)
  | waits (hwaits : system.WaitsForItself id thread rest)

section SelfWaits

variable {fragments : List Fragment} {host : Host} {permitted : Command → Prop}
  {system after : System} {id : ExecutorId} {thread : ThreadId} {frame : Frame}
  {rest below : List Frame} {next : Next} {l : Option ListenerId} {point : ClosePoint}

/-! ### What a thread holds -/

theorem holds_closing_iff : (system.stack thread).holds (.closing id) = true ↔
    ∃ point, .closeResources id point ∈ system.frames thread ∧ point.holdsClosing = true := by
  rw [stack_holds_iff]
  constructor
  · rintro ⟨frame, hmem, hholds⟩
    obtain ⟨point, rfl, hpoint⟩ := Frame.eq_closeResources_of_holds hholds
    exact ⟨point, hmem, hpoint⟩
  · rintro ⟨point, hmem, hpoint⟩
    exact ⟨_, hmem, by simp [Frame.holds, hpoint]⟩

/-- The closing lock of a close in progress is not free. -/
theorem not_free_of_closing {owner : ThreadId}
    (hmem : .closeResources id point ∈ system.frames owner) (hpoint : point.holdsClosing = true) :
    (system.view thread).closingHeld id = true := by
  by_contra hfree
  have hnone := total_closing_of_free (by simpa using hfree)
  have hweighs := weight_le_total (within id Frame.closing) hmem
  simp [Frame.closing, hpoint, hnone] at hweighs

/-- A close below a cancellation waits for the tree or for the context. -/
theorem isCalling_of_below (hlinked : Linked (frame :: rest))
    (hmem : .closeResources id point ∈ rest)
    (hframe : ∀ owner cause at', frame ≠ .fail owner cause at') : point.isCalling = true := by
  obtain ⟨role, hawaits⟩ := hlinked.exists_callee hmem
  cases hawaits with
  | closeRoot | closeContext => rfl
  | closeFailure =>
    obtain ⟨owner, cause, at', rfl⟩ := hlinked.innermost_of_recording hmem (by
      rintro _ ⟨⟩
      exact ⟨_, _, rfl⟩)
    exact absurd rfl (hframe owner cause at')

/-- The run that a cancellation finds barred on its own thread announces its tree. -/
theorem announcing_of_below (hlinked : Linked (frame :: rest)) {point : RunPoint}
    (hmem : .run id l point ∈ rest) (hpoint : point.isBarring = true)
    (hframe : ∀ owner cause at', frame ≠ .fail owner cause at') : point = .announcing := by
  obtain ⟨role, hawaits⟩ := hlinked.exists_callee hmem
  cases hawaits with
  | running => rfl
  | failure =>
    obtain ⟨owner, cause, at', rfl⟩ := hlinked.innermost_of_recording hmem (by
      rintro _ ⟨⟩
      exact ⟨_, _, rfl⟩)
    exact absurd rfl (hframe owner cause at')
  | _ => cases hpoint

/-! ### Where a cancellation waits for itself -/

/-- What waits for itself waits inside the announcement of the running state, or inside a
close of the tree or the context. -/
theorem ReachableUnder.waitsForItself_iff
    (hreach : (ofFragments fragments host).ReachableUnder permitted system) :
    system.WaitsForItself id thread rest ↔
      (system.frames thread = .cancel id .waitGate :: rest ∧ ∃ l, .run id l .announcing ∈ rest) ∨
      (system.frames thread = .closeResources id .lockClosing :: .cancel id .closing :: rest ∧
        ∃ point, .closeResources id point ∈ rest ∧ point.isCalling = true) := by
  have hlinked := hreach.linked thread
  constructor
  · intro hwaits
    cases hwaits with
    | atGate hframes hshut hcourse =>
      rw [hframes] at hlinked
      have hbarred := hreach.barred_of_waiting (hframes ▸ List.mem_cons_self) hshut
      obtain ⟨owner, l, point, hrun, hpoint⟩ := hreach.run_of_barred hbarred
      have hlive := hreach.course_of_run hrun (by rintro rfl; cases hpoint)
      obtain rfl : thread = owner := by simpa [hcourse] using hlive
      have hbelow : .run id l point ∈ rest := by simpa [hframes] using hrun
      obtain rfl := announcing_of_below hlinked hbelow hpoint (by simp)
      exact .inl ⟨hframes, l, hbelow⟩
    | forClose hframes hholds =>
      obtain ⟨point, hmem, hpoint⟩ := holds_closing_iff.mp hholds
      rw [hframes] at hlinked hmem
      have hbelow : .closeResources id point ∈ rest := by
        rcases List.mem_cons.mp hmem with hsame | hbelow
        · cases hsame
          cases hpoint
        · simpa using hbelow
      exact .inr ⟨hframes, point, hbelow, isCalling_of_below hlinked.tail hbelow (by simp)⟩
  · rintro (⟨hframes, l, hrun⟩ | ⟨hframes, point, hclose, hpoint⟩)
    · have hmem : .run id l .announcing ∈ system.frames thread := by simp [hframes, hrun]
      exact .atGate hframes (hreach.shut_of_run hmem rfl) (hreach.course_of_run hmem (by simp))
    · refine .forClose hframes (holds_closing_iff.mpr ⟨point, by simp [hframes, hclose], ?_⟩)
      cases point <;> first | rfl | cases hpoint

/-- A collaborator's call stands above the run or the close that a cancellation waits for. -/
theorem ReachableUnder.exists_deadEnd
    (hreach : (ofFragments fragments host).ReachableUnder permitted system)
    (hwaits : system.WaitsForItself id thread rest) :
    ∃ call point, .call id call point ∈ rest ∧ call.isDeadEnd = true := by
  have hlinked := hreach.linked thread
  rcases hreach.waitsForItself_iff.mp hwaits with
    ⟨hframes, l, hrun⟩ | ⟨hframes, point, hclose, hpoint⟩
  · rw [hframes] at hlinked
    obtain ⟨callee, hcallee, hawaits⟩ := hlinked.exists_callee_mem hrun
    generalize hrole : callee.role = role at hawaits
    cases hawaits with
    | running =>
      obtain ⟨at', rfl⟩ := Frame.eq_call_of_role hrole
      exact ⟨_, at', by simpa using hcallee, rfl⟩
  · rw [hframes] at hlinked
    obtain ⟨callee, hcallee, hawaits⟩ := hlinked.tail.exists_callee_mem hclose
    generalize hrole : callee.role = role at hawaits
    cases hawaits with
    | closeRoot | closeContext =>
      obtain ⟨at', rfl⟩ := Frame.eq_call_of_role hrole
      exact ⟨_, at', by simpa using hcallee, rfl⟩
    | closeFailure => cases hpoint

/-! ### It waits for ever -/

theorem WaitsForItself.not_advance (hwaits : system.WaitsForItself id thread rest) :
    ¬ system.Advance after thread frame below next := by
  intro hadvance
  have htransition := Frame.step_transition id hadvance.step
  cases hwaits with
  | atGate hframes hshut hcourse =>
    obtain ⟨rfl, -⟩ := List.cons.inj (hadvance.frames.symm.trans hframes)
    rw [System.executor] at hshut
    generalize system.signal thread = signal, system.world.executors id = executor,
      after.world.executors id = executor' at htransition hshut
    cases htransition with
    | aside houtside => simp [Frame.isCore] at houtside
    | cancelPasses hopen =>
      rw [hshut] at hopen
      cases hopen
  | forClose hframes hholds =>
    obtain ⟨rfl, -⟩ := List.cons.inj (hadvance.frames.symm.trans hframes)
    obtain ⟨point, hmem, hpoint⟩ := holds_closing_iff.mp hholds
    have hheld : (system.view thread).closingHeld id = true := not_free_of_closing hmem hpoint
    generalize system.signal thread = signal, system.world.executors id = executor,
      after.world.executors id = executor', system.view thread = view at htransition hheld
    cases htransition with
    | aside houtside => simp [Frame.isCore] at houtside
    | closeRepeats hfree | closeBegins hfree =>
      rw [hheld] at hfree
      cases hfree

theorem WaitsForItself.step (hwaits : system.WaitsForItself id thread rest) :
    system.step thread = none := by
  by_contra hsome
  obtain ⟨after, hafter⟩ := Option.ne_none_iff_exists'.mp hsome
  obtain ⟨frame, below, next, hadvance⟩ := advance_of_step hafter
  exact hwaits.not_advance hadvance

/-- What waits for its own thread is inside the setup section. -/
theorem WaitsForItself.holds_setup (hwaits : system.WaitsForItself id thread rest) :
    (system.stack thread).holds (.setup id) = true := by
  refine List.any_eq_true.mpr ?_
  cases hwaits with
  | atGate hframes =>
    rw [System.frames] at hframes
    exact ⟨_, hframes ▸ List.mem_cons_self, by simp [Frame.holds, CancelPoint.holdsSetup]⟩
  | forClose hframes =>
    rw [System.frames] at hframes
    exact ⟨_, hframes ▸ List.mem_cons_of_mem _ List.mem_cons_self,
      by simp [Frame.holds, CancelPoint.holdsSetup]⟩

theorem HeldUp.frames (hheld : system.HeldUp id thread rest) :
    ∃ above point, system.frames thread = above ++ .cancel id point :: rest := by
  cases hheld with
  | called hpoint hframes => exact ⟨[], _, hframes⟩
  | waits hwaits =>
    cases hwaits with
    | atGate hframes => exact ⟨[], _, hframes⟩
    | forClose hframes => exact ⟨[_], _, hframes⟩

theorem HeldUp.exists_core (hheld : system.HeldUp id thread rest) :
    ∃ frame ∈ system.frames thread, frame.isCore id = true := by
  obtain ⟨above, point, hframes⟩ := hheld.frames
  exact ⟨.cancel id point, by simp [hframes], by simp [Frame.isCore]⟩

/-- A cancellation that looks for the tree inside the announcement, or that finds none
inside a close, comes to wait for its own thread. -/
theorem ReachableUnder.waits_of_inspect
    (hreach : (ofFragments fragments host).ReachableUnder permitted system)
    (hframes : system.frames thread = .cancel id .inspect :: rest)
    (hsite : (∃ l, .run id l .announcing ∈ rest) ∨
      ((system.executor id).treeHeld = false ∧ ∃ point, .closeResources id point ∈ rest))
    (hstep : system.step thread = some after) : after.WaitsForItself id thread rest := by
  have hafter : (ofFragments fragments host).ReachableUnder permitted after :=
    .move (.step thread) trivial hreach hstep
  have hlinked := hframes ▸ hreach.linked thread
  obtain ⟨frame, below, next, hadvance⟩ := advance_of_step hstep
  obtain ⟨rfl, rfl⟩ := List.cons.inj (hadvance.frames.symm.trans hframes)
  have hown := hadvance.own
  rw [hafter.waitsForItself_iff]
  rcases hsite with ⟨l, hrun⟩ | ⟨hnone, point, hclose⟩
  · have hmem : .run id l .announcing ∈ system.frames thread := by simp [hframes, hrun]
    have hheld := hreach.treeHeld_of_announcing hmem rfl
    rcases (Frame.step_transition id hadvance.step).inspect_cases with
      ⟨-, rfl⟩ | ⟨hnone, -⟩
    · exact .inl ⟨hown, l, hrun⟩
    · rw [System.executor, hnone] at hheld
      cases hheld
  · rcases (Frame.step_transition id hadvance.step).inspect_cases with
      ⟨hheld, -⟩ | ⟨-, rfl⟩
    · rw [System.executor, hheld] at hnone
      cases hnone
    · exact .inr ⟨hown, point, hclose, isCalling_of_below hlinked hclose (by simp)⟩

theorem ReachableUnder.exists_step_of_inspect
    (hreach : (ofFragments fragments host).ReachableUnder permitted system)
    (hframes : system.frames thread = .cancel id .inspect :: rest)
    (hexit : system.world.exit = none) : ∃ after, system.step thread = some after := by
  have hsignal : system.signal thread = .go := by
    refine hreach.signal_go hframes ?_
    rintro role ⟨⟩
  obtain ⟨next, hstep⟩ : ∃ next, (Frame.cancel id .inspect).step system.world (system.view thread)
      thread (system.signal thread) = some (system.world, next) := by
    rw [hsignal]
    cases hheld : (system.world.executors id).treeHeld <;> simp [Frame.step, stepCancel, hheld]
  obtain ⟨after, hafter, -⟩ := exists_advance hexit hframes hstep
  exact ⟨after, hafter⟩

/-! ### It never returns -/

/-- The site of a cancellation that cannot return: the announcement of the running state,
or the close that the run makes. -/
def IsTrap (id : ExecutorId) (rest : List Frame) : Prop :=
  (∃ l, .run id l .announcing ∈ rest) ∨
    ∃ l point, [.closeResources id point, .run id l .closing] <:+: rest

theorem ReachableUnder.heldUp_of_step
    (hreach : (ofFragments fragments host).ReachableUnder permitted system)
    (htrap : IsTrap id rest) (hheld : system.HeldUp id thread rest)
    (hstep : system.step thread = some after) : after.HeldUp id thread rest := by
  cases hheld with
  | waits hwaits =>
    rw [hwaits.step] at hstep
    cases hstep
  | called hpoint hframes =>
    rcases hpoint with rfl | rfl
    · obtain ⟨frame, below, next, hadvance⟩ := advance_of_step hstep
      obtain ⟨rfl, rfl⟩ := List.cons.inj (hadvance.frames.symm.trans hframes)
      obtain rfl := (Frame.step_transition id hadvance.step).lock_cases
      exact .called (.inr rfl) hadvance.own
    · refine .waits (hreach.waits_of_inspect hframes (htrap.imp_right ?_) hstep)
      rintro ⟨l, point, hpair⟩
      have hclose : .closeResources id point ∈ rest := hpair.mem (by simp)
      have hcalling := isCalling_of_below (hframes ▸ hreach.linked thread) hclose (by simp)
      have hstack : [.closeResources id point, .run id l .closing] <:+: system.frames thread := by
        rw [hframes]
        exact hpair.trans (List.suffix_cons _ _).isInfix
      refine ⟨hreach.treeless_of_closing hstack ?_, point, hclose⟩
      cases point <;> first | rfl | cases hcalling

theorem WaitsForItself.of_same (hwaits : system.WaitsForItself id thread rest)
    (hreach : (ofFragments fragments host).ReachableUnder permitted system)
    (hafter : (ofFragments fragments host).ReachableUnder permitted after)
    (hsame : after.frames thread = system.frames thread) : after.WaitsForItself id thread rest := by
  have hsite := hreach.waitsForItself_iff.mp hwaits
  rw [← hsame] at hsite
  exact hafter.waitsForItself_iff.mpr hsite

theorem HeldUp.of_same (hheld : system.HeldUp id thread rest)
    (hreach : (ofFragments fragments host).ReachableUnder permitted system)
    (hafter : (ofFragments fragments host).ReachableUnder permitted after)
    (hsame : after.frames thread = system.frames thread) : after.HeldUp id thread rest := by
  cases hheld with
  | called hpoint hframes => exact .called hpoint (hsame.trans hframes)
  | waits hwaits => exact .waits (hwaits.of_same hreach hafter hsame)

theorem ReachableUnder.heldUp_later
    (hreach : (ofFragments fragments host).ReachableUnder permitted system)
    (htrap : IsTrap id rest) (hheld : system.HeldUp id thread rest) {later : System}
    (hlater : system.ReachableUnder permitted later) : later.HeldUp id thread rest := by
  induction hlater with
  | refl => exact hheld
  | move move hpermitted hlater hmove ih =>
    have hbefore := hreach.trans hlater
    obtain ⟨frame, hmem, hcore⟩ := ih.exists_core
    rcases move_cases_of_core hmem hcore hmove with rfl | ⟨hsame, -⟩
    · exact hbefore.heldUp_of_step htrap ih hmove
    · exact ih.of_same hbefore (.move move hpermitted hbefore hmove) hsame

/-- What waits for its own thread does so for ever. -/
theorem ReachableUnder.waits_later
    (hreach : (ofFragments fragments host).ReachableUnder permitted system)
    (hwaits : system.WaitsForItself id thread rest) {later : System}
    (hlater : system.ReachableUnder permitted later) : later.WaitsForItself id thread rest := by
  induction hlater with
  | refl => exact hwaits
  | move move hpermitted hlater hmove ih =>
    have hbefore := hreach.trans hlater
    obtain ⟨frame, hmem, hcore⟩ := (HeldUp.waits ih).exists_core
    rcases move_cases_of_core hmem hcore hmove with rfl | ⟨hsame, -⟩
    · rw [System.move, ih.step] at hmove
      cases hmove
    · exact ih.of_same hbefore (.move move hpermitted hbefore hmove) hsame

end SelfWaits

variable {fragments : List Fragment} {host : Host} {system : System}

/-- A cancellation is not safe inside every call on a collaborator.  It waits for its own
thread exactly where it has found the tree that this thread announces as running, and where
it closes the resources inside a close of the tree or of the context that this thread makes;
so never inside the builder, an advance, another report or the handler of an exhausted heap.
What waits for its own thread never goes on, whatever the others do, and holds the setup
lock for good.  A cancellation gets there from the announcement, and from any close inside
which it finds no tree; one called inside the announcement or inside the close that the run
makes never returns. -/
theorem self_wait_iff_announcing_or_closing
    (hreach : (ofFragments fragments host).Reachable system) (id : ExecutorId)
    (thread : ThreadId) (rest : List Frame) :
    (system.WaitsForItself id thread rest ↔
      (system.frames thread = .cancel id .waitGate :: rest ∧ ∃ l, .run id l .announcing ∈ rest) ∨
      (system.frames thread = .closeResources id .lockClosing :: .cancel id .closing :: rest ∧
        ∃ point, .closeResources id point ∈ rest ∧ point.isCalling = true)) ∧
      (system.WaitsForItself id thread rest →
        (∃ call point, .call id call point ∈ rest ∧ call.isDeadEnd = true) ∧
          ∀ later, system.Reachable later → later.WaitsForItself id thread rest ∧
            later.step thread = none ∧ (later.stack thread).holds (.setup id) = true) ∧
      (system.frames thread = .cancel id .inspect :: rest → system.world.exit = none →
        ((∃ l, .run id l .announcing ∈ rest) ∨
          ((system.executor id).treeHeld = false ∧ ∃ point, .closeResources id point ∈ rest)) →
        ∃ after, system.step thread = some after ∧ after.WaitsForItself id thread rest) ∧
      (system.frames thread = .cancel id .lockSetup :: rest → IsTrap id rest →
        ∀ later, system.Reachable later →
          ∃ above point, later.frames thread = above ++ .cancel id point :: rest) := by
  have hunder := hreach.unrestricted
  refine ⟨hunder.waitsForItself_iff, fun hwaits => ⟨hunder.exists_deadEnd hwaits, ?_⟩, ?_, ?_⟩
  · intro later hlater
    have hstill := hunder.waits_later hwaits hlater.unrestricted
    exact ⟨hstill, hstill.step, hstill.holds_setup⟩
  · intro hframes hexit hsite
    obtain ⟨after, hstep⟩ := hunder.exists_step_of_inspect hframes hexit
    exact ⟨after, hstep, hunder.waits_of_inspect hframes hsite hstep⟩
  · intro hframes htrap later hlater
    exact (hunder.heldUp_later htrap (.called (.inl rfl) hframes) hlater.unrestricted).frames

/-- A fragment whose reporter cancels it when it hears that it runs. -/
def hasty : Fragment :=
  { Fragment.vacant with
    script :=
      { onReport := fun state => if state = .running then { actions := [.cancel] } else {} } }

/-- A fragment whose context cancels it when it is closed. -/
def insistent : Fragment :=
  { Fragment.vacant with script := { closeContext := { actions := [.cancel] } } }

/-- A run and a cancellation that such fragments stop for good. -/
theorem self_wait_iff_announcing_or_closing_of_callbacks :
    (∃ system after, (ofFragments [hasty] { slots := { free := 0 } }).Reachable system ∧
      system.frames 0 = [.cancel 0 .inspect, .perform 0 .cancel .waiting,
        .call 0 (.stateChanged .running) (.acting .cancel []), .run 0 (some 0) .announcing,
        .perform 0 .run .waiting] ∧
      system.step 0 = some after ∧
      ∀ later, after.Reachable later → later.step 0 = none) ∧
      ∃ system after, (ofFragments [insistent] { slots := { free := 0 } }).Reachable system ∧
        system.frames 0 = [.cancel 0 .inspect, .perform 0 .cancel .waiting,
          .call 0 .closeContext (.acting .cancel []), .closeResources 0 .closingContext,
          .cancel 0 .closing, .perform 0 .cancel .waiting] ∧
        system.step 0 = some after ∧
        ∀ later, after.Reachable later → later.step 0 = none := by
  constructor
  · obtain ⟨system, hreach, hend⟩ := exists_of_moves
      (ofFragments [hasty] { slots := { free := 0 } })
      (.call (.act 0 .run) :: List.replicate 15 (.step 0))
      (fun system => (system.frames 0, system.world.exit))
      ([.cancel 0 .inspect, .perform 0 .cancel .waiting,
        .call 0 (.stateChanged .running) (.acting .cancel []), .run 0 (some 0) .announcing,
        .perform 0 .run .waiting], none) rfl
    obtain ⟨hframes, hexit⟩ : _ ∧ _ := by simpa only [Prod.mk.injEq] using hend
    obtain ⟨-, -, hreached, -⟩ := self_wait_iff_announcing_or_closing hreach 0 0 _
    obtain ⟨after, hstep, hwaits⟩ := hreached hframes hexit (.inl ⟨some 0, by simp⟩)
    have hafter := Reachable.move (.step 0) hreach hstep
    obtain ⟨-, hforever, -⟩ := self_wait_iff_announcing_or_closing hafter 0 0 _
    exact ⟨system, after, hreach, hframes, hstep,
      fun later hlater => ((hforever hwaits).2 later hlater).2.1⟩
  · obtain ⟨system, hreach, hend⟩ := exists_of_moves
      (ofFragments [insistent] { slots := { free := 0 } })
      (.call (.act 0 .cancel) :: List.replicate 12 (.step 0))
      (fun system => (system.frames 0, system.world.exit, (system.executor 0).treeHeld))
      ([.cancel 0 .inspect, .perform 0 .cancel .waiting,
        .call 0 .closeContext (.acting .cancel []), .closeResources 0 .closingContext,
        .cancel 0 .closing, .perform 0 .cancel .waiting], none, false) rfl
    obtain ⟨hframes, hexit, hnone⟩ : _ ∧ _ ∧ _ := by simpa only [Prod.mk.injEq] using hend
    obtain ⟨-, -, hreached, -⟩ := self_wait_iff_announcing_or_closing hreach 0 0 _
    obtain ⟨after, hstep, hwaits⟩ := hreached hframes hexit
      (.inr ⟨hnone, .closingContext, by simp⟩)
    have hafter := Reachable.move (.step 0) hreach hstep
    obtain ⟨-, hforever, -⟩ := self_wait_iff_announcing_or_closing hafter 0 0 _
    exact ⟨system, after, hreach, hframes, hstep,
      fun later hlater => ((hforever hwaits).2 later hlater).2.1⟩

end System

end FragmentLifecycle
