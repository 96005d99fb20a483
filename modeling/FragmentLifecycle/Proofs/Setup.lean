import FragmentLifecycle.Proofs.Tree

/-!
# The setup lock

The setup lock may be taken again by the thread that holds it, but only what calls back
could do so.  Where no collaborator but the tree calls back, one frame at most is inside
the section, and a cancellation that found no tree closes the resources before a tree can
be stored.
-/

namespace FragmentLifecycle

/-! ## Scripts without callbacks -/

def Call.isNext : Call → Bool
  | .next _ => true
  | _ => false

/-- The actions that neither run nor cancel a fragment and leave its context open. -/
def Action.isPassive : Action → Bool
  | .run | .cancel | .closeContext | .depart _ => false
  | _ => true

/-- Only an advance of the tree may run or cancel the fragment again, and nobody but the
executor closes the context. -/
structure Script.Disciplined (script : Script) : Prop where
  passive : ∀ call, call.isNext = false →
    ∀ action ∈ (script.planOf call).actions, action.isPassive = true
  context : ∀ call, ∀ action ∈ (script.planOf call).actions, action ≠ .closeContext

/-- A call from outside that does not close the context of `id`. -/
def Command.SparesContext (id : ExecutorId) (command : Command) : Prop :=
  command ≠ .act id .closeContext

/-! ## What is called inside a section -/

/-- The roles of what is called, directly or not, inside the setup section and inside a
close of the resources. -/
def Role.isService (id : ExecutorId) : Role → Bool
  | .call owner target => owner = id && !target.isNext
  | .closeResources owner => owner = id
  | .perform _ action => action.isPassive
  | .fail _ _ | .pause _ _ | .finished _ _ => true
  | _ => false

/-- The frames inside the setup section, and the closes of the resources. -/
def Frame.guards (id : ExecutorId) : Frame → Bool
  | .run owner _ point => owner = id && point.holdsSetup
  | .cancel owner point => owner = id && point.holdsSetup
  | .closeResources owner _ => owner = id
  | _ => false

/-- Weighs the frames inside the setup section. -/
def Frame.setup : Frame → Nat
  | .run _ _ point => point.holdsSetup.toNat
  | .cancel _ point => point.holdsSetup.toNat
  | _ => 0

/-- The points at which a close has taken the tree. -/
def ClosePoint.hasTree : ClosePoint → Bool
  | .closingRoot | .recording => true
  | _ => false

/-- The points of a close that has not come to the context. -/
def ClosePoint.isOpening : ClosePoint → Bool
  | .lockClosing | .takeTree => true
  | _ => false

theorem Frame.guards_of_setup {id : ExecutorId} {frame : Frame}
    (hweighs : 0 < within id Frame.setup frame) : frame.guards id = true := by
  obtain ⟨hcore, hweight⟩ := within_pos id _ hweighs
  cases frame with
  | run owner _ _ | cancel owner _ =>
    obtain rfl : owner = id := by simpa [Frame.isCore] using hcore
    simpa [Frame.setup, Frame.guards, Nat.pos_iff_ne_zero] using hweight
  | _ => cases hweight

theorem Action.isService_entry {action : Action} {id owner : ExecutorId} {role : Role}
    (hpassive : action.isPassive = true) (hentry : action.entry? owner = some role) :
    role.isService id = true := by
  cases action <;> first
  | (cases hpassive; done)
  | (cases hentry; done)
  | (cases hentry; rfl)

section Transitions

variable {view : LockView} {thread : ThreadId} {id : ExecutorId} {frame : Frame}
  {signal : Signal} {executor executor' : Executor} {next : Next}

/-- The setup section is entered where the lock is free. -/
theorem Transition.setup_le
    (htransition : Transition view thread id frame signal executor next executor')
    (hcore : frame.isCore id = true) :
    (next.frames.map (within id Frame.setup)).sum ≤ frame.setup ∨
      ((next.frames.map (within id Frame.setup)).sum ≤ 1 ∧ frame.setup = 0 ∧
        view.setupHeldElsewhere id = false ∧ frame.role.isService id = false) := by
  cases htransition
  case aside houtside _ _ => simp [houtside] at hcore
  case runLocks hfree =>
    exact .inr ⟨by simp [Frame.setup, RunPoint.holdsSetup], rfl, hfree, rfl⟩
  case cancelLocks hfree =>
    exact .inr ⟨by simp [Frame.setup, CancelPoint.holdsSetup], rfl, hfree, rfl⟩
  all_goals simp [Frame.setup, RunPoint.holdsSetup, CancelPoint.holdsSetup]

/-- A tree is held from where it was stored. -/
theorem Transition.treeHeld_cases
    (htransition : Transition view thread id frame signal executor next executor')
    (hheld : executor'.treeHeld = true) :
    executor.treeHeld = true ∨ ∃ l, frame = .run id l .keepTree := by
  cases htransition
  case aside hsame => exact .inl (hsame.treeHeld ▸ hheld)
  case callProceeds hsame _ => exact .inl (hsame.treeHeld ▸ hheld)
  case treeKept => exact .inr ⟨_, rfl⟩
  case treeTaken => cases hheld
  all_goals exact .inl hheld

/-- A close with a tree has taken it, or had it before. -/
theorem Transition.closing_pushed
    (htransition : Transition view thread id frame signal executor next executor')
    {point : ClosePoint} (hpushed : .closeResources id point ∈ next.frames)
    (hpoint : point.hasTree = true) :
    (frame = .closeResources id .takeTree ∧ executor.treeHeld = true) ∨
      ∃ point', frame = .closeResources id point' ∧ point'.hasTree = true := by
  cases htransition
  case aside hframes _ =>
    cases hframes _ (List.mem_append_left _ hpushed) (by simp [Frame.isCore])
  case treeTaken hheld => exact .inl ⟨rfl, hheld⟩
  case rootCloseFails | rootClosePanics => exact .inr ⟨_, rfl, rfl⟩
  all_goals simp at hpushed
  all_goals
    subst hpushed
    cases hpoint

/-- A close that a cancellation makes begins without a tree. -/
theorem Transition.treeless_called
    {caller callee : Frame} {point : ClosePoint}
    (htransition : Transition view thread id frame signal executor (.call caller callee) executor')
    (hcaller : caller = .cancel id .closing) (hcallee : callee = .closeResources id point) :
    executor'.treeHeld = false := by
  subst hcaller hcallee
  cases htransition with
  | cancelCloses hheld => exact hheld
  | aside houtside hframes =>
    cases hframes (.closeResources id point) (by simp) (by simp [Frame.isCore])

theorem Transition.treeless_pushed {point point' : ClosePoint}
    (htransition :
      Transition view thread id (.closeResources id point) signal executor next executor')
    (hlast : next.frames.getLast? = some (.closeResources id point'))
    (hpoint' : point'.isOpening = true) :
    point.isOpening = true ∧ executor'.treeHeld = executor.treeHeld := by
  cases htransition
  case aside houtside _ _ => simp [Frame.isCore] at houtside
  all_goals simp at hlast
  all_goals subst hlast
  all_goals try cases hpoint'
  case closeBegins => exact ⟨rfl, rfl⟩

end Transitions

namespace System

section Setup

variable {fragments : List Fragment} {host : Host} {permitted : Command → Prop}
  {system after : System} {id : ExecutorId} {thread : ThreadId}

/-- What an executor's collaborator does stands in its plan. -/
theorem ReachableUnder.mem_plan
    (hreach : (ofFragments fragments host).ReachableUnder permitted system)
    {call : Call} {action : Action} {rest : List Action}
    (hmem : .call id call (.acting action rest) ∈ system.frames thread) :
    action ∈ (((fragments[id]?).getD .vacant).script.planOf call).actions := by
  have hplays : (action :: rest) <:+ _ := hreach.plays hmem
  rw [hreach.fragment_eq id] at hplays
  exact hplays.mem List.mem_cons_self

/-- The innermost frame of a thread inside a section serves this section. -/
theorem ReachableUnder.service_above
    (hdisciplined : ((fragments[id]?).getD .vacant).script.Disciplined)
    (hreach : (ofFragments fragments host).ReachableUnder permitted system) {frame : Frame}
    {rest : List Frame} (hframes : system.frames thread = frame :: rest) {outer : Frame}
    (houter : outer ∈ rest) (hguards : outer.guards id = true) :
    frame.role.isService id = true := by
  have hlinked := hframes ▸ hreach.linked thread
  refine hlinked.innermost (fun frame => frame.guards id = true)
    (fun frame => frame.role.isService id = true) ?_ ⟨outer, houter, hguards⟩
  intro caller hcaller callee hawaits habove
  generalize callee.role = role at hawaits
  cases hawaits with
  | action =>
    have hservice := habove.resolve_left (by simp [Frame.guards])
    simp only [Frame.role, Role.isService, Bool.and_eq_true, decide_eq_true_eq,
      Bool.not_eq_true'] at hservice
    obtain ⟨rfl, hnext⟩ := hservice
    have hmem := hreach.mem_plan (hframes ▸ List.mem_cons_of_mem _ hcaller)
    exact hdisciplined.passive _ hnext _ hmem
  | entry hentry =>
    have hservice := habove.resolve_left (by simp [Frame.guards])
    exact Action.isService_entry hservice hentry
  | _ => simp_all [Frame.guards, Frame.role, Role.isService, RunPoint.holdsSetup,
      CancelPoint.holdsSetup, Call.isNext]

/-- Where the setup lock is free for a thread, no other thread is inside its section. -/
theorem setup_of_free (hfree : (system.view thread).setupHeldElsewhere id = false)
    {owner : ThreadId} (howner : owner ≠ thread) {frame : Frame}
    (hmem : frame ∈ system.frames owner) : within id Frame.setup frame = 0 := by
  have hguards : frame.holds (.setup id) = false := by
    by_contra hholds
    have hheld : system.heldElsewhere thread (.setup id) = true :=
      heldElsewhere_iff.mpr ⟨owner, howner, frame, hmem, by simpa using hholds⟩
    exact absurd (hfree.symm.trans hheld) Bool.false_ne_true
  cases frame with
  | run other _ _ | cancel other _ =>
    by_cases hother : other = id
    · subst hother
      simpa [Frame.holds, Frame.setup] using hguards
    · exact within_outside id _ (by simp [Frame.isCore, hother])
  | _ => simp [within, Frame.setup]

/-- A frame inside the section was there before, or its thread has found the lock free. -/
theorem Advance.setup_cases {frame : Frame} {rest : List Frame} {next : Next}
    (hadvance : system.Advance after thread frame rest next) {owner : ThreadId} {inner : Frame}
    (hmem : inner ∈ after.frames owner) (hweighs : 0 < within id Frame.setup inner) :
    (∃ outer ∈ system.frames owner, 0 < within id Frame.setup outer) ∨
      (owner = thread ∧ (system.view thread).setupHeldElsewhere id = false) := by
  by_cases howner : owner = thread
  · subst howner
    have hframes := hadvance.frames
    rw [hadvance.own] at hmem
    rcases List.mem_append.mp hmem with hpushed | hrest
    · have htransition := Frame.step_transition id hadvance.step
      have hsum : within id Frame.setup inner ≤ (next.frames.map (within id Frame.setup)).sum :=
        List.le_sum_of_mem (List.mem_map_of_mem hpushed)
      by_cases hcore : frame.isCore id = true
      · rcases htransition.setup_le hcore with hkept | ⟨-, -, hfree, -⟩
        · refine .inl ⟨frame, hframes ▸ List.mem_cons_self, ?_⟩
          rw [within, if_pos hcore]
          omega
        · exact .inr ⟨rfl, hfree⟩
      · have hnone := htransition.sum_within_outside (by simpa using hcore) Frame.setup
          (by rintro frame ⟨⟩ <;> rfl)
        omega
    · exact .inl ⟨inner, hframes ▸ List.mem_cons_of_mem _ hrest, hweighs⟩
  · have hsame := hadvance.frames_of_core howner hmem (within_pos id _ hweighs).1
    exact .inl ⟨inner, hsame ▸ hmem, hweighs⟩

/-- Two threads are never inside the setup section together, whatever the collaborators
do. -/
theorem ReachableUnder.setup_exclusive
    (hreach : (ofFragments fragments host).ReachableUnder permitted system) {owner : ThreadId}
    {frame other : Frame} (hmem : frame ∈ system.frames thread)
    (hother : other ∈ system.frames owner) (hweighs : 0 < within id Frame.setup frame)
    (hweighs' : 0 < within id Frame.setup other) : thread = owner := by
  refine hreach.invariant (fun system => ∀ thread owner, ∀ frame ∈ system.frames thread,
    ∀ other ∈ system.frames owner, 0 < within id Frame.setup frame →
      0 < within id Frame.setup other → thread = owner) ?_ ?_ ?_ thread owner frame hmem other
    hother hweighs hweighs'
  · intro thread owner frame hmem
    cases hmem
  · intro system after mover root hturn hholds thread owner frame hmem other hother hweighs hweighs'
    have hbefore {thread : ThreadId} {frame : Frame} (hmem : frame ∈ after.frames thread)
        (hweighs : 0 < within id Frame.setup frame) : frame ∈ system.frames thread :=
      hturn.frames_of_core hmem (within_pos id _ hweighs).1 ▸ hmem
    exact hholds thread owner frame (hbefore hmem hweighs) other (hbefore hother hweighs') hweighs
      hweighs'
  · intro system after mover top rest next hreach hadvance hholds thread owner frame hmem other
      hother hweighs hweighs'
    rcases hadvance.setup_cases hmem hweighs with ⟨outer, houter, hin⟩ | ⟨rfl, hfree⟩
    · rcases hadvance.setup_cases hother hweighs' with ⟨outer', houter', hin'⟩ | ⟨rfl, hfree⟩
      · exact hholds thread owner outer houter outer' houter' hin hin'
      · by_contra hne
        rw [setup_of_free hfree hne houter] at hin
        cases hin
    · by_contra hne
      rcases hadvance.setup_cases hother hweighs' with ⟨outer', houter', hin'⟩ | ⟨rfl, -⟩
      · rw [setup_of_free hfree (Ne.symm hne) houter'] at hin'
        cases hin'
      · exact hne rfl

/-- At most one frame is inside the setup section. -/
theorem ReachableUnder.setup_total
    (hdisciplined : ((fragments[id]?).getD .vacant).script.Disciplined)
    (hreach : (ofFragments fragments host).ReachableUnder permitted system) :
    system.total (within id Frame.setup) ≤ 1 := by
  refine hreach.invariant (fun system => system.total (within id Frame.setup) ≤ 1)
    (Nat.zero_le 1) ?_ ?_
  · intro system after thread root hturn hle
    rw [hturn.total_within]
    exact hle
  · intro system after thread frame rest next hreach hadvance hle
    have htransition := Frame.step_transition id hadvance.step
    by_cases hcore : frame.isCore id = true
    · have hlaw := hadvance.total_within id Frame.setup
      have hframe : within id Frame.setup frame = frame.setup := if_pos hcore
      rcases htransition.setup_le hcore with hkept | ⟨hone, hzero, hfree, hrole⟩
      · omega
      · -- nobody was inside: no other thread, and on this one nothing that guards
        have hnone : system.total (within id Frame.setup) = 0 := by
          refine total_eq_zero _ fun owner other hmem => ?_
          by_cases howner : owner = thread
          · subst howner
            rw [hadvance.frames] at hmem
            rcases List.mem_cons.mp hmem with rfl | hrest
            · rw [hframe, hzero]
            · by_contra hweighs
              have hguards := Frame.guards_of_setup (Nat.pos_of_ne_zero hweighs)
              have hservice := hreach.service_above hdisciplined hadvance.frames hrest hguards
              rw [hrole] at hservice
              cases hservice
          · exact setup_of_free hfree howner hmem
        omega
    · rwa [hadvance.total_outside (by simpa using hcore) Frame.setup
        (by rintro frame ⟨⟩ <;> rfl)]

/-! ### Who closes the resources -/

/-- A close of the resources serves the run or a cancellation. -/
theorem ReachableUnder.closer
    (hreach : (ofFragments fragments host).ReachableUnder permitted system) {point : ClosePoint}
    (hmem : .closeResources id point ∈ system.frames thread) :
    (∃ l, .run id l .closing ∈ (system.frames thread).tail) ∨
      .cancel id .closing ∈ (system.frames thread).tail := by
  obtain ⟨caller, hcaller, hawaits⟩ := (hreach.linked thread).exists_caller hmem rfl
  simp only [Frame.role] at hawaits
  cases hawaits with
  | close => exact .inl ⟨_, hcaller⟩
  | cancelClose => exact .inr hcaller
  | @entry owner action _ hentry => cases action <;> cases hentry

/-- No tree comes up while a cancellation that found none closes the resources. -/
theorem ReachableUnder.treeHeld_of_closing
    (hdisciplined : ((fragments[id]?).getD .vacant).script.Disciplined)
    (hreach : (ofFragments fragments host).ReachableUnder permitted system)
    (hmem : .cancel id .closing ∈ system.frames thread) :
    (system.executor id).treeHeld = false := by
  refine hreach.everywhere id (fun executor _ frame => frame = .cancel id .closing →
    executor.treeHeld = false) ?_ ?_ ?_ hmem (by simp [Frame.isCore]) rfl
  · rintro executor thread _ ⟨⟩ ⟨⟩
  · rintro system after thread frame rest next hreach hadvance htransition hcore - _ hpushed - rfl
    generalize system.signal thread = signal, system.executor id = executor,
      after.executor id = executor' at htransition
    cases htransition
    case aside houtside _ _ => simp [houtside] at hcore
    case cancelCloses hheld => exact hheld
    all_goals simp at hpushed
  · rintro system after thread frame rest next hreach hadvance htransition owner other hbeside
      - hother rfl
    by_contra hheld
    rw [Bool.not_eq_false] at hheld
    rcases htransition.treeHeld_cases hheld with hbefore | ⟨l, rfl⟩
    · rw [hother rfl] at hbefore
      cases hbefore
    · -- the run that stores the tree would be inside the section too
      have hboth := hadvance.add_le_total (within id Frame.setup) hbeside
      have htotal := hreach.setup_total hdisciplined
      simp [Frame.setup, RunPoint.holdsSetup, CancelPoint.holdsSetup] at hboth
      omega

/-- There is no tree while a cancellation begins to close the resources. -/
theorem ReachableUnder.treeless_of_opening
    (hreach : (ofFragments fragments host).ReachableUnder permitted system) {point : ClosePoint}
    (hpair : [.closeResources id point, .cancel id .closing] <:+: system.frames thread)
    (hpoint : point.isOpening = true) : (system.executor id).treeHeld = false := by
  refine hreach.on_call (fun system _ callee caller => caller = .cancel id .closing →
    ∀ point, callee = .closeResources id point → point.isOpening = true →
      (system.executor id).treeHeld = false) ?_ ?_ ?_ ?_ hpair rfl point rfl hpoint
  · intro system after thread root hturn owner callee caller hholds
    rw [hturn.executor_eq]
    exact hholds
  · intro system after thread frame rest caller callee hreach hadvance hcaller point hcallee _
    exact (Frame.step_transition id hadvance.step).treeless_called hcaller hcallee
  · rintro system after thread frame caller rest next hreach hadvance hholds _ hlast hrole hcaller
      point rfl hpoint
    obtain ⟨before, rfl⟩ := Frame.eq_closeResources_of_role hrole.symm
    have htransition := Frame.step_transition id hadvance.step
    obtain ⟨hbefore, hsame⟩ := htransition.treeless_pushed hlast hpoint
    exact hsame.trans (hholds hcaller before rfl hbefore)
  · rintro system after thread frame rest next hreach hadvance owner _ _ hcallee hcaller hholds rfl
      point rfl hpoint
    have hnone : (system.executor id).treeHeld = false := hholds rfl point rfl hpoint
    by_contra hheld
    rw [Bool.not_eq_false] at hheld
    rcases (Frame.step_transition id hadvance.step).treeHeld_cases hheld with hbefore | ⟨l, rfl⟩
    · rw [System.executor, hbefore] at hnone
      cases hnone
    · -- the run that stores a tree is inside the setup section, as the cancellation is
      have htop : .run id l .keepTree ∈ system.frames thread :=
        hadvance.frames ▸ List.mem_cons_self
      have hstoring : 0 < within id Frame.setup (.run id l .keepTree) := by
        simp [Frame.setup, RunPoint.holdsSetup]
      have hclosing : 0 < within id Frame.setup (.cancel id .closing) := by
        simp [Frame.setup, CancelPoint.holdsSetup]
      obtain rfl : thread = owner := hreach.setup_exclusive htop (hadvance.mem_of_beside hcaller)
        hstoring hclosing
      rcases hcallee with ⟨-, hrest⟩ | ⟨hother, -⟩
      · obtain ⟨role, hawaits⟩ := (hadvance.frames ▸ hreach.linked thread).exists_callee hrest
        cases hawaits <;> cases hpoint
      · exact hother rfl

/-- Only the run closes a tree. -/
theorem ReachableUnder.run_of_closing
    (hdisciplined : ((fragments[id]?).getD .vacant).script.Disciplined)
    (hreach : (ofFragments fragments host).ReachableUnder permitted system) {point : ClosePoint}
    (hmem : .closeResources id point ∈ system.frames thread) (hpoint : point.hasTree = true) :
    ∃ l, .run id l .closing ∈ system.frames thread := by
  refine hreach.stackwise (fun _ _ frames _ => ∀ point, .closeResources id point ∈ frames →
    point.hasTree = true → ∃ l, .run id l .closing ∈ frames) ?_ ?_ ?_ ?_ thread point hmem hpoint
  · intro system thread signal point hmem
    cases hmem
  · intro system thread root hroot point hmem
    obtain rfl := List.mem_singleton.mp hmem
    cases hroot
  · intro system after thread root _ other frames signal hholds
    exact hholds
  · intro system after thread frame rest next hreach hadvance _ hholds
    refine ⟨fun point hmem hpoint => ?_, fun other _ => hholds other⟩
    have hbefore := hholds thread
    have hframes := hadvance.frames
    rw [hframes] at hbefore
    have hbelow {l : Option ListenerId} (hrun : .run id l .closing ∈ frame :: rest)
        (hnot : frame ≠ .run id l .closing) : .run id l .closing ∈ rest :=
      (List.mem_cons.mp hrun).resolve_left hnot.symm
    suffices ∃ l, .run id l .closing ∈ rest by
      obtain ⟨l, hrun⟩ := this
      exact ⟨l, List.mem_append_right _ hrun⟩
    rcases List.mem_append.mp hmem with hpushed | hrest
    · rcases (Frame.step_transition id hadvance.step).closing_pushed hpushed hpoint with
        ⟨rfl, hheld⟩ | ⟨point', rfl, hpoint'⟩
      · have htop := hframes ▸ List.mem_cons_self
        rcases hreach.closer htop with ⟨l, hrun⟩ | hcancel
        · exact ⟨l, by simpa [hframes] using hrun⟩
        · have hnone := hreach.treeHeld_of_closing hdisciplined (List.mem_of_mem_tail hcancel)
          rw [System.executor, hheld] at hnone
          cases hnone
      · obtain ⟨l, hrun⟩ := hbefore point' List.mem_cons_self hpoint'
        exact ⟨l, hbelow hrun (by simp)⟩
    · obtain ⟨l, hrun⟩ := hbefore point (List.mem_cons_of_mem _ hrest) hpoint
      refine ⟨l, hbelow hrun ?_⟩
      rintro rfl
      cases hreach.service_above hdisciplined hframes hrest (by simp [Frame.guards])

end Setup

end System

end FragmentLifecycle
