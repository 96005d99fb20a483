import FragmentLifecycle.Proofs.Cancellation
import FragmentLifecycle.Proofs.GateOpening
import FragmentLifecycle.Proofs.Resources
import FragmentLifecycle.Proofs.Watches

/-!
# A running fragment

A fragment gets to the running state when its run has stored a tree, has recorded its
thread and has registered its watch, and leaves this state before any of the three is
taken back: the tree is taken by the close that the run makes at its end, and by no
cancellation, which closes the resources only where it has found no tree
(`System.running_has_tree`).
-/

namespace FragmentLifecycle

/-- The points of a run between the tree and the request for the running state. -/
def RunPoint.isRegistering : RunPoint → Bool
  | .watch | .announce => true
  | _ => false

/-- The points of a run past the record of its thread. -/
def RunPoint.isRecorded : RunPoint → Bool
  | .start | .enrol => false
  | _ => true

/-- The recorded thread of `id` after a step of a frame. -/
def Frame.workerAfter (id : ExecutorId) (thread : ThreadId) (worker : Option ThreadId) :
    Frame → Option ThreadId
  | .run owner _ .enrol => if owner = id then some thread else worker
  | .run owner _ .retire => if owner = id then none else worker
  | _ => worker

section Transitions

variable {view : LockView} {thread : ThreadId} {id : ExecutorId} {frame : Frame}
  {signal : Signal} {executor executor' : Executor} {next : Next}

/-- A run records its thread, and takes it back at its end. -/
theorem Transition.worker_eq
    (htransition : Transition view thread id frame signal executor next executor') :
    executor'.worker = frame.workerAfter id thread executor.worker := by
  cases htransition
  case aside houtside _ hsame =>
    rw [hsame.worker]
    fun_cases frame.workerAfter id thread executor.worker
    all_goals first
    | rfl
    | simp [Frame.isCore] at houtside
  case callProceeds hsame _ => exact hsame.worker
  case runEnrols | retires => exact (if_pos rfl).symm
  all_goals rfl

theorem Transition.worker_cases
    (htransition : Transition view thread id frame signal executor next executor') :
    executor'.worker = executor.worker ∨
      (∃ l, frame = .run id l .enrol ∧ executor'.worker = some thread) ∨
        ∃ l, frame = .run id l .retire := by
  have hworker := htransition.worker_eq
  revert hworker
  fun_cases frame.workerAfter id thread executor.worker
  all_goals intro hworker
  case case1 l => exact .inr (.inl ⟨l, rfl, hworker⟩)
  case case3 l => exact .inr (.inr ⟨l, rfl⟩)
  all_goals exact .inl hworker

theorem Transition.recorded_pushed
    (htransition : Transition view thread id frame signal executor next executor')
    (hcore : frame.isCore id = true) {l : Option ListenerId} {point : RunPoint}
    (hpushed : .run id l point ∈ next.frames) (hpoint : point.isRecorded = true) :
    (frame = .run id l .enrol ∧ executor'.worker = some thread) ∨
      ∃ l' point', frame = .run id l' point' ∧ point'.isRecorded = true ∧
        executor'.worker = executor.worker := by
  cases htransition
  case aside houtside _ _ => simp [houtside] at hcore
  all_goals simp at hpushed
  all_goals try obtain ⟨rfl, rfl⟩ := hpushed
  all_goals try cases hpoint
  case runEnrols => exact .inl ⟨rfl, rfl⟩
  all_goals exact .inr ⟨_, _, rfl, rfl, rfl⟩

/-- A run registers its watch with a tree, and asks for the running state with a watch. -/
theorem Transition.registering_pushed
    (htransition : Transition view thread id frame signal executor next executor')
    (hcore : frame.isCore id = true) {l : Option ListenerId} {point : RunPoint}
    (hpushed : .run id l point ∈ next.frames) (hpoint : point.isRegistering = true) :
    (executor'.treeHeld = true ∨
      ∃ l' point', frame = .run id l' point' ∧ point'.isRegistering = true ∧
        executor'.treeHeld = executor.treeHeld) ∧
      (point = .announce → ∃ added, l = some added) := by
  cases htransition
  case aside houtside _ _ => simp [houtside] at hcore
  all_goals simp at hpushed
  all_goals try obtain ⟨rfl, rfl⟩ := hpushed
  all_goals try cases hpoint
  case treeKept => exact ⟨.inl rfl, by simp⟩
  case watched => exact ⟨.inr ⟨_, _, rfl, rfl, rfl⟩, fun _ => ⟨_, rfl⟩⟩

/-- A request is refused or leaves the state, unless it asks for the new one. -/
theorem State.running_of_apply_decide {state : State} (target : State)
    (hrunning : (state.decide target).apply state = .running) :
    state = .running ∨ target = .running := by
  revert hrunning
  cases state <;> cases target <;> decide

/-- A fragment gets to the running state by the request of its run. -/
theorem Transition.running_cases
    (htransition : Transition view thread id frame signal executor next executor')
    (hrunning : executor'.state = .running) :
    executor.state = .running ∨ ∃ l, frame = .run id l .announce := by
  rcases htransition.state_cases with hsame | ⟨target, hasks, hdecided⟩
  · exact .inl (hsame.symm.trans hrunning)
  · rcases State.running_of_apply_decide target (hdecided.symm.trans hrunning) with hstill | rfl
    · exact .inl hstill
    · cases hasks
      exact .inr ⟨_, rfl⟩

/-- A status is read where the fragment is running. -/
theorem Frame.step_reading {world after : World}
    (hstep : frame.step world view thread signal = some (after, next))
    (hpushed : .perform id .status .readStats ∈ next.frames) :
    (world.executors id).state = .running := by
  have hlinks := Frame.step_links hstep
  have hresumed (hrole : (Frame.perform id .status .readStats).role = frame.role) :
      (world.executors id).state = .running := by
    obtain ⟨point, rfl⟩ := Frame.eq_perform_of_role hrole.symm
    by_contra hstate
    cases point <;> cases signal <;>
      simp [Frame.step, stepPerform, startAction, hstate] at hstep <;>
      obtain ⟨-, rfl⟩ := hstep <;> simp at hpushed
  cases next with
  | goto resumed =>
    obtain rfl := List.mem_singleton.mp hpushed
    exact hresumed hlinks
  | call resumed called =>
    obtain ⟨hrole, hawaits⟩ := hlinks
    rcases List.mem_cons.mp hpushed with rfl | hpushed
    · generalize hcallee : (Frame.perform id .status .readStats).role = role at hawaits
      cases hawaits with
      | @action owner call action =>
        cases hcallee
        obtain ⟨point, rfl⟩ := Frame.eq_call_of_role hrole.symm
        cases (Frame.step_transition id hstep).perform_pushed (by simp [Frame.isCore])
          List.mem_cons_self
      | @entry owner action _ hentry => cases action <;> cases hentry <;> cases hcallee
      | _ => cases hcallee
    · obtain rfl := List.mem_singleton.mp hpushed
      exact hresumed hrole
  | reply | raise | fork => cases hpushed

end Transitions

namespace System

/-- What a running fragment has: a tree, the record of its thread, and a watch. -/
structure IsDriven (system : System) (id : ExecutorId) : Prop where
  held : (system.executor id).treeHeld = true
  worker : ∃ thread, (system.executor id).worker = some thread ∧
    (system.executor id).course.thread? = some thread
  watched : ∃ added, system.Watches id added

section Running

variable {fragments : List Fragment} {host : Host} {permitted : Command → Prop}
  {system after : System} {id : ExecutorId} {thread : ThreadId} {frame : Frame}
  {rest : List Frame} {next : Next}

/-! ### Who takes the tree -/

/-- A tree is taken by the close that the run makes. -/
theorem ReachableUnder.run_of_taking
    (hreach : (ofFragments fragments host).ReachableUnder permitted system)
    (hadvance : system.Advance after thread (.closeResources id .takeTree) rest next)
    (hheld : (system.executor id).treeHeld = true) :
    ∃ l, .run id l .closing ∈ system.frames thread := by
  have hframes := hadvance.frames
  have hlinked := hframes ▸ hreach.linked thread
  cases rest with
  | nil => cases hlinked
  | cons caller below =>
    have hawaits := hlinked.awaits
    simp only [Frame.role] at hawaits
    cases hawaits with
    | @close _ l =>
      rw [hframes]
      exact ⟨l, List.mem_cons_of_mem _ List.mem_cons_self⟩
    | cancelClose =>
      have hpair : [.closeResources id .takeTree, .cancel id .closing] <:+:
          system.frames thread := by
        rw [hframes]
        exact (List.prefix_append [_, _] below).isInfix
      rw [hreach.treeless_of_opening hpair rfl] at hheld
      cases hheld
    | @entry owner action _ hentry => cases action <;> cases hentry

/-- A tree stays where it is until the run closes it. -/
theorem Advance.treeHeld_of_held
    (hreach : (ofFragments fragments host).ReachableUnder permitted system)
    (hadvance : system.Advance after thread frame rest next)
    (hheld : (system.executor id).treeHeld = true) :
    (after.executor id).treeHeld = true ∨ ∃ l, .run id l .closing ∈ system.frames thread := by
  rcases (Frame.step_transition id hadvance.step).treeHeld_of_held hheld with hafter | rfl
  · exact .inl hafter
  · exact .inr (hreach.run_of_taking hadvance hheld)

/-! ### What the run has prepared -/

/-- The tree is there at points of the run that come before its close and are entered with
a tree. -/
theorem ReachableUnder.treeHeld_at_points (among : RunPoint → Bool)
    (hstart : among .start = false) (hclose : among .closing = false)
    (hentered : ∀ {view : LockView} {thread : ThreadId} {frame : Frame} {signal : Signal}
      {executor executor' : Executor} {next : Next},
      Transition view thread id frame signal executor next executor' → frame.isCore id = true →
      ∀ l point, .run id l point ∈ next.frames → among point = true →
      executor'.treeHeld = true ∨ ∃ l' point', frame = .run id l' point' ∧ among point' = true ∧
        executor'.treeHeld = executor.treeHeld)
    (hreach : (ofFragments fragments host).ReachableUnder permitted system)
    {l : Option ListenerId} {point : RunPoint} (hmem : .run id l point ∈ system.frames thread)
    (hpoint : among point = true) : (system.executor id).treeHeld = true := by
  refine hreach.at_points id among (fun executor => executor.treeHeld = true) hstart ?_ ?_ hmem
    hpoint
  · intro system after thread frame rest next _ _ htransition hcore l point hpushed hpoint hframe
    rcases hentered htransition hcore l point hpushed hpoint with
      hheld | ⟨l', point', rfl, hpoint', hsame⟩
    · exact hheld
    · exact hsame.trans (hframe l' point' rfl hpoint')
  · intro system after thread frame rest next hreach hadvance _ _ owner l point hmem hpoint hheld
    rcases hadvance.treeHeld_of_held hreach hheld with hafter | ⟨l', hclosing⟩
    · exact hafter
    · have hlive : point ≠ .start := by
        rintro rfl
        rw [hstart] at hpoint
        cases hpoint
      obtain ⟨-, -, rfl⟩ := hreach.live_unique hclosing (by simp) hmem hlive
      rw [hclose] at hpoint
      cases hpoint

theorem ReachableUnder.treeHeld_of_registering
    (hreach : (ofFragments fragments host).ReachableUnder permitted system)
    {l : Option ListenerId} {point : RunPoint} (hmem : .run id l point ∈ system.frames thread)
    (hpoint : point.isRegistering = true) : (system.executor id).treeHeld = true :=
  hreach.treeHeld_at_points RunPoint.isRegistering rfl rfl
    (fun htransition hcore _ _ hpushed hpoint =>
      (htransition.registering_pushed hcore hpushed hpoint).1) hmem hpoint

theorem ReachableUnder.listed_of_announce
    (hreach : (ofFragments fragments host).ReachableUnder permitted system)
    {l : Option ListenerId} (hmem : .run id l .announce ∈ system.frames thread) :
    ∃ added, l = some added := by
  refine hreach.everywhere id (fun _ _ frame => ∀ l, frame = .run id l .announce →
    ∃ added, l = some added) ?_ ?_ ?_ hmem (by simp [Frame.isCore]) l rfl
  · rintro executor thread _ ⟨⟩ l ⟨⟩
  · rintro system after thread frame rest next _ _ htransition hcore _ _ hpushed - l rfl
    exact (htransition.registering_pushed hcore hpushed rfl).2 rfl
  · intro system after thread frame rest next _ _ _ owner other _ _ hlisted
    exact hlisted

theorem ReachableUnder.worker_of_run
    (hreach : (ofFragments fragments host).ReachableUnder permitted system)
    {l : Option ListenerId} {point : RunPoint} (hmem : .run id l point ∈ system.frames thread)
    (hpoint : point.isRecorded = true) :
    ∃ owner, (system.executor id).worker = some owner ∧
      (system.executor id).course = .underWay owner := by
  refine hreach.at_points id RunPoint.isRecorded (fun executor => ∃ owner,
    executor.worker = some owner ∧ executor.course = .underWay owner) rfl ?_ ?_ hmem hpoint
  · intro system after thread frame rest next hreach hadvance htransition hcore l point hpushed
      hpoint hframe
    have htop : frame ∈ system.frames thread := hadvance.frames ▸ List.mem_cons_self
    have hcourse (l' : Option ListenerId) (point' : RunPoint) (hframe : frame = .run id l' point')
        (hpoint' : point' ≠ .start) : (after.executor id).course = .underWay thread := by
      subst hframe
      obtain hsame | ⟨l, hstart, -⟩ | ⟨l, point, -, -, hnone, -⟩ := htransition.course_cases
      · exact hsame.trans (hreach.course_of_run htop hpoint')
      · cases hstart
        exact absurd rfl hpoint'
      · simp [hnone] at hpushed
    rcases htransition.recorded_pushed hcore hpushed hpoint with
      ⟨hframe, hworker⟩ | ⟨l', point', rfl, hpoint', hsame⟩
    · exact ⟨thread, hworker, hcourse l .enrol hframe (by simp)⟩
    · have hlive : point' ≠ .start := by
        rintro rfl
        cases hpoint'
      obtain ⟨owner, hworker, hbefore⟩ := hframe l' point' rfl hpoint'
      rw [hreach.course_of_run htop hlive] at hbefore
      cases hbefore
      exact ⟨thread, hsame.trans hworker, hcourse l' point' rfl hlive⟩
  · rintro system after thread frame rest next hreach hadvance htransition hlive owner l point hmem
      hpoint ⟨worker, hworker, hcourse⟩
    refine ⟨worker, ?_, ?_⟩
    · rcases htransition.worker_cases with hsame | ⟨l', rfl, -⟩ | ⟨l', rfl⟩
      · exact hsame.trans hworker
      · cases hlive l' _ rfl
      · cases hlive l' _ rfl
    · obtain hsame | ⟨l', -, -, hnew, -⟩ | ⟨l', point', rfl, hpoint', -⟩ :=
        htransition.course_cases
      · exact hsame.trans hcourse
      · rw [hcourse] at hnew
        cases hnew
      · exact absurd (hlive l' point' rfl) hpoint'

/-! ### The running state -/

theorem IsDriven.turnover {root : Frame} (hdriven : system.IsDriven id)
    (hturn : system.Turnover after thread root) : after.IsDriven id := by
  obtain ⟨added, hwatches⟩ := hdriven.watched
  refine ⟨?_, ?_, added, hwatches.turnover hturn⟩ <;> rw [hturn.executor_eq]
  · exact hdriven.held
  · exact hdriven.worker

/-- What a running fragment has is taken back by a run that has come to its end. -/
theorem IsDriven.advance
    (hreach : (ofFragments fragments host).ReachableUnder permitted system)
    (hdriven : system.IsDriven id) (hadvance : system.Advance after thread frame rest next)
    (hstate : (after.executor id).state = .running) : after.IsDriven id := by
  have htransition := Frame.step_transition id hadvance.step
  have htop : frame ∈ system.frames thread := hadvance.frames ▸ List.mem_cons_self
  have hunsettled {owner : ThreadId} {l : Option ListenerId} {point : RunPoint}
      (hmem : .run id l point ∈ system.frames owner) : point.isSettled = false := by
    by_contra hsettled
    have hbefore := (hreach.settled hmem).terminal (by simpa using hsettled)
    have hterminal : (after.executor id).state.isTerminal = true :=
      htransition.grows.terminal hbefore
    rw [hstate] at hterminal
    cases hterminal
  constructor
  · rcases hadvance.treeHeld_of_held hreach hdriven.held with hheld | ⟨l, hclosing⟩
    · exact hheld
    · cases hunsettled hclosing
  · obtain ⟨worker, hworker, hcourse⟩ := hdriven.worker
    have hafter := hadvance.thread_of_course hreach hcourse
    rcases htransition.worker_cases with hsame | ⟨l, rfl, hnew⟩ | ⟨l, rfl⟩
    · exact ⟨worker, hsame.trans hworker, hafter⟩
    · rw [hreach.course_of_run htop (by simp)] at hcourse
      obtain rfl : thread = worker := Option.some.inj hcourse
      exact ⟨thread, hnew, hafter⟩
    · cases hunsettled htop
  · obtain ⟨added, hwatches⟩ := hdriven.watched
    rcases hwatches.advance hreach hadvance with hafter | rfl
    · exact ⟨added, hafter⟩
    · cases hunsettled htop

/-- A run that asks for the running state has all that a running fragment has. -/
theorem ReachableUnder.driven_of_announce
    (hreach : (ofFragments fragments host).ReachableUnder permitted system)
    {l : Option ListenerId} (hmem : .run id l .announce ∈ system.frames thread) :
    system.IsDriven id := by
  obtain ⟨added, rfl⟩ := hreach.listed_of_announce hmem
  obtain ⟨owner, hworker, hcourse⟩ := hreach.worker_of_run hmem rfl
  exact ⟨hreach.treeHeld_of_registering hmem rfl,
    ⟨owner, hworker, congrArg Course.thread? hcourse⟩,
    added, (hreach.watches_of_run hmem).2 rfl⟩

theorem ReachableUnder.driven
    (hreach : (ofFragments fragments host).ReachableUnder permitted system)
    (hstate : (system.executor id).state = .running) : system.IsDriven id := by
  refine hreach.invariant (fun system => (system.executor id).state = .running →
    system.IsDriven id) ?_ ?_ ?_ hstate
  · intro hstate
    cases hstate
  · intro system after thread root hturn hholds hstate
    rw [hturn.executor_eq] at hstate
    exact (hholds hstate).turnover hturn
  · intro system after thread frame rest next hreach hadvance hholds hstate
    rcases (Frame.step_transition id hadvance.step).running_cases hstate with hbefore | ⟨l, rfl⟩
    · exact (hholds hbefore).advance hreach hadvance hstate
    · have hmem := hadvance.frames ▸ List.mem_cons_self
      exact (hreach.driven_of_announce hmem).advance hreach hadvance hstate

/-- The tree of a running fragment is the one that was built. -/
theorem ReachableUnder.built_of_running
    (hreach : (ofFragments fragments host).ReachableUnder permitted system)
    (hstate : (system.executor id).state = .running) : (system.executor id).treesBuilt = 1 := by
  have hmost := hreach.treesBuilt_le id
  have htree := hreach.tree_total id
  rw [(hreach.driven hstate).held, Bool.toNat_true] at htree
  omega

/-- A status that is being read is the status of a fragment with a tree. -/
theorem ReachableUnder.built_of_reading
    (hreach : (ofFragments fragments host).ReachableUnder permitted system)
    (hmem : .perform id .status .readStats ∈ system.frames thread) :
    (system.executor id).treesBuilt = 1 := by
  have hbuilt : 0 < (system.executor id).treesBuilt := by
    refine hreach.invariant (fun system => ∀ thread,
      .perform id .status .readStats ∈ system.frames thread → 0 < (system.executor id).treesBuilt)
      ?_ ?_ ?_ thread hmem
    · intro thread hmem
      cases hmem
    · intro system after mover root hturn hholds thread hmem
      rw [hturn.executor_eq]
      by_cases hthread : thread = mover
      · subst hthread
        rcases hturn.own with ⟨-, hroot, -⟩ | ⟨-, hnone⟩
        · obtain ⟨command, rfl⟩ := hturn.began hroot
          rw [hroot, List.mem_singleton] at hmem
          cases command <;> cases hmem
        · simp [hnone] at hmem
      · exact hholds thread ((hturn.others thread hthread).1 ▸ hmem)
    · intro system after mover frame rest next hreach hadvance hholds thread hmem
      refine Nat.lt_of_lt_of_le ?_ (hadvance.treesBuilt_le id)
      by_cases hthread : thread = mover
      · subst hthread
        rw [hadvance.own] at hmem
        rcases List.mem_append.mp hmem with hpushed | hrest
        · have hstate := Frame.step_reading hadvance.step hpushed
          rw [hreach.built_of_running hstate]
          exact Nat.one_pos
        · exact hholds thread (hadvance.frames ▸ List.mem_cons_of_mem _ hrest)
      · rcases hadvance.others thread hthread with ⟨hsame, -⟩ | ⟨-, hforked, -⟩
        · exact hholds thread (hsame ▸ hmem)
        · have hlinks := Frame.step_links hadvance.step
          rw [hforked] at hmem
          cases next with
          | fork reply started hosts =>
            obtain ⟨owner, handle, hrole⟩ := hlinks
            obtain rfl := List.mem_singleton.mp hmem
            cases hrole
          | goto | call | reply | raise => cases hmem
  have hmost := hreach.treesBuilt_le id
  omega

/-! ### The open gate -/

/-- No tree is stored past an open gate. -/
theorem ReachableUnder.treeHeld_of_move
    (hreach : (ofFragments fragments host).ReachableUnder permitted system)
    (hopen : (system.executor id).gate.isOpen = true) {move : Move}
    (hmove : system.move move = some after) (hheld : (after.executor id).treeHeld = true) :
    (system.executor id).treeHeld = true := by
  rcases advance_or_turnover hmove with ⟨thread, frame, rest, next, hadvance⟩ | ⟨_, _, hturn⟩
  · rcases (Frame.step_transition id hadvance.step).treeHeld_cases hheld with hbefore | ⟨l, rfl⟩
    · exact hbefore
    · have hmem : .run id l .keepTree ∈ system.frames thread :=
        hadvance.frames ▸ List.mem_cons_self
      rw [hreach.shut_of_run hmem rfl] at hopen
      cases hopen
  · rw [← hturn.executor_eq]
    exact hheld

/-- Past an open gate there is no tree that was not there before. -/
theorem ReachableUnder.treeHeld_of_later
    (hreach : (ofFragments fragments host).ReachableUnder permitted system)
    (hopen : (system.executor id).gate.isOpen = true) {later : System}
    (hlater : system.ReachableUnder permitted later)
    (hheld : (later.executor id).treeHeld = true) : (system.executor id).treeHeld = true := by
  induction hlater with
  | refl => exact hheld
  | move move _ hlater hmove ih =>
    have hstill := (hlater.grows id).gate hopen
    exact ih ((hreach.trans hlater).treeHeld_of_move hstill hmove hheld)

end Running

variable {fragments : List Fragment} {host : Host} {system : System}

/-- A fragment that is running has a complete tree, the thread of its run on record and a
registered watch on its foreman, so only the status of a fragment with a tree is ever
told.  An open gate means that the tree is settled: from there on it may be taken, but no
move stores one. -/
theorem running_has_tree (hreach : (ofFragments fragments host).Reachable system)
    (id : ExecutorId) :
    ((system.executor id).state = .running →
      (system.executor id).treeHeld = true ∧ (system.executor id).treesBuilt = 1 ∧
        (∃ thread, (system.executor id).worker = some thread ∧
          (system.executor id).course.thread? = some thread) ∧
        ∃ added, (added, (⟨id, (system.executor id).fragment.identity.foreman⟩ : Watch)) ∈
          system.world.registry.listeners) ∧
      ((system.executor id).status?.isSome = true →
        (system.executor id).treeHeld = true ∧ (system.executor id).treesBuilt = 1) ∧
      (∀ thread, .perform id .status .readStats ∈ system.frames thread →
        (system.executor id).treesBuilt = 1) ∧
      ((system.executor id).gate.isOpen = true → ∀ later, system.Reachable later →
        (later.executor id).gate.isOpen = true ∧
          ((later.executor id).treeHeld = true → (system.executor id).treeHeld = true) ∧
          ∀ move after, later.move move = some after → (after.executor id).treeHeld = true →
            (later.executor id).treeHeld = true) := by
  have hunder := hreach.unrestricted
  refine ⟨?_, ?_, ?_, ?_⟩
  · intro hstate
    have hdriven := hunder.driven hstate
    exact ⟨hdriven.held, hunder.built_of_running hstate, hdriven.worker, hdriven.watched⟩
  · intro hstatus
    have hstate : (system.executor id).state = .running := by
      by_contra hstate
      simp [Executor.status?, hstate] at hstatus
    exact ⟨(hunder.driven hstate).held, hunder.built_of_running hstate⟩
  · intro thread hmem
    exact hunder.built_of_reading hmem
  · intro hopen later hlater
    have hlater := hlater.unrestricted
    have hstill := (hlater.grows id).gate hopen
    refine ⟨hstill, hunder.treeHeld_of_later hopen hlater, fun move after hmove hafter => ?_⟩
    exact (hunder.trans hlater).treeHeld_of_move hstill hmove hafter

/-- A run that has announced its tree and opened the gate. -/
theorem running_has_tree_of_lone_run :
    ∃ system, (ofFragments [.vacant] { slots := { free := 0 } }).Reachable system ∧
      (system.executor 0).state = .running ∧ (system.executor 0).gate.isOpen = true ∧
      (system.executor 0).treeHeld = true ∧
      (∃ added, (added, (⟨0, (system.executor 0).fragment.identity.foreman⟩ : Watch)) ∈
        system.world.registry.listeners) ∧
      ∀ later, system.Reachable later → (later.executor 0).gate.isOpen = true := by
  obtain ⟨system, hreach, hend⟩ := exists_of_moves
    (ofFragments [.vacant] { slots := { free := 0 } })
    (.call (.act 0 .run) :: List.replicate 18 (.step 0))
    (fun system => ((system.executor 0).state, (system.executor 0).gate.isOpen))
    (.running, true) rfl
  obtain ⟨hstate, hopen⟩ : _ ∧ _ := by simpa only [Prod.mk.injEq] using hend
  obtain ⟨hrunning, -, -, hsettled⟩ := running_has_tree hreach 0
  obtain ⟨hheld, -, -, hwatched⟩ := hrunning hstate
  exact ⟨system, hreach, hstate, hopen, hheld, hwatched,
    fun later hlater => (hsettled hopen later hlater).1⟩

end System

end FragmentLifecycle
