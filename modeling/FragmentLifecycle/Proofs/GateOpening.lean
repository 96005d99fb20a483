import FragmentLifecycle.Proofs.Closing

/-!
# Who opens the gate

Only the run opens the gate for external events: past the announcement of its tree, or
when it has given up.  So a call that waits at the gate of a fragment that is never run
waits for ever, also where a cancellation has found no tree and there will never be one
(`System.waiters_wait_for_run`).
-/

namespace FragmentLifecycle

/-- The points of a live run that has not come to the gate. -/
def RunPoint.isShut : RunPoint → Bool
  | .enrol | .lockSetup | .inspect | .building | .keepTree | .watch | .announce | .announcing
  | .openGate => true
  | _ => false

/-- The points of a run that has let its waiters go. -/
def RunPoint.hasReleased : RunPoint → Bool
  | .closing | .unwatch | .conclude | .ensureCause | .drain | .reporting | .retire => true
  | _ => false

section Transitions

variable {view : LockView} {thread : ThreadId} {id : ExecutorId} {frame : Frame}
  {signal : Signal} {executor executor' : Executor} {next : Next}

/-- The gate is opened by the run only. -/
theorem Transition.gate_cases
    (htransition : Transition view thread id frame signal executor next executor') :
    executor'.gate = executor.gate ∨
      (executor'.gate.isOpen = true ∧
        ∃ l, frame = .run id l .openGate ∨ frame = .run id l .releaseWaiters) := by
  cases htransition
  case aside hsame => exact .inl hsame.gate
  case callProceeds hsame _ => exact .inl hsame.gate
  case gateOpened => exact .inr ⟨rfl, _, .inl rfl⟩
  case waitersReleased => exact .inr ⟨rfl, _, .inr rfl⟩
  all_goals exact .inl rfl

/-- A run comes to the gate from its start. -/
theorem Transition.shut_pushed
    (htransition : Transition view thread id frame signal executor next executor')
    (hcore : frame.isCore id = true) {l : Option ListenerId} {point : RunPoint}
    (hpushed : .run id l point ∈ next.frames) (hpoint : point.isShut = true) :
    executor'.gate = executor.gate ∧
      (executor.course = .notStarted ∨
        ∃ l' point', frame = .run id l' point' ∧ point'.isShut = true) := by
  cases htransition
  case aside houtside _ _ => simp [houtside] at hcore
  all_goals simp at hpushed
  all_goals try obtain ⟨rfl, rfl⟩ := hpushed
  all_goals try cases hpoint
  case runBegins hnew => exact ⟨rfl, .inl hnew⟩
  all_goals exact ⟨rfl, .inr ⟨_, _, rfl, rfl⟩⟩

/-- A run lets its waiters go before it closes the resources. -/
theorem Transition.released_pushed
    (htransition : Transition view thread id frame signal executor next executor')
    (hcore : frame.isCore id = true) {l : Option ListenerId} {point : RunPoint}
    (hpushed : .run id l point ∈ next.frames) (hpoint : point.hasReleased = true) :
    executor'.gate.isOpen = true ∨
      ∃ l' point', frame = .run id l' point' ∧ point'.hasReleased = true := by
  cases htransition
  case aside houtside _ _ => simp [houtside] at hcore
  all_goals simp at hpushed
  all_goals try obtain ⟨rfl, rfl⟩ := hpushed
  all_goals try cases hpoint
  case waitersReleased => exact .inl rfl
  all_goals exact .inr ⟨_, _, rfl, rfl⟩

end Transitions

namespace System

section Gate

variable {fragments : List Fragment} {host : Host} {permitted : Command → Prop}
  {system after : System} {id : ExecutorId} {thread : ThreadId}

/-- The gate is shut before a run begins. -/
theorem ReachableUnder.shut_of_new
    (hreach : (ofFragments fragments host).ReachableUnder permitted system)
    (hnew : (system.executor id).course = .notStarted) :
    (system.executor id).gate.isOpen = false := by
  refine hreach.always id (fun executor => executor.course = .notStarted →
    executor.gate.isOpen = false) (fun _ _ => rfl) ?_ hnew
  intro system after thread frame rest next hreach hadvance htransition hshut hnew
  have hmem : frame ∈ system.frames thread := hadvance.frames ▸ List.mem_cons_self
  have hbefore := htransition.course_of_new hnew
  rcases htransition.gate_cases with hsame | ⟨-, l, rfl | rfl⟩
  · rw [hsame]
    exact hshut hbefore
  · rw [hreach.course_of_run hmem (by simp)] at hbefore
    cases hbefore
  · rw [hreach.course_of_run hmem (by simp)] at hbefore
    cases hbefore

/-- The gate is shut until the run comes to it. -/
theorem ReachableUnder.shut_of_run
    (hreach : (ofFragments fragments host).ReachableUnder permitted system)
    {l : Option ListenerId} {point : RunPoint} (hmem : .run id l point ∈ system.frames thread)
    (hpoint : point.isShut = true) : (system.executor id).gate.isOpen = false := by
  refine hreach.at_points id RunPoint.isShut (fun executor => executor.gate.isOpen = false) rfl
    ?_ ?_ hmem hpoint
  · intro system after thread frame rest next hreach _ htransition hcore l point hpushed hpoint
      hframe
    obtain ⟨hsame, hbefore⟩ := htransition.shut_pushed hcore hpushed hpoint
    rw [hsame]
    rcases hbefore with hnew | ⟨l', point', rfl, hpoint'⟩
    · exact hreach.shut_of_new hnew
    · exact hframe l' point' rfl hpoint'
  · intro system after thread frame rest next _ _ htransition hlive _ _ _ _ _ hshut
    rcases htransition.gate_cases with hsame | ⟨-, l, rfl | rfl⟩
    · rw [hsame]
      exact hshut
    · cases hlive l _ rfl
    · cases hlive l _ rfl

/-- The gate is open where the run has let its waiters go. -/
theorem ReachableUnder.open_of_run
    (hreach : (ofFragments fragments host).ReachableUnder permitted system)
    {l : Option ListenerId} {point : RunPoint} (hmem : .run id l point ∈ system.frames thread)
    (hpoint : point.hasReleased = true) : (system.executor id).gate.isOpen = true := by
  refine hreach.at_points id RunPoint.hasReleased (fun executor => executor.gate.isOpen = true) rfl
    ?_ ?_ hmem hpoint
  · intro system after thread frame rest next _ _ htransition hcore l point hpushed hpoint hframe
    rcases htransition.released_pushed hcore hpushed hpoint with hopen | ⟨l', point', rfl, hpoint'⟩
    · exact hopen
    · exact htransition.grows.gate (hframe l' point' rfl hpoint')
  · intro system after thread frame rest next _ _ htransition _ _ _ _ _ _ hopen
    exact htransition.grows.gate hopen

/-- The gate is open when the run has come to its end. -/
theorem ReachableUnder.open_of_ended
    (hreach : (ofFragments fragments host).ReachableUnder permitted system) {owner : ThreadId}
    (hended : (system.executor id).course = .ended owner) :
    (system.executor id).gate.isOpen = true := by
  refine hreach.always id (fun executor => ∀ owner, executor.course = .ended owner →
    executor.gate.isOpen = true) ?_ ?_ owner hended
  · rintro fragment owner ⟨⟩
  · intro system after thread frame rest next hreach hadvance htransition hopen owner hended
    apply htransition.grows.gate
    rcases htransition.course_of_ended hended with hbefore | ⟨l, rfl⟩
    · exact hopen owner hbefore
    · exact hreach.open_of_run (hadvance.frames ▸ List.mem_cons_self) rfl

/-- The gate opens in a step of the run. -/
theorem ReachableUnder.run_of_opening
    (hreach : (ofFragments fragments host).ReachableUnder permitted system) {move : Move}
    (hmove : system.move move = some after) (hshut : (system.executor id).gate.isOpen = false)
    (hopen : (after.executor id).gate.isOpen = true) :
    ∃ thread l, move = .step thread ∧ (system.executor id).course = .underWay thread ∧
      (.run id l .openGate ∈ system.frames thread ∨
        .run id l .releaseWaiters ∈ system.frames thread) := by
  have hchanged : after.executor id ≠ system.executor id := by
    intro hsame
    rw [hsame, hshut] at hopen
    cases hopen
  cases move with
  | call command =>
    obtain rfl := Option.some.inj hmove
    exact absurd ((turnover_of_call system command).executor_eq id) hchanged
  | abandon thread =>
    obtain ⟨root, hturn, -⟩ := turnover_of_abandon hmove
    exact absurd (hturn.executor_eq id) hchanged
  | step thread =>
    obtain ⟨frame, rest, next, hadvance⟩ := advance_of_step hmove
    have hmem : frame ∈ system.frames thread := hadvance.frames ▸ List.mem_cons_self
    rcases (Frame.step_transition id hadvance.step).gate_cases with hsame | ⟨-, l, rfl | rfl⟩
    · rw [System.executor, hsame] at hopen
      rw [System.executor, hopen] at hshut
      cases hshut
    · exact ⟨thread, l, rfl, hreach.course_of_run hmem (by simp), .inl hmem⟩
    · exact ⟨thread, l, rfl, hreach.course_of_run hmem (by simp), .inr hmem⟩

/-! ### Waiting at the gate -/

theorem step_of_shut {receiver : Handle} {rest : List Frame}
    (hframes : system.frames thread = .finished id receiver .waitGate :: rest)
    (hshut : (system.executor id).gate.isOpen = false) : system.step thread = none := by
  refine step_eq_none hframes ?_
  rw [System.executor] at hshut
  cases system.signal thread <;> simp [Frame.step, stepFinished, hshut]

/-- A call that waits at the gate stays there until a run begins. -/
theorem ReachableUnder.waiting
    (hreach : (ofFragments fragments host).ReachableUnder permitted system) {later : System}
    {receiver : Handle} {rest : List Frame}
    (hframes : system.frames thread = .finished id receiver .waitGate :: rest)
    (hlater : system.ReachableUnder permitted later)
    (hnew : (later.executor id).course = .notStarted) :
    later.frames thread = .finished id receiver .waitGate :: rest := by
  refine ReachableUnder.since (fun system => (system.executor id).course = .notStarted →
    system.frames thread = .finished id receiver .waitGate :: rest) hreach (fun _ => hframes) ?_ ?_
    hlater hnew
  · intro system after mover root hturn hwaits hnew
    rw [hturn.executor_eq] at hnew
    have hbefore := hwaits hnew
    rcases hturn.same_of_busy (hbefore ▸ List.cons_ne_nil _ _) with ⟨hsame, -⟩ | ⟨hroot, -⟩
    · exact hsame.trans hbefore
    · obtain ⟨rfl, -⟩ := List.cons.inj (hbefore.symm.trans hroot)
      cases hturn.isRoot
  · intro system after mover frame rest' next hreach hadvance hwaits hnew
    have hstill := (Frame.step_transition id hadvance.step).course_of_new hnew
    have hbefore := hwaits hstill
    by_cases hthread : thread = mover
    · subst hthread
      obtain ⟨rfl, rfl⟩ := List.cons.inj (hadvance.frames.symm.trans hbefore)
      have hshut := hreach.shut_of_new hstill
      have hstep := hadvance.step
      rw [System.executor] at hshut
      cases hsignal : system.signal thread <;>
        simp [hsignal, Frame.step, stepFinished, hshut] at hstep
    · obtain ⟨hsame, -⟩ := hadvance.same_of_busy hthread (hbefore ▸ List.cons_ne_nil _ _)
      exact hsame.trans hbefore

/-- A call that waits at an open gate without a tree returns, and the request is dropped. -/
theorem ReachableUnder.drops
    (hreach : (ofFragments fragments host).ReachableUnder permitted system)
    (hexit : system.world.exit = none) {receiver : Handle} {rest : List Frame}
    (hframes : system.frames thread = .finished id receiver .waitGate :: rest)
    (hopen : (system.executor id).gate.isOpen = true)
    (hheld : (system.executor id).treeHeld = false) :
    ∃ after, system.moves [.step thread, .step thread, .step thread] = some after ∧
      after.frames thread = rest ∧ after.signal thread = .replied (.answer .none) ∧
      after.executor id = system.executor id := by
  have hsignal : system.signal thread = .go := by
    refine hreach.signal_go hframes ?_
    rintro role ⟨⟩
  rw [System.executor] at hopen hheld
  have hpass : (Frame.finished id receiver .waitGate).step system.world (system.view thread) thread
      (system.signal thread) = some (system.world, .goto (.finished id receiver .fetchTree)) := by
    simp [hsignal, Frame.step, stepFinished, hopen]
  obtain ⟨passed, hpassed, hworld, hadvance⟩ := exists_advance hexit hframes hpass
  have hfetch : (Frame.finished id receiver .fetchTree).step passed.world (passed.view thread) thread
      (passed.signal thread) = some (system.world, .goto (.finished id receiver .drop)) := by
    simp [hadvance.ownSignal, hworld, Frame.step, stepFinished, hheld]
  obtain ⟨fetched, hfetched, hworld', hadvance'⟩ :=
    exists_advance (hworld ▸ hexit) hadvance.own hfetch
  have hdrop : (Frame.finished id receiver .drop).step fetched.world (fetched.view thread) thread
      (fetched.signal thread) =
        some (system.world.note (.dropping (system.world.executors id).handle receiver), .done) := by
    simp [hadvance'.ownSignal, hworld', Frame.step, stepFinished]
  obtain ⟨after, hafter, hworld'', hadvance''⟩ :=
    exists_advance (hworld' ▸ hexit) hadvance'.own hdrop
  refine ⟨after, ?_, hadvance''.own, hadvance''.ownSignal, ?_⟩
  · simp [moves, System.move, hpassed, hfetched, hafter]
  · rw [System.executor, hworld'']
    rfl

end Gate

variable {fragments : List Fragment} {host : Host} {system : System}

/-- Calls that wait at the gate wait for the run.  Before a run has begun the gate is shut,
also where a cancellation has found no tree and returned, or where no thread could be
started: whoever waits cannot go on as long as no run begins.  Only the run opens the gate,
at the end of setup or when it has given up, and it is open from there to the end of the
run and after it.  Past an open gate a request that finds no tree is dropped, and the call
returns. -/
theorem waiters_wait_for_run (hreach : (ofFragments fragments host).Reachable system)
    (id : ExecutorId) :
    ((system.executor id).course = .notStarted →
      (system.executor id).gate.isOpen = false ∧
        ∀ thread receiver rest,
          system.frames thread = .finished id receiver .waitGate :: rest →
          ∀ later, system.Reachable later → (later.executor id).course = .notStarted →
            later.frames thread = system.frames thread ∧ later.step thread = none) ∧
      (∀ move after, system.move move = some after →
        (system.executor id).gate.isOpen = false → (after.executor id).gate.isOpen = true →
        ∃ thread l, move = .step thread ∧ (system.executor id).course = .underWay thread ∧
          (.run id l .openGate ∈ system.frames thread ∨
            .run id l .releaseWaiters ∈ system.frames thread)) ∧
      (∀ thread l point, .run id l point ∈ system.frames thread → point.hasReleased = true →
        (system.executor id).gate.isOpen = true) ∧
      (∀ thread, (system.executor id).course = .ended thread →
        (system.executor id).gate.isOpen = true) ∧
      (system.world.exit = none → (system.executor id).gate.isOpen = true →
        (system.executor id).treeHeld = false → ∀ thread receiver rest,
        system.frames thread = .finished id receiver .waitGate :: rest →
        ∃ after, system.moves [.step thread, .step thread, .step thread] = some after ∧
          after.frames thread = rest ∧ after.signal thread = .replied (.answer .none) ∧
          after.executor id = system.executor id) := by
  have hunder := hreach.unrestricted
  refine ⟨fun hnew => ⟨hunder.shut_of_new hnew, ?_⟩, ?_, ?_, ?_, ?_⟩
  · intro thread receiver rest hframes later hlater hstill
    have hlater := hlater.unrestricted
    have hwaits := hunder.waiting hframes hlater hstill
    have hshut := (hunder.trans hlater).shut_of_new hstill
    exact ⟨hwaits.trans hframes.symm, step_of_shut hwaits hshut⟩
  · intro move after hmove hshut hopen
    exact hunder.run_of_opening hmove hshut hopen
  · intro thread l point hmem hpoint
    exact hunder.open_of_run hmem hpoint
  · intro thread hended
    exact hunder.open_of_ended hended
  · intro hexit hopen hheld thread receiver rest hframes
    exact hunder.drops hexit hframes hopen hheld

/-- A cancellation that finds no tree and returns, and a call that waits at the gate all
the same. -/
theorem waiters_wait_for_run_of_cancelled_fragment :
    ∃ system, (ofFragments [.vacant] { slots := { free := 0 } }).Reachable system ∧
      (system.executor 0).course = .notStarted ∧
      ((system.executor 0).state = .cancellationRequested ∧
        (system.executor 0).resourcesClosed = true ∧ system.frames 0 = []) ∧
      system.frames 1 = [.finished 0 Fragment.vacant.identity.handle .waitGate,
        .perform 0 (.finished Fragment.vacant.identity.handle) .waiting] ∧
      ∀ later, system.Reachable later → (later.executor 0).course = .notStarted →
        later.frames 1 = system.frames 1 ∧ later.step 1 = none := by
  obtain ⟨system, hreach, hend⟩ := exists_of_moves
    (ofFragments [.vacant] { slots := { free := 0 } })
    (.call (.act 0 .cancel) :: List.replicate 18 (.step 0) ++
      [.call (.act 0 (.finished Fragment.vacant.identity.handle)), .step 1])
    (fun system => ((system.executor 0).course, ((system.executor 0).state,
      (system.executor 0).resourcesClosed, system.frames 0), system.frames 1))
    (.notStarted, (.cancellationRequested, true, []),
      [.finished 0 Fragment.vacant.identity.handle .waitGate,
        .perform 0 (.finished Fragment.vacant.identity.handle) .waiting]) rfl
  obtain ⟨hcourse, hcancelled, hframes⟩ : _ ∧ _ ∧ _ := by simpa only [Prod.mk.injEq] using hend
  refine ⟨system, hreach, hcourse, hcancelled, hframes, ?_⟩
  intro later hlater hstill
  exact ((waiters_wait_for_run hreach 0).1 hcourse).2 1 _ _ hframes later hlater hstill

end System

end FragmentLifecycle
