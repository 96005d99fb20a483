import FragmentLifecycle.Proofs.Returns
import FragmentLifecycle.Proofs.ShutGate

/-!
# Early termination

A call that passes on an early termination waits for the gate, looks for the tree, and then
forwards its request or drops it.  It stands by itself: it calls nothing else, so until it
returns its thread records nothing but what is forwarded
(`System.Forwarding`).  A tree is missed only past the gate, where nothing is stored any
more, so it was never built or has been taken (`System.ReachableUnder.gone_of_open`).
-/

namespace FragmentLifecycle

/-- The steps that a call is to take until it returns, if nothing keeps it. -/
def FinishedPoint.remaining : FinishedPoint → Nat
  | .waitGate => 3
  | .fetchTree => 2
  | .forward | .drop => 1

/-- What `thread` has recorded, in order. -/
def Executor.entriesOf (executor : Executor) (thread : ThreadId) : List Entry :=
  (executor.journal.filter fun record => record.thread = thread).map Record.entry

/-- The points of a call that follow each other. -/
inductive FinishedPoint.Follows (executor : Executor) : FinishedPoint → FinishedPoint → Prop
  | passes (hopen : executor.gate.isOpen = true) : Follows executor .waitGate .fetchTree
  | finds (hheld : executor.treeHeld = true) : Follows executor .fetchTree .forward
  | misses (hnone : executor.treeHeld = false) : Follows executor .fetchTree .drop

/-- The steps of a call that passes on an early termination. -/
inductive FinishedStep (world : World) (thread : ThreadId) (id : ExecutorId) (receiver : Handle) :
    FinishedPoint → World → Next → Prop
  | goes {point next : FinishedPoint} (hpoints : point.Follows (world.executors id) next) :
      FinishedStep world thread id receiver point world (.goto (.finished id receiver next))
  | forwards : FinishedStep world thread id receiver .forward
      ((world.record id thread (.forwarded receiver)).note
        (.forwarding (world.executors id).handle receiver)) .done
  | drops : FinishedStep world thread id receiver .drop
      (world.note (.dropping (world.executors id).handle receiver)) .done

section Steps

variable {world after : World} {view : LockView} {thread : ThreadId} {id : ExecutorId}
  {receiver : Handle} {point : FinishedPoint} {signal : Signal} {next : Next}

theorem Frame.step_finished
    (hstep : (Frame.finished id receiver point).step world view thread signal =
      some (after, next)) :
    FinishedStep world thread id receiver point after next := by
  simp only [Frame.step] at hstep
  cases point <;> cases signal <;> simp only [stepFinished, reduceCtorEq] at hstep
  case waitGate.go =>
    split at hstep
    · cases hstep
      exact .goes (.passes ‹_›)
    · cases hstep
  case fetchTree.go =>
    split at hstep <;> rename_i hheld <;> cases hstep
    · exact .goes (.finds hheld)
    · exact .goes (.misses (by simpa using hheld))
  case forward.go =>
    cases hstep
    exact .forwards
  case drop.go =>
    cases hstep
    exact .drops

/-- Only the gate keeps a call from its next step. -/
theorem Frame.exists_step_finished (view : LockView) (thread : ThreadId) (receiver : Handle)
    (point : FinishedPoint) (hopen : (world.executors id).gate.isOpen = true) :
    ∃ after next, (Frame.finished id receiver point).step world view thread .go =
      some (after, next) := by
  cases point with
  | waitGate => simp [Frame.step, stepFinished, hopen]
  | fetchTree => by_cases hheld : (world.executors id).treeHeld = true <;>
      simp [Frame.step, stepFinished, hheld]
  | forward | drop => exact ⟨_, _, rfl⟩

theorem FinishedPoint.Follows.remaining {executor : Executor} {point next : FinishedPoint}
    (hpoints : point.Follows executor next) : point.remaining = next.remaining + 1 := by
  cases hpoints <;> rfl

/-- A thread writes its own records only. -/
theorem Transition.entriesOf_eq {frame : Frame} {executor executor' : Executor} {owner : ThreadId}
    (htransition : Transition view thread id frame signal executor next executor')
    (hother : owner ≠ thread) : executor'.entriesOf owner = executor.entriesOf owner := by
  rcases htransition.journal_cases with hsame | ⟨entry, -, hlonger⟩
  · rw [Executor.entriesOf, hsame, Executor.entriesOf]
  · rw [Executor.entriesOf, hlonger, List.filter_append, Executor.entriesOf]
    simp [hother.symm]

end Steps

theorem Frame.eq_run_of_awaitsTree {id : ExecutorId} {frame : Frame}
    (hawaits : frame.awaitsTree id = true) : ∃ l, frame = .run id l .building := by
  cases frame with
  | run owner l point =>
    cases point with
    | building =>
      obtain rfl : owner = id := by simpa [Frame.awaitsTree] using hawaits
      exact ⟨l, rfl⟩
    | _ => cases hawaits
  | _ => cases hawaits

theorem Frame.cases_of_treeDue {id : ExecutorId} {frame : Frame}
    (hweighs : 0 < within id Frame.treeDue frame) :
    (∃ l, frame = .run id l .keepTree) ∨ frame = .call id .closeRoot .enter := by
  obtain ⟨hcore, hdue⟩ := within_pos id _ hweighs
  clear hweighs
  cases frame with
  | run owner l point =>
    obtain rfl : owner = id := by simpa [Frame.isCore] using hcore
    cases point with
    | keepTree => exact .inl ⟨l, rfl⟩
    | _ => cases hdue
  | call owner call point =>
    obtain rfl : owner = id := by simpa [Frame.isCore] using hcore
    cases call with
    | closeRoot =>
      cases point with
      | enter => exact .inr rfl
      | _ => cases hdue
    | _ => cases hdue
  | _ => cases hdue

namespace System

/-- The close has taken the tree of `id`: it has entered the close of the tree, or is about
to. -/
structure TreeTaken (system : System) (id : ExecutorId) : Prop where
  closed : (system.executor id).resourcesClosed = true
  taken : tally (Entry.isEntered Call.isCloseRoot) (system.executor id).journal = 1 ∨
    ∃ owner, .call id .closeRoot .enter ∈ system.frames owner

/-- The worker of `id` is inside an advance of its tree. -/
def IsAdvancing (system : System) (id : ExecutorId) : Prop :=
  ∃ owner index point, .call id (.next index) point ∈ system.frames owner

/-- How far a call has come that began in `start`, along moves with a property. -/
structure Forwarding (holds : System → Prop) (start : System) (thread : ThreadId)
    (id : ExecutorId) (receiver : Handle) (rest : List Frame) (point : FinishedPoint)
    (system : System) : Prop where
  frames : system.frames thread = .finished id receiver point :: rest
  quiet : ∀ other, (system.executor other).entriesOf thread =
    (start.executor other).entriesOf thread
  passed : point ≠ .waitGate → (system.executor id).gate.isOpen = true
  missed : point = .drop → ∃ read, start.Throughout holds read ∧ read.Reachable system ∧
    (read.executor id).gate.isOpen = true ∧ (read.executor id).treeHeld = false

section Early

variable {fragments : List Fragment} {host : Host} {permitted : Command → Prop}
  {system after : System} {id : ExecutorId} {thread : ThreadId}

/-! ### The tree behind the gate -/

/-- Past an open gate no tree is built. -/
theorem ReachableUnder.treesBuilt_of_open
    (hreach : (ofFragments fragments host).ReachableUnder permitted system)
    (hopen : (system.executor id).gate.isOpen = true) {later : System}
    (hlater : system.ReachableUnder permitted later) :
    (later.executor id).treesBuilt = (system.executor id).treesBuilt := by
  refine ReachableUnder.since (fun later => (later.executor id).treesBuilt =
    (system.executor id).treesBuilt ∧ (later.executor id).gate.isOpen = true) hreach
    ⟨rfl, hopen⟩ ?_ ?_ hlater |>.1
  · intro system after mover root hturn hbefore
    rwa [hturn.executor_eq]
  · intro system after mover frame rest next hreach hadvance hbefore
    refine ⟨?_, (Frame.step_transition id hadvance.step).grows.gate hbefore.2⟩
    rw [hadvance.treesBuilt_eq hreach id, hbefore.1]
    have hbuild : frame.isBuild id = false := by
      by_contra hbuild
      obtain ⟨point, rfl⟩ := Frame.eq_call_of_isBuild (by simpa using hbuild)
      obtain ⟨l, hrun⟩ := hreach.building_of_build (hadvance.frames ▸ List.mem_cons_self)
      rw [hreach.shut_of_run hrun rfl] at hbefore
      cases hbefore.2
    rw [hbuild]
    rfl

/-- Who has closed the tree has closed the resources. -/
theorem ReachableUnder.closed_of_closeRoot
    (hreach : (ofFragments fragments host).ReachableUnder permitted system)
    (hclosed : 0 < tally (Entry.isEntered Call.isCloseRoot) (system.executor id).journal) :
    (system.executor id).resourcesClosed = true := by
  refine hreach.always id (fun executor =>
    0 < tally (Entry.isEntered Call.isCloseRoot) executor.journal →
      executor.resourcesClosed = true) ?_ ?_ hclosed
  · intro fragment hnone
    cases hnone
  · intro system after mover frame rest next hreach hadvance htransition hbefore hafter
    apply htransition.grows.closed
    rcases htransition.closeRoot_cases with hsame | rfl
    · exact hbefore (hsame ▸ hafter)
    · exact hreach.closed_of_closing
        (hreach.closing_of_closeRoot (hadvance.frames ▸ List.mem_cons_self)) rfl

/-- Past an open gate a tree that is not there was never built, or has been taken. -/
theorem ReachableUnder.gone_of_open
    (hreach : (ofFragments fragments host).ReachableUnder permitted system)
    (hopen : (system.executor id).gate.isOpen = true)
    (hnone : (system.executor id).treeHeld = false) :
    (system.executor id).treesBuilt = 0 ∨ system.TreeTaken id := by
  have hnotShut {owner : ThreadId} {l : Option ListenerId} {point : RunPoint}
      (hmem : .run id l point ∈ system.frames owner) : point.isShut = false := by
    by_contra hshut
    rw [hreach.shut_of_run hmem (by simpa using hshut)] at hopen
    cases hopen
  have hpending : system.weigh (pendingTree id) = 0 := by
    refine weigh_eq_zero _ fun owner => ?_
    cases hframes : system.frames owner with
    | nil => rfl
    | cons frame rest =>
      have hidle : frame.awaitsTree id = false := by
        by_contra hawaits
        obtain ⟨l, rfl⟩ := Frame.eq_run_of_awaitsTree (by simpa using hawaits)
        cases hnotShut (hframes ▸ List.mem_cons_self)
      simp [pendingTree, hidle]
  have htree := hreach.tree_total id
  have hmost := hreach.treesBuilt_le id
  rw [hnone, hpending, Bool.toNat_false] at htree
  by_cases hbuilt : (system.executor id).treesBuilt = 0
  · exact .inl hbuilt
  · right
    by_cases hdue : system.total (within id Frame.treeDue) = 0
    · have hclosed : tally (Entry.isEntered Call.isCloseRoot) (system.executor id).journal = 1 := by
        omega
      exact ⟨hreach.closed_of_closeRoot (by omega), .inl hclosed⟩
    · obtain ⟨owner, frame, hmem, hweighs⟩ := exists_of_total_pos _ (Nat.pos_of_ne_zero hdue)
      rcases Frame.cases_of_treeDue hweighs with ⟨l, rfl⟩ | rfl
      · cases hnotShut hmem
      · exact ⟨hreach.closed_of_closing (hreach.closing_of_closeRoot hmem) rfl, .inr ⟨owner, hmem⟩⟩

/-- The tree is there while the worker drives it. -/
theorem ReachableUnder.treeHeld_while_driven
    (hreach : (ofFragments fragments host).ReachableUnder permitted system)
    {l : Option ListenerId} {point : RunPoint} (hmem : .run id l point ∈ system.frames thread)
    (hpoint : point.isDriving = true) : (system.executor id).treeHeld = true := by
  refine hreach.treeHeld_at_points RunPoint.isDriving rfl rfl ?_ hmem hpoint
  intro view thread frame signal executor executor' next htransition hcore l point hpushed hpoint
  obtain ⟨hsame, hheld | ⟨point', rfl, hpoint'⟩⟩ := htransition.driving_pushed hcore hpushed hpoint
  · exact .inl (hsame.trans hheld)
  · exact .inr ⟨l, point', rfl, hpoint', hsame⟩

/-- Inside an advance the tree is there and the gate is open. -/
theorem ReachableUnder.found_of_advancing
    (hreach : (ofFragments fragments host).ReachableUnder permitted system)
    (hadvancing : system.IsAdvancing id) :
    (system.executor id).treeHeld = true ∧ (system.executor id).gate.isOpen = true := by
  obtain ⟨owner, index, point, hcall⟩ := hadvancing
  obtain ⟨l, previous, hrun⟩ := hreach.advancing_of_next hcall
  have hheld := hreach.treeHeld_while_driven hrun rfl
  refine ⟨hheld, ?_⟩
  by_contra hshut
  obtain ⟨other, l', point', hother, hbarring⟩ := hreach.run_of_barred ⟨hheld, by simpa using hshut⟩
  have hlive : point' ≠ .start := by
    rintro rfl
    cases hbarring
  obtain ⟨-, -, rfl⟩ := hreach.live_unique hrun (by simp) hother hlive
  cases hbarring

/-! ### A call in progress -/

variable {start : System} {holds : System → Prop} {receiver : Handle} {rest : List Frame}
  {point : FinishedPoint}

theorem Advance.entriesOf_eq {mover : ThreadId} {frame : Frame} {below : List Frame} {next : Next}
    (hadvance : system.Advance after mover frame below next) (hother : thread ≠ mover)
    (other : ExecutorId) :
    (after.executor other).entriesOf thread = (system.executor other).entriesOf thread :=
  (Frame.step_transition other hadvance.step).entriesOf_eq hother

namespace Forwarding

/-- What others do leaves a call where it is. -/
theorem beside (hforwarding : Forwarding holds start thread id receiver rest point system)
    {move : Move} (hmove : system.move move = some after)
    (hframes : after.frames thread = system.frames thread)
    (hquiet : ∀ other, (after.executor other).entriesOf thread =
      (system.executor other).entriesOf thread)
    (hgate : (system.executor id).gate.isOpen = true → (after.executor id).gate.isOpen = true) :
    Forwarding holds start thread id receiver rest point after where
  frames := hframes.trans hforwarding.frames
  quiet other := (hquiet other).trans (hforwarding.quiet other)
  passed hpoint := hgate (hforwarding.passed hpoint)
  missed hpoint := by
    obtain ⟨read, hread, hlater, hgone⟩ := hforwarding.missed hpoint
    exact ⟨read, hread, .move move hlater hmove, hgone⟩

/-- A step of a call that does not end it. -/
theorem own (hforwarding : Forwarding holds start thread id receiver rest point system)
    (hpath : start.Throughout holds system) {move : Move} {point' : FinishedPoint}
    (hmove : system.move move = some after) (hworld : after.world = system.world)
    (hframes : after.frames thread = .finished id receiver point' :: rest)
    (hpoints : point.Follows (system.executor id) point') :
    Forwarding holds start thread id receiver rest point' after := by
  have hsame (other : ExecutorId) : after.executor other = system.executor other :=
    congrArg (World.executors · other) hworld
  have hlater : system.Reachable after := .move move .refl hmove
  have hquiet (other : ExecutorId) : (after.executor other).entriesOf thread =
      (start.executor other).entriesOf thread :=
    (congrArg (Executor.entriesOf · thread) (hsame other)).trans (hforwarding.quiet other)
  cases hpoints with
  | passes hopen => exact ⟨hframes, hquiet, fun _ => hsame id ▸ hopen, nofun⟩
  | finds hheld =>
    have hopen := hforwarding.passed (by simp)
    exact ⟨hframes, hquiet, fun _ => hsame id ▸ hopen, nofun⟩
  | misses hnone =>
    have hopen := hforwarding.passed (by simp)
    exact ⟨hframes, hquiet, fun _ => hsame id ▸ hopen,
      fun _ => ⟨system, hpath, hlater, hopen, hnone⟩⟩

end Forwarding

/-- A call that has not returned is at one of its points, and its thread has recorded
nothing. -/
theorem Throughout.forwarding
    (hheight : ∀ system, holds system → rest.length < (system.frames thread).length)
    (hframes : start.frames thread = .finished id receiver .waitGate :: rest)
    (hpath : start.Throughout holds system) :
    ∃ point, Forwarding holds start thread id receiver rest point system := by
  induction hpath with
  | refl hholds =>
    exact ⟨.waitGate, hframes, fun _ => rfl, fun hpoint => absurd rfl hpoint, nofun⟩
  | @move system after move hpath hmove hholds ih =>
    obtain ⟨point, hforwarding⟩ := ih
    have hhigh := hheight after hholds
    have hbusy : system.frames thread ≠ [] := by simp [hforwarding.frames]
    rcases advance_or_turnover hmove with
      ⟨mover, frame, below, next, hadvance⟩ | ⟨mover, root, hturn⟩
    · have hgrows := (Frame.step_transition id hadvance.step).grows
      by_cases hthread : thread = mover
      · subst hthread
        obtain ⟨rfl, rfl⟩ := List.cons.inj (hadvance.frames.symm.trans hforwarding.frames)
        have hown := hadvance.own
        have hstep := Frame.step_finished hadvance.step
        generalize hworld : after.world = world at hstep
        cases hstep with
        | @goes _ point' hpoints => exact ⟨point', hforwarding.own hpath hmove hworld hown hpoints⟩
        | forwards | drops => simp [hown] at hhigh
      · have hsame := (hadvance.same_of_busy hthread hbusy).1
        exact ⟨point, hforwarding.beside hmove hsame (hadvance.entriesOf_eq hthread) hgrows.gate⟩
    · rcases hturn.same_of_busy hbusy with ⟨hsame, -⟩ | ⟨-, hgone⟩
      · refine ⟨point, hforwarding.beside hmove hsame (fun other => ?_) ?_⟩
        · rw [hturn.executor_eq]
        · rw [hturn.executor_eq]
          exact fun hopen => hopen
      · simp [hgone] at hhigh

/-- A call ends by its own step, which forwards the request or drops it. -/
theorem Forwarding.over (hforwarding : Forwarding holds start thread id receiver rest point system)
    (hstep : system.step thread = some after) (hover : after.frames thread = rest) :
    (∀ other, other ≠ id → (after.executor other).entriesOf thread =
      (start.executor other).entriesOf thread) ∧
      ((point = .forward ∧ (after.executor id).entriesOf thread =
          (start.executor id).entriesOf thread ++ [.forwarded receiver]) ∨
        (point = .drop ∧ (after.executor id).entriesOf thread =
          (start.executor id).entriesOf thread)) := by
  obtain ⟨frame, below, next, hadvance⟩ := advance_of_step hstep
  obtain ⟨rfl, rfl⟩ := List.cons.inj (hadvance.frames.symm.trans hforwarding.frames)
  have hown := hadvance.own
  have hfinished := Frame.step_finished hadvance.step
  generalize hworld : after.world = world at hfinished
  cases hfinished with
  | goes hpoints => simp [hown] at hover
  | forwards =>
    have hexecutor (other : ExecutorId) : after.executor other =
        if other = id then (system.executor id).record thread (.forwarded receiver)
        else system.executor other := congrArg (World.executors · other) hworld
    refine ⟨fun other hother => ?_, .inl ⟨rfl, ?_⟩⟩
    · rw [hexecutor, if_neg hother]
      exact hforwarding.quiet other
    · rw [hexecutor, if_pos rfl, ← hforwarding.quiet id]
      simp [Executor.entriesOf]
  | drops =>
    have hexecutor (other : ExecutorId) : after.executor other = system.executor other := by
      rw [System.executor, hworld]
      rfl
    refine ⟨fun other _ => ?_, .inr ⟨rfl, ?_⟩⟩
    · rw [hexecutor]
      exact hforwarding.quiet other
    · rw [hexecutor]
      exact hforwarding.quiet id

/-- Past an open gate a call returns by its own steps, whatever else happens or does not. -/
theorem ReachableUnder.returns_of_open
    (hreach : (ofFragments fragments host).ReachableUnder permitted system)
    (hexit : system.world.exit = none)
    (hframes : system.frames thread = .finished id receiver point :: rest)
    (hopen : (system.executor id).gate.isOpen = true) :
    ∃ after, system.moves (List.replicate point.remaining (.step thread)) = some after ∧
      after.frames thread = rest ∧ after.signal thread = .replied (.answer .none) := by
  have hsignal : system.signal thread = .go := by
    refine hreach.signal_go hframes ?_
    rintro role ⟨⟩
  clear hreach
  induction hremaining : point.remaining generalizing system point with
  | zero => cases point <;> cases hremaining
  | succ count ih =>
    obtain ⟨world, next, hstep⟩ :=
      Frame.exists_step_finished (system.view thread) thread receiver point hopen
    obtain ⟨after, hafter, rfl, hadvance⟩ :=
      exists_advance hexit hframes (hsignal.symm ▸ hstep)
    rw [List.replicate_succ, moves, System.move, hafter, Option.bind_some]
    have hown := hadvance.own
    have hownSignal := hadvance.ownSignal
    have hfinished := Frame.step_finished hstep
    generalize hworld : after.world = world at hfinished
    cases hfinished with
    | goes hpoints =>
      have hless := hpoints.remaining
      refine ih (hworld ▸ hexit) hown ?_ hownSignal (by omega)
      rw [System.executor, hworld]
      exact hopen
    | forwards | drops =>
      obtain rfl : count = 0 := by simpa [FinishedPoint.remaining] using hremaining.symm
      exact ⟨after, rfl, hown, hownSignal⟩

end Early

variable {fragments : List Fragment} {host : Host} {system : System}

/-- An early termination is passed on whenever there is a tree.  A call for it does nothing
but wait for the gate, also when it is made inside another call: it has not passed while the
gate is shut, and past the open gate it returns by its own steps.  By then it has forwarded
its own request to the tree, once, or has dropped it, and then it has looked past an open
gate for a tree that was never built and never will be, or that the close had taken.  As
long as the worker is inside an advance of the tree the request is not dropped. -/
theorem early_termination_forwarded (hreach : (ofFragments fragments host).Reachable system)
    {id : ExecutorId} {thread : ThreadId} {receiver : Handle} {rest : List Frame}
    (hframes : system.frames thread = .finished id receiver .waitGate :: rest) :
    (∀ during, system.Above thread rest.length during → ∃ point,
      during.frames thread = .finished id receiver point :: rest ∧
        (∀ other, (during.executor other).entriesOf thread =
          (system.executor other).entriesOf thread) ∧
        ((during.executor id).gate.isOpen = false →
          point = .waitGate ∧ during.step thread = none) ∧
        ((during.executor id).gate.isOpen = true → during.world.exit = none →
          ∃ after, during.moves (List.replicate point.remaining (.step thread)) = some after ∧
            after.frames thread = rest ∧ after.signal thread = .replied (.answer .none))) ∧
      (∀ last after, system.Above thread rest.length last → last.step thread = some after →
        after.frames thread = rest →
        (∀ other, other ≠ id → (after.executor other).entriesOf thread =
          (system.executor other).entriesOf thread) ∧
          ((after.executor id).entriesOf thread =
              (system.executor id).entriesOf thread ++ [.forwarded receiver] ∨
            ((after.executor id).entriesOf thread = (system.executor id).entriesOf thread ∧
              ∃ read, system.Above thread rest.length read ∧ read.Reachable last ∧
                (read.executor id).gate.isOpen = true ∧ (read.executor id).treeHeld = false ∧
                ((∀ later, read.Reachable later → (later.executor id).treesBuilt = 0) ∨
                  read.TreeTaken id)))) ∧
      ∀ last after, system.Throughout (fun during =>
          rest.length < (during.frames thread).length ∧ during.IsAdvancing id) last →
        last.step thread = some after → after.frames thread = rest →
        (after.executor id).entriesOf thread =
          (system.executor id).entriesOf thread ++ [.forwarded receiver] := by
  have hunder := hreach.unrestricted
  refine ⟨?_, ?_, ?_⟩
  · intro during habove
    obtain ⟨point, hforwarding⟩ :=
      Throughout.forwarding (fun _ hheight => hheight) hframes habove.throughout
    have hduring := (hreach.above habove).unrestricted
    refine ⟨point, hforwarding.frames, hforwarding.quiet, ?_, ?_⟩
    · intro hshut
      have hwaits : point = .waitGate := by
        by_contra hpoint
        rw [hforwarding.passed hpoint] at hshut
        cases hshut
      exact ⟨hwaits, step_of_shut (hwaits ▸ hforwarding.frames) hshut⟩
    · intro hopen hexit
      exact hduring.returns_of_open hexit hforwarding.frames hopen
  · intro last after habove hstep hover
    obtain ⟨point, hforwarding⟩ :=
      Throughout.forwarding (fun _ hheight => hheight) hframes habove.throughout
    obtain ⟨hothers, ⟨-, hforwarded⟩ | ⟨hpoint, hdropped⟩⟩ := hforwarding.over hstep hover
    · exact ⟨hothers, .inl hforwarded⟩
    · obtain ⟨read, hread, hlater, hopen, hnone⟩ := hforwarding.missed hpoint
      have hthen := (hreach.throughout hread).unrestricted
      refine ⟨hothers, .inr ⟨hdropped, read, hread.above, hlater, hopen, hnone, ?_⟩⟩
      rcases hthen.gone_of_open hopen hnone with hnever | htaken
      · exact .inl fun later hlater =>
          (hthen.treesBuilt_of_open hopen hlater.unrestricted).trans hnever
      · exact .inr htaken
  · intro last after hpath hstep hover
    obtain ⟨point, hforwarding⟩ := Throughout.forwarding (fun _ hholds => hholds.1) hframes hpath
    obtain ⟨-, ⟨-, hforwarded⟩ | ⟨hpoint, -⟩⟩ := hforwarding.over hstep hover
    · exact hforwarded
    · obtain ⟨read, hread, -, -, hnone⟩ := hforwarding.missed hpoint
      have hthen := (hreach.throughout hread).unrestricted
      rw [(hthen.found_of_advancing hread.holds_last.2).1] at hnone
      cases hnone

/-- A request that is made while the worker is inside the first advance of its tree. -/
theorem early_termination_forwarded_of_advancing_worker :
    ∃ system last after, (ofFragments [.vacant] { slots := { free := 0 } }).Reachable system ∧
      system.frames 1 = [.finished 0 ⟨⟨0⟩, 0, 1⟩ .waitGate,
        .perform 0 (.finished ⟨⟨0⟩, 0, 1⟩) .waiting] ∧
      system.Throughout (fun during =>
        1 < (during.frames 1).length ∧ during.IsAdvancing 0) last ∧
      last.step 1 = some after ∧ (after.executor 0).entriesOf 1 = [.forwarded ⟨⟨0⟩, 0, 1⟩] := by
  obtain ⟨system, last, after, hreach, hbegin, hpath, hstep, hover⟩ :=
    exists_throughout_of_moves (ofFragments [.vacant] { slots := { free := 0 } })
      (.call (.act 0 .run) :: List.replicate 20 (.step 0) ++
        [.call (.act 0 (.finished ⟨⟨0⟩, 0, 1⟩)), .step 1]) 1 2
      (fun system => (system.frames 1, (system.executor 0).entriesOf 1))
      ([.finished 0 ⟨⟨0⟩, 0, 1⟩ .waitGate, .perform 0 (.finished ⟨⟨0⟩, 0, 1⟩) .waiting], [])
      (fun system => ((system.frames 1).length, (system.frames 0).head?))
      (2, some (.call 0 (.next 0) .enter)) (fun system => system.frames 1)
      [.perform 0 (.finished ⟨⟨0⟩, 0, 1⟩) .waiting] rfl
      (by
        intro taken htaken
        obtain rfl | rfl | rfl : taken = 0 ∨ taken = 1 ∨ taken = 2 := by omega
        all_goals rfl) rfl
  obtain ⟨hframes, hnothing⟩ : _ ∧ _ := by simpa only [Prod.mk.injEq] using hbegin
  have hadvancing : system.Throughout (fun during =>
      1 < (during.frames 1).length ∧ during.IsAdvancing 0) last := by
    refine hpath.imp fun during hseen => ?_
    obtain ⟨hlength, hhead⟩ : _ ∧ _ := by simpa only [Prod.mk.injEq] using hseen
    exact ⟨by omega, 0, 0, .enter, List.mem_of_mem_head? hhead⟩
  have hforwarded := (early_termination_forwarded hreach hframes).2.2 last after hadvancing hstep
    hover
  rw [hnothing] at hforwarded
  exact ⟨system, last, after, hreach, hframes, hadvancing, hstep, hforwarded⟩

end System

end FragmentLifecycle
