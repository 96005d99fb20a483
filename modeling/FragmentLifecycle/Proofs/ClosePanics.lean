import FragmentLifecycle.Proofs.CloseOrder
import FragmentLifecycle.Proofs.Returns
import FragmentLifecycle.Proofs.Watches

/-!
# A close of the context that panics

Whoever closes the resources sets the flag first and closes the context last, and catches
no panic of this close.  A run that makes the close is lost on the way to its report: its
watch stays registered, and nothing is reported (`System.RunLost`).  A cancellation that
makes it never asks for its state, so that a run may still build, but the flag is set and
nobody closes what is built (`System.Barren`).
-/

namespace FragmentLifecycle

section Transitions

variable {view : LockView} {thread : ThreadId} {id : ExecutorId} {frame : Frame}
  {signal : Signal} {executor executor' : Executor} {next : Next}

/-- A close begins before the lock, and is past the flag where it was or has set it. -/
theorem Transition.close_pushed
    (htransition : Transition view thread id frame signal executor next executor')
    {point : ClosePoint} (hpushed : .closeResources id point ∈ next.frames) :
    point = .lockClosing ∨ executor.resourcesClosed = false ∨
      ∃ point', frame = .closeResources id point' ∧ point'.holdsClosing = true ∧
        point' ≠ .closingContext := by
  cases htransition
  case aside hframes _ =>
    cases hframes _ (List.mem_append_left _ hpushed) (by simp [Frame.isCore])
  case closeBegins hclosed => exact .inr (.inl hclosed)
  case treeTaken | treeAbsent | rootCloseFails | rootClosePanics | rootCloses |
      closeFailureRecorded => exact .inr (.inr ⟨_, rfl, rfl, by simp⟩)
  all_goals simp at hpushed
  all_goals exact .inl hpushed

/-- A close that goes on sets the flag, takes the tree if there is one, or has it taken. -/
theorem Transition.close_moved {point point' : ClosePoint}
    (htransition :
      Transition view thread id (.closeResources id point) signal executor next executor')
    (hlast : next.frames.getLast? = some (.closeResources id point')) :
    executor'.journal = executor.journal ∧
      ((point = .lockClosing ∧ point' = .takeTree ∧ executor.resourcesClosed = false) ∨
        (point = .takeTree ∧ executor'.treeHeld = false ∧
          (point'.hasTree = true → executor.treeHeld = true)) ∨
        (point.hasTree = true ∧ executor'.treeHeld = executor.treeHeld)) := by
  cases htransition
  case aside houtside _ _ => simp [Frame.isCore] at houtside
  all_goals simp at hlast
  all_goals subst hlast
  case closeBegins hclosed => exact ⟨rfl, .inl ⟨rfl, rfl, hclosed⟩⟩
  case treeTaken hheld => exact ⟨rfl, .inr (.inl ⟨rfl, rfl, fun _ => hheld⟩)⟩
  case treeAbsent hheld => exact ⟨rfl, .inr (.inl ⟨rfl, hheld, by simp [ClosePoint.hasTree]⟩)⟩
  all_goals exact ⟨rfl, .inr (.inr ⟨rfl, rfl⟩)⟩

theorem Transition.close_called {caller : Frame} {point : ClosePoint}
    (htransition : Transition view thread id frame signal executor
      (.call caller (.closeResources id point)) executor') : point = .lockClosing := by
  cases htransition with
  | aside _ hframes =>
    cases hframes (.closeResources id point) (by simp) (by simp [Frame.isCore])
  | _ => rfl

/-- A run that a panic of its close has come to is lost. -/
theorem Transition.unwound_of_closing {l : Option ListenerId} {payload : Payload}
    (htransition : Transition view thread id (.run id l .closing) (.raised payload) executor next
      executor') : executor'.course = .unwound thread := by
  cases htransition with
  | aside houtside => simp [Frame.isCore] at houtside
  | closingUnwinds => rfl

end Transitions

namespace System

/-- Closed resources without a close of the tree, and no close that would look for one. -/
structure Barren (system : System) (id : ExecutorId) : Prop where
  closed : (system.executor id).resourcesClosed = true
  unclosed : tally (Entry.isEntered Call.isCloseRoot) (system.executor id).journal = 0
  points : ∀ thread point, .closeResources id point ∈ system.frames thread →
    point = .lockClosing ∨ point = .closingContext

/-- A panic of the close of the context comes back through the close of the resources to
the frame that made it, which stands on `rest`. -/
def IsUnwinding (system : System) (id : ExecutorId) (thread : ThreadId) (caller : Frame)
    (rest : List Frame) : Prop :=
  (system.frames thread = .closeResources id .closingContext :: caller :: rest ∨
      system.frames thread = caller :: rest) ∧
    ∃ payload, system.signal thread = .raised payload

/-- A run that a panic of its close of the context has ended or is about to end: nothing is
reported, its tree has been closed, and its watch is registered. -/
structure RunLost (system : System) (id : ExecutorId) (thread : ThreadId)
    (l : Option ListenerId) (rest : List Frame) : Prop where
  lost : (system.executor id).course = .unwound thread ∨
    system.IsUnwinding id thread (.run id l .closing) rest
  unreported : tally Entry.isTerminalReport (system.executor id).journal = 0
  treesClosed : (system.executor id).treesBuilt ≤
    tally (Entry.isEntered Call.isCloseRoot) (system.executor id).journal
  watched : ∀ added, l = some added → system.Watches id added

section Panics

variable {fragments : List Fragment} {host : Host} {permitted : Command → Prop}
  {system after : System} {id : ExecutorId} {thread owner : ThreadId} {frame caller : Frame}
  {rest below : List Frame} {next : Next} {l : Option ListenerId}

/-! ### What was closed -/

/-- A tree is closed only past the flag. -/
theorem ReachableUnder.unclosed_of_open
    (hreach : (ofFragments fragments host).ReachableUnder permitted system)
    (hopen : (system.executor id).resourcesClosed = false) :
    tally (Entry.isEntered Call.isCloseRoot) (system.executor id).journal = 0 := by
  refine hreach.invariant (fun system => (system.executor id).resourcesClosed = false →
    tally (Entry.isEntered Call.isCloseRoot) (system.executor id).journal = 0) ?_ ?_ ?_ hopen
  · intro _
    rfl
  · intro system after thread root hturn hholds
    rw [hturn.executor_eq]
    exact hholds
  · intro system after thread frame rest next hreach hadvance hholds hopen
    have htransition := Frame.step_transition id hadvance.step
    have hbefore : (system.executor id).resourcesClosed = false := by
      by_contra hclosed
      rw [Bool.not_eq_false] at hclosed
      have hafter : (after.executor id).resourcesClosed = true := htransition.grows.closed hclosed
      rw [hafter] at hopen
      cases hopen
    rcases htransition.closeRoot_cases with hsame | rfl
    · exact hsame.trans (hholds hbefore)
    · have hcloser := hreach.closing_of_closeRoot (hadvance.frames ▸ List.mem_cons_self)
      rw [hreach.closed_of_closing hcloser rfl] at hbefore
      cases hbefore

/-- A cancellation closes no tree: it has found none when it begins to close. -/
theorem ReachableUnder.unclosed_of_cancelling
    (hreach : (ofFragments fragments host).ReachableUnder permitted system) {point : ClosePoint}
    (hpair : [.closeResources id point, .cancel id .closing] <:+: system.frames thread)
    (hpoint : point.holdsClosing = true) :
    point.hasTree = false ∧
      tally (Entry.isEntered Call.isCloseRoot) (system.executor id).journal = 0 := by
  refine hreach.on_call (fun system _ callee caller => caller = .cancel id .closing →
    ∀ point, callee = .closeResources id point → point.holdsClosing = true →
      point.hasTree = false ∧
        tally (Entry.isEntered Call.isCloseRoot) (system.executor id).journal = 0)
    ?_ ?_ ?_ ?_ hpair rfl point rfl hpoint
  · intro system after thread root hturn owner callee caller hholds
    rw [hturn.executor_eq]
    exact hholds
  · rintro system after thread frame rest caller _ _ hadvance - point rfl hpoint
    obtain rfl := (Frame.step_transition id hadvance.step).close_called
    cases hpoint
  · rintro system after thread frame _ rest next hreach hadvance hholds _ hlast hrole rfl point rfl
      hpoint
    obtain ⟨before, rfl⟩ := Frame.eq_closeResources_of_role hrole.symm
    obtain ⟨hjournal, hcases⟩ := (Frame.step_transition id hadvance.step).close_moved hlast
    rw [System.executor, hjournal]
    rcases hcases with ⟨-, rfl, hopen⟩ | ⟨rfl, -, htree⟩ | ⟨htree, -⟩
    · exact ⟨rfl, hreach.unclosed_of_open hopen⟩
    · obtain ⟨-, hunclosed⟩ := hholds rfl .takeTree rfl rfl
      refine ⟨?_, hunclosed⟩
      by_contra hhas
      have hpair : [.closeResources id .takeTree, .cancel id .closing] <:+:
          system.frames thread := by
        rw [hadvance.frames]
        exact (List.prefix_append [_, _] rest).isInfix
      have hnone := hreach.treeless_of_opening hpair rfl
      rw [System.executor, htree (by simpa using hhas)] at hnone
      cases hnone
    · have hpast : before.holdsClosing = true := by
        cases before <;> first | rfl | cases htree
      rw [(hholds rfl before rfl hpast).1] at htree
      cases htree
  · rintro system after thread frame rest next hreach hadvance owner _ caller hcallee _ hholds rfl
      point rfl hpoint
    obtain ⟨hnone, hunclosed⟩ := hholds rfl point rfl hpoint
    refine ⟨hnone, ?_⟩
    rcases (Frame.step_transition id hadvance.step).closeRoot_cases with hsame | rfl
    · exact hsame.trans hunclosed
    · -- the tree would be closed inside a second close of the resources
      have hcloser := hreach.closing_of_closeRoot (hadvance.frames ▸ List.mem_cons_self)
      obtain ⟨-, rfl⟩ := hreach.closing_unique (hadvance.mem_of_beside hcallee) hcloser hpoint rfl
      cases hnone

/-- A run that has looked for a tree to close leaves none. -/
theorem ReachableUnder.treeless_of_closing
    (hreach : (ofFragments fragments host).ReachableUnder permitted system) {point : ClosePoint}
    (hpair : [.closeResources id point, .run id l .closing] <:+: system.frames thread)
    (hpoint : point.isOpening = false) : (system.executor id).treeHeld = false := by
  refine hreach.on_call (fun system _ callee caller => caller = .run id l .closing →
    ∀ point, callee = .closeResources id point → point.isOpening = false →
      (system.executor id).treeHeld = false) ?_ ?_ ?_ ?_ hpair rfl point rfl hpoint
  · intro system after thread root hturn owner callee caller hholds
    rw [hturn.executor_eq]
    exact hholds
  · rintro system after thread frame rest caller _ _ hadvance - point rfl hpoint
    obtain rfl := (Frame.step_transition id hadvance.step).close_called
    cases hpoint
  · rintro system after thread frame _ rest next hreach hadvance hholds _ hlast hrole rfl point rfl
      hpoint
    obtain ⟨before, rfl⟩ := Frame.eq_closeResources_of_role hrole.symm
    rcases ((Frame.step_transition id hadvance.step).close_moved hlast).2 with
      ⟨-, rfl, -⟩ | ⟨-, hnone, -⟩ | ⟨htree, hsame⟩
    · cases hpoint
    · exact hnone
    · have hpast : before.isOpening = false := by
        cases before <;> first | rfl | cases htree
      exact hsame.trans (hholds rfl before rfl hpast)
  · rintro system after thread frame rest next hreach hadvance owner _ _ _ hcaller hholds rfl point
      rfl hpoint
    have hnone : (system.executor id).treeHeld = false := hholds rfl point rfl hpoint
    by_contra hheld
    rw [Bool.not_eq_false] at hheld
    rcases (Frame.step_transition id hadvance.step).treeHeld_cases hheld with hbefore | ⟨l', rfl⟩
    · rw [System.executor, hbefore] at hnone
      cases hnone
    · obtain ⟨-, -, hsame⟩ := hreach.live_unique (hadvance.mem_of_beside hcaller) (by simp)
        (hadvance.frames ▸ List.mem_cons_self) (by simp)
      cases hsame

/-! ### Resources that are closed without a tree -/

theorem Barren.turnover {root : Frame} (hbarren : system.Barren id)
    (hturn : system.Turnover after thread root) : after.Barren id := by
  refine ⟨?_, ?_, fun owner point hmem => ?_⟩
  · rw [hturn.executor_eq]
    exact hbarren.closed
  · rw [hturn.executor_eq]
    exact hbarren.unclosed
  · have hcore : (Frame.closeResources id point).isCore id = true := by simp [Frame.isCore]
    exact hbarren.points owner point (hturn.frames_of_core hmem hcore ▸ hmem)

theorem Barren.advance (hreach : (ofFragments fragments host).ReachableUnder permitted system)
    (hbarren : system.Barren id) (hadvance : system.Advance after thread frame rest next) :
    after.Barren id := by
  have htransition := Frame.step_transition id hadvance.step
  have htop : frame ∈ system.frames thread := hadvance.frames ▸ List.mem_cons_self
  refine ⟨htransition.grows.closed hbarren.closed, ?_, fun owner point hmem => ?_⟩
  · rcases htransition.closeRoot_cases with hsame | rfl
    · exact hsame.trans hbarren.unclosed
    · rcases hbarren.points thread _ (hreach.closing_of_closeRoot htop) with hpoint | hpoint <;>
        cases hpoint
  · have hcore : (Frame.closeResources id point).isCore id = true := by simp [Frame.isCore]
    rcases hadvance.mem_cases hmem hcore with ⟨-, hpushed⟩ | hbeside
    · rcases htransition.close_pushed hpushed with rfl | hopen | ⟨before, rfl, hholds, hother⟩
      · exact .inl rfl
      · have hclosed : (system.world.executors id).resourcesClosed = true := hbarren.closed
        rw [hopen] at hclosed
        cases hclosed
      · rcases hbarren.points thread before htop with rfl | rfl
        · cases hholds
        · exact absurd rfl hother
    · exact hbarren.points owner point (hadvance.mem_of_beside hbeside)

/-- Where a cancellation closes the context, nobody will close a tree. -/
theorem ReachableUnder.barren_of_cancelling
    (hreach : (ofFragments fragments host).ReachableUnder permitted system)
    (hpair : [.closeResources id .closingContext, .cancel id .closing] <:+:
      system.frames thread) : system.Barren id := by
  have hmem : .closeResources id .closingContext ∈ system.frames thread := hpair.mem (by simp)
  refine ⟨hreach.closed_of_closing hmem rfl, (hreach.unclosed_of_cancelling hpair rfl).2, ?_⟩
  intro owner point hother
  by_cases hpoint : point.holdsClosing = true
  · exact .inr (hreach.closing_unique hother hmem hpoint rfl).2
  · left
    cases point <;> first | rfl | exact absurd rfl hpoint

theorem ReachableUnder.barren_later
    (hreach : (ofFragments fragments host).ReachableUnder permitted system)
    (hbarren : system.Barren id) {later : System}
    (hlater : system.ReachableUnder permitted later) : later.Barren id :=
  ReachableUnder.since (fun system => system.Barren id) hreach hbarren
    (fun hturn hbarren => hbarren.turnover hturn)
    (fun hreach hadvance hbarren => hbarren.advance hreach hadvance) hlater

/-! ### The panic on its way -/

theorem IsUnwinding.mem (hunwinding : system.IsUnwinding id thread caller rest) :
    caller ∈ system.frames thread := by
  rcases hunwinding.1 with hframes | hframes <;> simp [hframes]

/-- A panic leaves the call on the context. -/
theorem frames_of_raised {call : Frame} {payload : Payload} (hframes : system.frames thread =
      call :: .closeResources id .closingContext :: caller :: rest)
    (hstep : system.step thread = some after) (hraised : after.signal thread = .raised payload) :
    after.frames thread = .closeResources id .closingContext :: caller :: rest := by
  obtain ⟨frame, below, next, hadvance⟩ := advance_of_step hstep
  obtain ⟨rfl, rfl⟩ := List.cons.inj (hadvance.frames.symm.trans hframes)
  rw [hadvance.ownSignal] at hraised
  rw [hadvance.own, Next.frames_of_signal (by simp [hraised]), List.nil_append]

theorem IsUnwinding.turnover {mover : ThreadId} {root : Frame}
    (hunwinding : system.IsUnwinding id thread caller rest)
    (hturn : system.Turnover after mover root) (hcore : caller.isCore id = true) :
    after.IsUnwinding id thread caller rest := by
  obtain ⟨hframes, hsignal⟩ := hturn.same_of_core hunwinding.mem hcore
  rw [IsUnwinding, hframes, hsignal]
  exact hunwinding

theorem IsUnwinding.beside {mover : ThreadId}
    (hunwinding : system.IsUnwinding id thread caller rest)
    (hadvance : system.Advance after mover frame below next) (hthread : thread ≠ mover) :
    after.IsUnwinding id thread caller rest := by
  obtain ⟨hframes, hsignal⟩ :=
    hadvance.same_of_busy hthread (List.ne_nil_of_mem hunwinding.mem)
  rw [IsUnwinding, hframes, hsignal]
  exact hunwinding

/-- The panic passes the close of the resources, and then comes to the frame that made it. -/
theorem IsUnwinding.advance (hunwinding : system.IsUnwinding id thread caller rest)
    (hadvance : system.Advance after thread frame below next) :
    (after.IsUnwinding id thread caller rest ∧ after.world = system.world) ∨
      (frame = caller ∧ below = rest ∧ ∃ payload, system.signal thread = .raised payload) := by
  obtain ⟨hframes | hframes, payload, hsignal⟩ := hunwinding
  · obtain ⟨rfl, rfl⟩ := List.cons.inj (hadvance.frames.symm.trans hframes)
    have hstep := hadvance.step
    rw [hsignal] at hstep
    simp only [Frame.step, stepClose, Option.some.injEq, Prod.mk.injEq] at hstep
    obtain ⟨hworld, rfl⟩ := hstep
    exact .inl ⟨⟨.inr hadvance.own, payload, hadvance.ownSignal⟩, hworld.symm⟩
  · obtain ⟨rfl, rfl⟩ := List.cons.inj (hadvance.frames.symm.trans hframes)
    exact .inr ⟨rfl, rfl, payload, hsignal⟩

/-! ### A run that is lost -/

namespace RunLost

/-- A lost run does nothing more. -/
theorem point (hreach : (ofFragments fragments host).ReachableUnder permitted system)
    (hlost : system.RunLost id thread l rest) {l' : Option ListenerId} {point : RunPoint}
    (hmem : .run id l' point ∈ system.frames owner) : point = .start ∨ point = .closing := by
  by_cases hpoint : point = .start
  · exact .inl hpoint
  · right
    rcases hlost.lost with hunwound | hunwinding
    · rw [hreach.course_of_run hmem hpoint] at hunwound
      cases hunwound
    · exact (hreach.live_unique hmem hpoint hunwinding.mem (by simp)).2.2

theorem turnover {mover : ThreadId} {root : Frame} (hlost : system.RunLost id thread l rest)
    (hturn : system.Turnover after mover root) : after.RunLost id thread l rest := by
  refine ⟨?_, ?_, ?_, fun added hl => (hlost.watched added hl).turnover hturn⟩
  · rw [hturn.executor_eq]
    exact hlost.lost.imp_right fun hunwinding => hunwinding.turnover hturn (by simp [Frame.isCore])
  · rw [hturn.executor_eq]
    exact hlost.unreported
  · rw [hturn.executor_eq]
    exact hlost.treesClosed

theorem lost_advance {mover : ThreadId}
    (hreach : (ofFragments fragments host).ReachableUnder permitted system)
    (hlost : system.RunLost id thread l rest)
    (hadvance : system.Advance after mover frame below next) :
    (after.executor id).course = .unwound thread ∨
      after.IsUnwinding id thread (.run id l .closing) rest := by
  have htransition := Frame.step_transition id hadvance.step
  rcases hlost.lost with hunwound | hunwinding
  · left
    obtain hsame | ⟨l', -, -, hnew, -⟩ | ⟨l', point, rfl, hpoint, -⟩ := htransition.course_cases
    · exact hsame.trans hunwound
    · rw [System.executor, hnew] at hunwound
      cases hunwound
    · rw [hreach.course_of_run (hadvance.frames ▸ List.mem_cons_self) hpoint] at hunwound
      cases hunwound
  · by_cases hthread : thread = mover
    · subst hthread
      rcases hunwinding.advance hadvance with ⟨hstill, -⟩ | ⟨rfl, -, payload, hsignal⟩
      · exact .inr hstill
      · rw [hsignal] at htransition
        exact .inl htransition.unwound_of_closing
    · exact .inr (hunwinding.beside hadvance hthread)

theorem advance {mover : ThreadId}
    (hreach : (ofFragments fragments host).ReachableUnder permitted system)
    (hlost : system.RunLost id thread l rest)
    (hadvance : system.Advance after mover frame below next) : after.RunLost id thread l rest := by
  have htransition := Frame.step_transition id hadvance.step
  have htop : frame ∈ system.frames mover := hadvance.frames ▸ List.mem_cons_self
  refine ⟨hlost.lost_advance hreach hadvance, ?_, ?_, fun added hl => ?_⟩
  · rcases htransition.journal_cases with hsame | ⟨entry, hwrites, hlonger⟩
    · rw [System.executor, hsame]
      exact hlost.unreported
    · by_cases hentry : entry.isTerminalReport = true
      · cases hwrites with
        | entered =>
          obtain ⟨l', hrun⟩ := hreach.reporting_of_terminal htop hentry
          rcases hlost.point hreach (List.mem_of_mem_tail hrun) with hpoint | hpoint <;>
            cases hpoint
        | _ => cases hentry
      · rw [System.executor, hlonger, tally_append]
        simp only [hentry, Bool.toNat_false, Nat.add_zero]
        exact hlost.unreported
  · have hbuild : frame.isBuild id = false := by
      by_contra hbuild
      obtain ⟨point, rfl⟩ := Frame.eq_call_of_isBuild (by simpa using hbuild)
      obtain ⟨l', hrun⟩ := hreach.building_of_build htop
      rcases hlost.point hreach hrun with hpoint | hpoint <;> cases hpoint
    have hbuilt := hadvance.treesBuilt_eq hreach id
    rw [hbuild, Bool.false_and, Bool.toNat_false, Nat.add_zero] at hbuilt
    rw [hbuilt]
    exact hlost.treesClosed.trans (tally_mono _ _ htransition.grows.journal)
  · rcases (hlost.watched added hl).advance hreach hadvance with hstill | rfl
    · exact hstill
    · rcases hlost.point hreach htop with hpoint | hpoint <;> cases hpoint

end RunLost

/-- A run is lost where a panic of its close of the context has come out of the context. -/
theorem ReachableUnder.runLost
    (hreach : (ofFragments fragments host).ReachableUnder permitted system)
    (hunwinding : system.IsUnwinding id thread (.run id l .closing) rest)
    (hframes : system.frames thread =
      .closeResources id .closingContext :: .run id l .closing :: rest) :
    system.RunLost id thread l rest := by
  have hrun := hunwinding.mem
  refine ⟨.inr hunwinding, ?_, ?_, ?_⟩
  · have hmost := hreach.report_le id
    have hdue := weight_le_total (within id Frame.reportDue) hrun
    simp [Frame.reportDue] at hdue
    omega
  · have hpair : [.closeResources id .closingContext, .run id l .closing] <:+:
        system.frames thread := by
      rw [hframes]
      exact (List.prefix_append [_, _] rest).isInfix
    have htree : (system.executor id).treesBuilt =
        tally (Entry.isEntered Call.isCloseRoot) (system.executor id).journal +
          (system.executor id).treeHeld.toNat := by
      refine hreach.tree_of_quiet (fun owner l' point hmem => ?_) fun owner point hmem => ?_
      · by_cases hpoint : point = .start
        · rw [hpoint]
          rfl
        · rw [(hreach.live_unique hmem hpoint hrun (by simp)).2.2]
          rfl
      · have hclosing : .closeResources id .closingContext ∈ system.frames thread :=
          hpair.mem (by simp)
        cases (hreach.closing_unique (hreach.closing_of_closeRoot hmem) hclosing rfl rfl).2
    rw [hreach.treeless_of_closing hpair rfl] at htree
    exact htree.le
  · rintro added rfl
    exact (hreach.watches_of_run hrun).2 rfl

theorem ReachableUnder.runLost_later
    (hreach : (ofFragments fragments host).ReachableUnder permitted system)
    (hlost : system.RunLost id thread l rest) {later : System}
    (hlater : system.ReachableUnder permitted later) : later.RunLost id thread l rest :=
  ReachableUnder.since (fun system => system.RunLost id thread l rest) hreach hlost
    (fun hturn hlost => hlost.turnover hturn)
    (fun hreach hadvance hlost => hlost.advance hreach hadvance) hlater

/-! ### A cancellation that is lost -/

/-- A cancellation that the panic passes does nothing more and does not return. -/
theorem IsUnwinding.step (hunwinding : system.IsUnwinding id thread (.cancel id .closing) rest)
    (hstep : system.step thread = some after) :
    after.executor id = system.executor id ∧
      (∃ payload, after.signal thread = .raised payload) ∧
      (after.IsUnwinding id thread (.cancel id .closing) rest ∨ after.frames thread = rest) := by
  obtain ⟨frame, below, next, hadvance⟩ := advance_of_step hstep
  rcases hunwinding.advance hadvance with ⟨hstill, hworld⟩ | ⟨rfl, rfl, payload, hsignal⟩
  · rw [System.executor, hworld]
    exact ⟨rfl, hstill.2, .inl hstill⟩
  · have hstep := hadvance.step
    rw [hsignal] at hstep
    simp only [Frame.step, stepCancel, Option.some.injEq, Prod.mk.injEq] at hstep
    obtain ⟨hworld, rfl⟩ := hstep
    rw [System.executor, ← hworld]
    exact ⟨rfl, ⟨payload, hadvance.ownSignal⟩, .inr hadvance.own⟩

theorem IsUnwinding.above {later : System}
    (hunwinding : system.IsUnwinding id thread (.cancel id .closing) rest)
    (habove : system.Above thread rest.length later) :
    later.IsUnwinding id thread (.cancel id .closing) rest := by
  induction habove with
  | refl => exact hunwinding
  | @move later next move habove hmove hheight ih =>
    have hcore : (Frame.cancel id .closing).isCore id = true := by simp [Frame.isCore]
    cases move with
    | step mover =>
      by_cases hthread : thread = mover
      · subst hthread
        obtain ⟨-, -, hstill | hover⟩ := ih.step hmove
        · exact hstill
        · rw [hover] at hheight
          exact absurd hheight (Nat.lt_irrefl _)
      · obtain ⟨frame, below, following, hadvance⟩ := advance_of_step hmove
        exact ih.beside hadvance hthread
    | call command =>
      obtain rfl := Option.some.inj hmove
      exact ih.turnover (turnover_of_call later command) hcore
    | abandon mover =>
      obtain ⟨root, hturn, -⟩ := turnover_of_abandon hmove
      exact ih.turnover hturn hcore

end Panics

variable {fragments : List Fragment} {host : Host} {system : System}

/-- A panic of the close of the context breaks the shutdown.  Where the run closes the
context, the run is lost: nothing is ever reported, and its watch stays registered; only
the tree is closed, as this comes first.  Where a cancellation that found no tree closes
it, the cancellation does nothing more: it asks for no state and does not return.  The
resources count as closed all the same, so no tree is ever closed, and a tree that a run
builds after this is left over when the run has returned. -/
theorem close_panic_breaks_shutdown (hreach : (ofFragments fragments host).Reachable system)
    (id : ExecutorId) :
    (∀ thread point l rest after payload,
      system.frames thread = .call id .closeContext point ::
        .closeResources id .closingContext :: .run id l .closing :: rest →
      system.step thread = some after → after.signal thread = .raised payload →
      ∀ later, after.Reachable later →
        ((later.executor id).course = .unwound thread ∨
            later.IsUnwinding id thread (.run id l .closing) rest) ∧
          (later.executor id).terminalReports = [] ∧
          (∀ added, l = some added →
            (added, (⟨id, (later.executor id).fragment.identity.foreman⟩ : Watch)) ∈
              later.world.registry.listeners) ∧
          tally (Entry.isEntered Call.isCloseRoot) (later.executor id).journal =
            (later.executor id).treesBuilt) ∧
      ∀ thread point rest after payload,
        system.frames thread = .call id .closeContext point ::
          .closeResources id .closingContext :: .cancel id .closing :: rest →
        system.step thread = some after → after.signal thread = .raised payload →
        (∀ later next, after.Above thread rest.length later → later.step thread = some next →
          next.executor id = later.executor id ∧
            ∃ payload, next.signal thread = .raised payload) ∧
          ∀ later, after.Reachable later →
            tally (Entry.isEntered Call.isCloseRoot) (later.executor id).journal = 0 ∧
              ∀ owner, (later.executor id).course = .ended owner →
                (later.executor id).treesBuilt = 1 → (later.executor id).treeHeld = true := by
  have hmoved {thread : ThreadId} {after : System} (hstep : system.step thread = some after) :
      (ofFragments fragments host).ReachableUnder (fun _ => True) after :=
    Reachable.unrestricted (.move (.step thread) hreach hstep)
  constructor
  · intro thread point l rest after payload hframes hstep hraised later hlater
    have hafter := hmoved hstep
    have hgone := frames_of_raised hframes hstep hraised
    have hlost := hafter.runLost_later (hafter.runLost ⟨.inl hgone, payload, hraised⟩ hgone)
      hlater.unrestricted
    have hmost := (hafter.trans hlater.unrestricted).closeRoot_le id
    refine ⟨hlost.lost, ?_, hlost.watched, Nat.le_antisymm hmost hlost.treesClosed⟩
    rw [← List.length_eq_zero_iff, Executor.length_terminalReports]
    exact hlost.unreported
  · intro thread point rest after payload hframes hstep hraised
    have hafter := hmoved hstep
    have hgone := frames_of_raised hframes hstep hraised
    constructor
    · intro later next habove hnext
      have hunwinding : later.IsUnwinding id thread (.cancel id .closing) rest :=
        IsUnwinding.above ⟨.inl hgone, payload, hraised⟩ habove
      obtain ⟨hsame, hpanics, -⟩ := hunwinding.step hnext
      exact ⟨hsame, hpanics⟩
    · intro later hlater
      have hpair : [.closeResources id .closingContext, .cancel id .closing] <:+:
          after.frames thread := by
        rw [hgone]
        exact (List.prefix_append [_, _] rest).isInfix
      have hbarren := hafter.barren_later (hafter.barren_of_cancelling hpair) hlater.unrestricted
      refine ⟨hbarren.unclosed, fun owner hended hbuilt => ?_⟩
      have htree := (hafter.trans hlater.unrestricted).tree_of_ended hended
      rw [hbarren.unclosed, Nat.zero_add] at htree
      by_contra hnone
      rw [Bool.not_eq_true] at hnone
      rw [hnone, hbuilt] at htree
      cases htree

/-- A fragment whose context panics when it is closed. -/
def panicky : Fragment :=
  { Fragment.vacant with script := { closeContext := { outcome := .panic (.text "boom") } } }

/-- A run that such a fragment loses, and a cancellation that it loses: a run after this
builds a tree and leaves it over. -/
theorem close_panic_breaks_shutdown_of_panicky_context :
    (∃ system after, (ofFragments [panicky] { slots := { free := 0 } }).Reachable system ∧
      system.frames 0 = [.call 0 .closeContext (.play []), .closeResources 0 .closingContext,
        .run 0 (some 0) .closing, .perform 0 .run .waiting] ∧
      system.step 0 = some after ∧ after.signal 0 = .raised (.text "boom") ∧
      ∀ later, after.Reachable later → (later.executor 0).terminalReports = [] ∧
        (0, (⟨0, (later.executor 0).fragment.identity.foreman⟩ : Watch)) ∈
          later.world.registry.listeners) ∧
      ∃ system after later, (ofFragments [panicky] { slots := { free := 0 } }).Reachable system ∧
        system.frames 0 = [.call 0 .closeContext (.play []), .closeResources 0 .closingContext,
          .cancel 0 .closing, .perform 0 .cancel .waiting] ∧
        system.step 0 = some after ∧ after.signal 0 = .raised (.text "boom") ∧
        after.Reachable later ∧ (later.executor 0).course = .ended 1 ∧
        (later.executor 0).treesBuilt = 1 ∧ (later.executor 0).treeHeld = true ∧
        tally (Entry.isEntered Call.isCloseRoot) (later.executor 0).journal = 0 := by
  constructor
  · obtain ⟨system, hreach, hend⟩ := exists_of_moves
      (ofFragments [panicky] { slots := { free := 0 } })
      (.call (.act 0 .run) :: List.replicate 35 (.step 0))
      (fun system => (system.frames 0, (system.step 0).map fun after => after.signal 0))
      ([.call 0 .closeContext (.play []), .closeResources 0 .closingContext,
        .run 0 (some 0) .closing, .perform 0 .run .waiting], some (.raised (.text "boom"))) rfl
    obtain ⟨hframes, hpanics⟩ : _ ∧ _ := by simpa only [Prod.mk.injEq] using hend
    obtain ⟨after, hstep, hraised⟩ := Option.map_eq_some_iff.mp hpanics
    refine ⟨system, after, hreach, hframes, hstep, hraised, fun later hlater => ?_⟩
    obtain ⟨-, hnone, hwatched, -⟩ := (close_panic_breaks_shutdown hreach 0).1 0 _ _ _ after _
      hframes hstep hraised later hlater
    exact ⟨hnone, hwatched 0 rfl⟩
  · obtain ⟨system, hreach, hend⟩ := exists_of_moves
      (ofFragments [panicky] { slots := { free := 0 } })
      (.call (.act 0 .cancel) :: List.replicate 9 (.step 0))
      (fun system => (system.frames 0, (system.step 0).map fun after => (after.signal 0,
        (after.moves (.step 0 :: .step 0 :: .call (.act 0 .run) ::
          List.replicate 35 (.step 1))).map fun later =>
            ((later.executor 0).course, (later.executor 0).treesBuilt))))
      ([.call 0 .closeContext (.play []), .closeResources 0 .closingContext,
        .cancel 0 .closing, .perform 0 .cancel .waiting],
        some (.raised (.text "boom"), some (.ended 1, 1))) rfl
    obtain ⟨hframes, hpanics⟩ : _ ∧ _ := by simpa only [Prod.mk.injEq] using hend
    obtain ⟨after, hstep, hafter⟩ := Option.map_eq_some_iff.mp hpanics
    obtain ⟨hraised, hlate⟩ : _ ∧ _ := by simpa only [Prod.mk.injEq] using hafter
    obtain ⟨later, hmoves, hend⟩ := Option.map_eq_some_iff.mp hlate
    obtain ⟨hended, hbuilt⟩ : _ ∧ _ := by simpa only [Prod.mk.injEq] using hend
    have hlater : after.Reachable later := Reachable.refl.of_moves hmoves
    obtain ⟨-, hbarren⟩ := (close_panic_breaks_shutdown hreach 0).2 0 _ _ after _ hframes hstep
      hraised
    obtain ⟨hunclosed, hleft⟩ := hbarren later hlater
    exact ⟨system, after, later, hreach, hframes, hstep, hraised, hlater, hended, hbuilt,
      hleft 1 hended hbuilt, hunclosed⟩

end System

end FragmentLifecycle
