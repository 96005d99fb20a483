import FragmentLifecycle.Proofs.RunStages

/-!
# The parts of a run

What a run does on a lone thread, part by part: its setup, the advances of the tree, what it
makes of the way they ended, and the close of the resources.  The collaborators do not call
back, and no pause is armed.
-/

namespace FragmentLifecycle

/-- How a call on the builder or on the tree ends. -/
def Outcome.ending : Outcome → Ending
  | .error fault => .failed fault
  | .panic payload => .panicked payload
  | _ => .completed

namespace Ending

/-- The exhaustion of the heap that an error carries, for which the alarm is raised. -/
def alarm? : Ending → Option OutOfMemory
  | .failed fault => fault.outOfMemory?.filter fun exhaustion => !exhaustion.pool.isRecoverable
  | _ => none

/-- The failure of a build or of an advance as a cause.  An exhaustion that an error carries
stands for the error. -/
def cause? : Ending → Option Fault
  | .completed => none
  | .failed fault =>
      match fault.outOfMemory? with
      | none => some fault
      | some exhaustion => some (.execution (.memory exhaustion))
  | .panicked payload => some (panicFault payload)

theorem alarm?_of_completed (ending : Ending) (hcompleted : ending.cause? = none) :
    ending.alarm? = none := by
  cases ending with
  | failed fault => cases hfault : fault.outOfMemory? <;> simp [cause?, hfault] at hcompleted
  | _ => rfl

/-- The failure of a close of the tree as a cause. -/
def closeCause? : Ending → Option Fault
  | .completed => none
  | .failed fault => some (.within (.text closeFailureText) fault)
  | .panicked payload => some (panicFault payload)

end Ending

/-- No collaborator calls back or stays away.  The builder and the tree may fail in any way. -/
structure Script.IsQuiet (script : Script) : Prop where
  build : script.build.IsQuiet
  steps : ∀ plan ∈ script.steps, plan.IsQuiet
  closeRoot : script.closeRoot.IsQuiet
  exhausted : script.exhausted.IsPassive
  others : script.IsPassive

namespace Script

variable {script : Script}

theorem IsQuiet.next (hquiet : script.IsQuiet) (index : Nat) :
    (script.planOf (.next index)).IsQuiet := by
  cases hplan : script.steps[index]? with
  | none =>
    simp only [planOf, hplan]
    exact ⟨by simp, by simp⟩
  | some plan =>
    simp only [planOf, hplan]
    exact hquiet.steps plan (List.mem_of_getElem? hplan)

end Script

section Parts

variable {fragment : Fragment} {thread : ThreadId} {id : ExecutorId} {stage : Stage}
  {rest : List Frame} {listener : Option ListenerId} {world : World}

/-- The run begins with the build. -/
theorem leads_begin (thread : ThreadId) (hexit : world.exit = none)
    (hnew : world.executors id = .ofFragment fragment) :
    ∃ world', Leads thread world [.perform id .run .start] .go world'
        [.call id .build .enter, .run id none .building, .perform id .run .waiting] .go ∧
      world'.IsAt id fragment thread {} := by
  let begun := world.modify id fun executor => { executor with course := .underWay thread }
  let enrolled := begun.modify id fun executor => { executor with worker := some thread }
  have henrolled : enrolled.executors id =
      { Executor.ofFragment fragment with course := .underWay thread, worker := some thread } := by
    simp [enrolled, begun, hnew]
  have hbegins (view : LockView) : (Frame.run id none .start).step world view thread .go =
      some (begun, .goto (.run id none .enrol)) := by
    simp [begun, Frame.step, stepRun, stepSetup, RunPoint.inSetup, hnew, Executor.ofFragment]
  have hbuilds (view : LockView) : (Frame.run id none .inspect).step enrolled view thread .go =
      some (enrolled, .call (.run id none .building) (.call id .build .enter)) := by
    simp [Frame.step, stepRun, stepSetup, RunPoint.inSetup, RunPoint.holdsSetup, henrolled,
      Executor.ofFragment, Executor.state, State.continues, State.isTerminal]
  refine ⟨enrolled, .call hexit rfl (.goto hexit (hbegins _) (.goto hexit rfl (.goto hexit rfl
    (.call hexit (hbuilds _) .refl)))), hexit, ?_⟩
  rw [henrolled]
  exact { Executor.IsAt.ofFragment fragment thread with }

/-- A tree that has been built is kept, and its foreman watched. -/
theorem leads_watch (rest : List Frame) (hat : world.IsAt id fragment thread stage) :
    ∃ world' added, Leads thread world (.run id none .keepTree :: rest) .go world'
        (.run id (some added) .announce :: rest) .go ∧
      world'.IsAt id fragment thread { stage with treeHeld := true } := by
  let kept := world.modify id fun executor => { executor with treeHeld := true }
  have hkept : kept.IsAt id fragment thread { stage with treeHeld := true } :=
    hat.modify _ fun hat => { hat with treeHeld := rfl }
  exact ⟨_, _, .goto hat.exit rfl (.goto hkept.exit rfl .refl), hkept.exit, hkept.executor⟩

/-- A new tree is announced as running. -/
theorem Runs.announce (hpassive : fragment.script.IsPassive)
    (hstate : stage.state = .awaitingAllocation) :
    Runs fragment thread id stage (.run id listener .announce :: rest) .go
      ({ stage with state := .running }.called [.stateChanged .running])
      (.run id listener .assumePrincipal :: rest) .go := by
  have hrequests : Runs fragment thread id stage (.run id listener .announce :: rest) .go
      { stage with state := .running }
      (.call id (.stateChanged .running) .enter :: .run id listener .announcing :: rest) .go := by
    refine .call fun world hat => ⟨(world.request id thread .running).2, ?_, ?_⟩
    · have hdecision := hat.fst_request .running
      rw [hstate] at hdecision
      simp only [Frame.step, stepRun, stepSetup, RunPoint.inSetup, RunPoint.holdsSetup]
      generalize world.request id thread .running = result at hdecision
      obtain ⟨decision, next⟩ := result
      obtain rfl : decision = _ := hdecision
      rfl
    · have hrequested := hat.request .running
      rw [Stage.requested, hstate] at hrequested
      exact hrequested
  obtain ⟨reply, hreply⟩ := (hpassive.onReport .running).signal (.stateChanged .running)
  have hreports : Runs fragment thread id { stage with state := .running }
      (.call id (.stateChanged .running) .enter :: .run id listener .announcing :: rest) .go
      ({ stage with state := .running }.called [.stateChanged .running])
      (.run id listener .announcing :: rest) (.replied reply) := by
    rw [← hreply]
    exact .collaborator _ (hpassive.onReport .running).isQuiet (by simp) (by simp)
  refine (hrequests.trans hreports).trans ?_
  exact .trans (.goto fun world hat => ⟨world, rfl, hat⟩) (.goto fun world hat =>
    ⟨_, rfl, (hat.modify (fun executor => { executor with gate := executor.gate.opened })
      fun hat => { hat with }).note _⟩)

/-- The run takes on its principal and is not paused. -/
theorem leads_assume (listener : Option ListenerId) (rest : List Frame)
    (htree : stage.treeHeld = true) (hat : world.IsAt id fragment thread stage) :
    ∃ world' previous, Leads thread world (.run id listener .assumePrincipal :: rest) .go world'
        (.run id listener (.check previous) :: rest) .go ∧
      world'.IsAt id fragment thread stage := by
  let previous := world.principals thread
  let assumed := world.setPrincipal thread (some (world.executors id).fragment.identity.principal)
  have hassumed : assumed.IsAt id fragment thread stage := hat.setPrincipal _ _
  have hpasses (view : LockView) : (Frame.pause id pauseSite .reach).step assumed view thread .go =
      some (assumed, .reply (.answer (.flag false))) := by
    simp [Frame.step, stepPause, PauseControls.enter?, hassumed.executor.disarmed]
  have hfetches (view : LockView) :
      (Frame.run id listener (.fetchTree previous)).step assumed view thread .go =
        some (assumed, .goto (.run id listener (.check previous))) := by
    simp [Frame.step, stepRun, stepDrive, RunPoint.inSetup, RunPoint.inWindDown,
      RunPoint.holdsSetup, hassumed.executor.treeHeld.trans htree]
  exact ⟨assumed, previous, .call hat.exit rfl ((Leads.reply hassumed.exit (hpasses _)).trans
    (.goto hassumed.exit rfl (.goto hassumed.exit (hfetches _) .refl))), hassumed⟩

/-- One advance of the tree. -/
theorem Runs.advance {previous : Option Principal} (hquiet : fragment.script.IsQuiet)
    (hcontinues : stage.state.continues = true) :
    Runs fragment thread id stage (.run id listener (.check previous) :: rest) .go
      ({ stage with advances := stage.advances + 1 }.called [.next stage.advances])
      (.run id listener (.advancing previous) :: rest)
      ((fragment.script.planOf (.next stage.advances)).outcome.signal (.next stage.advances)) := by
  have hcalls : Runs fragment thread id stage (.run id listener (.check previous) :: rest) .go
      { stage with advances := stage.advances + 1 }
      (.call id (.next stage.advances) .enter :: .run id listener (.advancing previous) :: rest)
      .go := by
    refine .call fun world hat => ⟨world.modify id fun executor =>
      { executor with advances := executor.advances + 1 }, ?_, hat.modify _ fun hat =>
        { hat with advances := congrArg (· + 1) hat.advances }⟩
    simp [Frame.step, stepRun, stepDrive, RunPoint.inSetup, RunPoint.inWindDown,
      RunPoint.holdsSetup, hat.executor.state, hat.executor.advances, hcontinues]
  exact hcalls.trans (.collaborator _ (hquiet.next _) (by simp) (by simp))

/-- The tree is advanced as long as it asks for it. -/
theorem Runs.drive {previous : Option Principal} (hquiet : fragment.script.IsQuiet)
    (hcontinues : stage.state.continues = true) (count : Nat)
    (hmore : ∀ index < stage.advances + count, stage.advances ≤ index →
      (fragment.script.planOf (.next index)).outcome = .more)
    (hlast : (fragment.script.planOf (.next (stage.advances + count))).outcome ≠ .more) :
    Runs fragment thread id stage (.run id listener (.check previous) :: rest) .go
      ({ stage with advances := stage.advances + count + 1 }.called
        ((List.range' stage.advances (count + 1)).map .next))
      (.run id listener (.restorePrincipal previous
        (fragment.script.planOf (.next (stage.advances + count))).outcome.ending) :: rest) .go := by
  induction count generalizing stage with
  | zero =>
    refine (Runs.advance hquiet hcontinues).trans (.goto fun world hat => ⟨world, ?_, hat⟩)
    cases houtcome : (fragment.script.planOf (.next stage.advances)).outcome with
    | more => exact absurd houtcome hlast
    | park => exact absurd houtcome (hquiet.next _).ends
    | done | error | panic => rfl
  | succ count ih =>
    have hfirst := hmore stage.advances (by omega) (Nat.le_refl _)
    have hadvance : Runs fragment thread id stage (.run id listener (.check previous) :: rest) .go
        ({ stage with advances := stage.advances + 1 }.called [.next stage.advances])
        (.run id listener (.advancing previous) :: rest) (.replied (.progress true)) := by
      have hsignal : (fragment.script.planOf (.next stage.advances)).outcome.signal
          (.next stage.advances) = .replied (.progress true) := by rw [hfirst]; rfl
      rw [← hsignal]
      exact .advance hquiet hcontinues
    have hsum : stage.advances + (count + 1) = stage.advances + 1 + count := by omega
    rw [hsum] at hmore hlast ⊢
    have hrest := @ih ({ stage with advances := stage.advances + 1 }.called
      [.next stage.advances]) hcontinues (fun index hlt hle => hmore index hlt (Nat.le_of_succ_le hle))
        hlast
    have hcalls : { stage with advances := stage.advances + 1 + count + 1 }.called
          ((List.range' stage.advances (count + 1 + 1)).map .next) =
        { { stage with advances := stage.advances + 1 }.called [.next stage.advances] with
          advances := stage.advances + 1 + count + 1 }.called
            ((List.range' (stage.advances + 1) (count + 1)).map .next) := by
      simp [Stage.called, List.range'_succ]
    rw [hcalls]
    exact hadvance.trans (.trans (.goto fun world hat => ⟨world, rfl, hat⟩) hrest)

/-- The frames that a run has once driving the tree has ended. -/
def settling (id : ExecutorId) (listener : Option ListenerId) : Ending → List Frame
  | .completed => [.run id listener .finish]
  | .failed fault => [.run id listener (.settleFault fault)]
  | .panicked payload => [.fail id (panicFault payload) .append, .run id listener .recording]

theorem Runs.restore {previous : Option Principal} (ending : Ending) :
    Runs fragment thread id stage (.run id listener (.restorePrincipal previous ending) :: rest) .go
      stage (settling id listener ending ++ rest) .go := by
  cases ending with
  | completed | failed => exact .goto fun world hat => ⟨_, rfl, hat.setPrincipal _ _⟩
  | panicked => exact .call fun world hat => ⟨_, rfl, hat.setPrincipal _ _⟩

/-- What an ending makes of the stage: the fragment has finished, or its failure is recorded,
after the alarm for an exhausted heap. -/
def Stage.settled (stage : Stage) (ending : Ending) : Stage :=
  match ending.cause? with
  | none => stage.requested .finished
  | some cause => (stage.called (ending.alarm?.toList.map .exhausted)).failed cause

namespace Stage

variable {ending : Ending} {cause : Fault}

theorem settled_of_cause (stage : Stage) (hcause : ending.cause? = some cause)
    (halarm : ending.alarm? = none) : stage.settled ending = stage.failed cause := by
  simp [settled, hcause, halarm, called]

theorem settled_of_alarm (stage : Stage) (hcause : ending.cause? = some cause)
    {exhaustion : OutOfMemory} (halarm : ending.alarm? = some exhaustion) :
    stage.settled ending = (stage.called [.exhausted exhaustion]).failed cause := by
  simp [settled, hcause, halarm]

/-- A cause that comes after the end of the fragment leaves its state as it is. -/
theorem failed_of_over (stage : Stage) (cause : Fault)
    (hover : stage.state = .finished ∨ stage.state = .failed) :
    stage.failed cause = { stage with causes := stage.causes ++ [cause] } := by
  rcases hover with hover | hover <;> simp [failed, requested, hover] <;> rfl

end Stage

/-- The cause of an ending is recorded. -/
theorem Runs.record (cause : Fault) :
    Runs fragment thread id stage
      (.fail id cause .append :: .run id listener .recording :: rest) .go
      (stage.failed cause) (.run id listener .releaseWaiters :: rest) .go :=
  (Runs.fail cause).trans (.goto fun world hat => ⟨world, rfl, hat⟩)

/-- An ending is settled. -/
theorem Runs.settle (hquiet : fragment.script.IsQuiet) (ending : Ending)
    (hpolicy : ending.alarm? ≠ none → fragment.heapPolicy = .report) :
    Runs fragment thread id stage (settling id listener ending ++ rest) .go
      (stage.settled ending) (.run id listener .releaseWaiters :: rest) .go := by
  cases ending with
  | completed =>
    refine .goto fun world hat => ⟨(world.request id thread .finished).2, ?_, hat.request .finished⟩
    have hdecision := hat.fst_request .finished
    have hvalid := State.decide_finished_ne_invalid stage.state
    simp only [Frame.step, stepRun, stepDrive, RunPoint.inSetup, RunPoint.inWindDown,
      RunPoint.holdsSetup]
    generalize world.request id thread .finished = result at hdecision
    obtain ⟨decision, next⟩ := result
    obtain rfl : decision = _ := hdecision
    cases hdecide : stage.state.decide .finished with
    | invalid => exact absurd hdecide hvalid
    | accept | ignore => rfl
  | panicked payload =>
    rw [stage.settled_of_cause rfl rfl]
    exact .record _
  | failed fault =>
    cases hfault : fault.outOfMemory? with
    | none =>
      have hcause : (Ending.failed fault).cause? = some fault := by simp [Ending.cause?, hfault]
      rw [stage.settled_of_cause hcause (by simp [Ending.alarm?, hfault])]
      refine .trans (.call fun world hat => ⟨world, ?_, hat⟩) (.record fault)
      simp [Frame.step, stepRun, stepDrive, RunPoint.inSetup, RunPoint.inWindDown,
        RunPoint.holdsSetup, hfault]
    | some exhaustion =>
      have hcause : (Ending.failed fault).cause? = some (.execution (.memory exhaustion)) := by
        simp [Ending.cause?, hfault]
      cases hrecoverable : exhaustion.pool.isRecoverable with
      | true =>
        have halarm : (Ending.failed fault).alarm? = none := by
          simp [Ending.alarm?, hfault, Option.filter, hrecoverable]
        rw [stage.settled_of_cause hcause halarm]
        refine .trans (.call fun world hat => ⟨world, ?_, hat⟩) (.record _)
        simp [Frame.step, stepRun, stepDrive, RunPoint.inSetup, RunPoint.inWindDown,
          RunPoint.holdsSetup, hfault, hrecoverable]
      | false =>
        have halarm : (Ending.failed fault).alarm? = some exhaustion := by
          simp [Ending.alarm?, hfault, Option.filter, hrecoverable]
        rw [stage.settled_of_alarm hcause halarm]
        have halarms : Runs fragment thread id stage (.run id listener (.settleFault fault) :: rest)
            .go stage (.call id (.exhausted exhaustion) .enter ::
              .run id listener (.alarming exhaustion) :: rest) .go := by
          refine .call fun world hat => ⟨world, ?_, hat⟩
          simp [Frame.step, stepRun, stepDrive, RunPoint.inSetup, RunPoint.inWindDown,
            RunPoint.holdsSetup, hfault, hrecoverable]
        obtain ⟨reply, hreply⟩ := hquiet.exhausted.signal (.exhausted exhaustion)
        have hreturns : Runs fragment thread id stage
            (.call id (.exhausted exhaustion) .enter ::
              .run id listener (.alarming exhaustion) :: rest) .go
            (stage.called [.exhausted exhaustion])
            (.run id listener (.alarming exhaustion) :: rest) (.replied reply) := by
          rw [← hreply]
          exact .collaborator _ hquiet.exhausted.isQuiet (by simp)
            fun _ _ => hpolicy (by simp [halarm])
        refine (halarms.trans hreturns).trans ?_
        exact .trans (.call fun world hat => ⟨world, rfl, hat⟩) (.record _)

/-- The close of the resources leaves a terminal state as it is. -/
def Stage.closed (stage : Stage) (fragment : Fragment) : Stage :=
  { stage with
    treeHeld := false
    resourcesClosed := true
    contextClosed := true
    causes := stage.causes ++
      if stage.treeHeld then fragment.script.closeRoot.outcome.ending.closeCause?.toList else []
    calls := stage.calls ++
      if stage.treeHeld then [.closeRoot, .closeContext] else [.closeContext] }

/-- The tree is closed, and its failure recorded; the context is next. -/
theorem Runs.closeTree (hquiet : fragment.script.IsQuiet) (hheld : stage.treeHeld = true)
    (hover : stage.state = .finished ∨ stage.state = .failed) :
    Runs fragment thread id stage (.closeResources id .takeTree :: rest) .go
      { stage with
        treeHeld := false
        causes := stage.causes ++ fragment.script.closeRoot.outcome.ending.closeCause?.toList
        calls := stage.calls ++ [.closeRoot] }
      (.call id .closeContext .enter :: .closeResources id .closingContext :: rest) .go := by
  let taken : Stage := { stage with treeHeld := false }
  have htakes : Runs fragment thread id stage (.closeResources id .takeTree :: rest) .go taken
      (.call id .closeRoot .enter :: .closeResources id .closingRoot :: rest) .go := by
    refine .call fun world hat =>
      ⟨world.modify id fun executor => { executor with treeHeld := false }, ?_,
        hat.modify _ fun hat => { hat with treeHeld := rfl }⟩
    simp [Frame.step, stepClose, hat.executor.treeHeld, hheld]
  have hcloses : Runs fragment thread id taken
      (.call id .closeRoot .enter :: .closeResources id .closingRoot :: rest) .go
      (taken.called [.closeRoot]) (.closeResources id .closingRoot :: rest)
      (fragment.script.closeRoot.outcome.signal .closeRoot) :=
    .collaborator .closeRoot hquiet.closeRoot (by simp) (by simp)
  have hrecords (cause : Fault) : Runs fragment thread id (taken.called [.closeRoot])
      (.fail id cause .append :: .closeResources id .recording :: rest) .go
      { taken.called [.closeRoot] with causes := stage.causes ++ [cause] }
      (.call id .closeContext .enter :: .closeResources id .closingContext :: rest) .go := by
    have hfailed := (taken.called [.closeRoot]).failed_of_over cause hover
    rw [show stage.causes = (taken.called [.closeRoot]).causes from rfl, ← hfailed]
    exact .trans (.fail cause) (.call fun world hat => ⟨world, rfl, hat⟩)
  refine htakes.trans (hcloses.trans ?_)
  cases houtcome : fragment.script.closeRoot.outcome with
  | park => exact absurd houtcome hquiet.closeRoot.ends
  | more | done =>
    rw [show (_ ++ Option.toList _ : List Fault) = stage.causes from List.append_nil _]
    exact .call fun world hat => ⟨world, rfl, hat⟩
  | error fault =>
    exact .trans (.call fun world hat => ⟨world, rfl, hat⟩) (hrecords _)
  | panic payload =>
    exact .trans (.call fun world hat => ⟨world, rfl, hat⟩) (hrecords _)

/-- The context is closed, and the run comes to its conclusion. -/
theorem Runs.closeContextAndUnwatch (hquiet : fragment.script.IsQuiet)
    (hopen : stage.contextClosed = false) :
    Runs fragment thread id stage
      (.call id .closeContext .enter :: .closeResources id .closingContext ::
        .run id listener .closing :: rest) .go
      ({ stage with contextClosed := true }.called [.closeContext])
      (.run id listener .conclude :: rest) .go := by
  obtain ⟨reply, hreply⟩ := hquiet.others.closeContext.signal .closeContext
  have hcloses : Runs fragment thread id stage
      (.call id .closeContext .enter :: .closeResources id .closingContext ::
        .run id listener .closing :: rest) .go
      ({ stage with contextClosed := true }.called [.closeContext])
      (.closeResources id .closingContext :: .run id listener .closing :: rest)
      (.replied reply) := by
    rw [← hreply]
    exact .closeContext hquiet.others.closeContext.isQuiet hopen
  have hreturns : Runs fragment thread id ({ stage with contextClosed := true }.called
        [.closeContext])
      (.closeResources id .closingContext :: .run id listener .closing :: rest) (.replied reply)
      ({ stage with contextClosed := true }.called [.closeContext])
      (.run id listener .unwatch :: rest) .go :=
    .trans (.reply fun world hat => ⟨world, rfl, hat⟩) (.goto fun world hat => ⟨world, rfl, hat⟩)
  refine (hcloses.trans hreturns).trans ?_
  cases listener with
  | none => exact .goto fun world hat => ⟨world, rfl, hat⟩
  | some added => exact .goto fun world hat => ⟨_, rfl, ⟨hat.exit, hat.executor⟩⟩

/-- The resources are closed once what came of the run is settled. -/
theorem Runs.close (hquiet : fragment.script.IsQuiet) (hopen : stage.resourcesClosed = false)
    (hcontext : stage.contextClosed = false)
    (hover : stage.state = .finished ∨ stage.state = .failed)
    (hfree : rest.any (fun frame => frame.holds (.closing id)) = false) :
    Runs fragment thread id stage (.run id listener .releaseWaiters :: rest) .go
      (stage.closed fragment) (.run id listener .conclude :: rest) .go := by
  let begun : Stage := { stage with resourcesClosed := true }
  have hreleases : Runs fragment thread id stage (.run id listener .releaseWaiters :: rest) .go
      stage (.closeResources id .lockClosing :: .run id listener .closing :: rest) .go :=
    .call fun world hat => ⟨_, rfl, hat.modify
      (fun executor => { executor with gate := executor.gate.opened }) fun hat => { hat with }⟩
  have hbegins : Runs fragment thread id stage
      (.closeResources id .lockClosing :: .run id listener .closing :: rest) .go begun
      (.closeResources id .takeTree :: .run id listener .closing :: rest) .go := by
    refine .goto fun world hat =>
      ⟨world.modify id fun executor => { executor with resourcesClosed := true }, ?_,
        hat.modify _ fun hat => { hat with resourcesClosed := rfl }⟩
    simp [Frame.step, stepClose, closingHeld_lone id (.run id listener .closing :: rest) hfree,
      hat.executor.resourcesClosed, hopen]
  refine hreleases.trans (hbegins.trans ?_)
  cases hheld : stage.treeHeld with
  | true =>
    have htree : Runs fragment thread id begun
        (.closeResources id .takeTree :: .run id listener .closing :: rest) .go
        { begun with
          treeHeld := false
          causes := stage.causes ++ fragment.script.closeRoot.outcome.ending.closeCause?.toList
          calls := stage.calls ++ [.closeRoot] }
        (.call id .closeContext .enter :: .closeResources id .closingContext ::
          .run id listener .closing :: rest) .go :=
      .closeTree hquiet hheld hover
    simpa [begun, Stage.called, Stage.closed, hheld] using
      htree.trans (.closeContextAndUnwatch hquiet hcontext)
  | false =>
    have htakes : Runs fragment thread id begun
        (.closeResources id .takeTree :: .run id listener .closing :: rest) .go begun
        (.call id .closeContext .enter :: .closeResources id .closingContext ::
          .run id listener .closing :: rest) .go := by
      refine .call fun world hat => ⟨world, ?_, hat⟩
      simp [Frame.step, stepClose, hat.executor.treeHeld, begun, hheld]
    simpa [begun, Stage.called, Stage.closed, hheld] using
      htakes.trans (.closeContextAndUnwatch hquiet hcontext)

end Parts

end FragmentLifecycle
