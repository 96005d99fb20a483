import FragmentLifecycle.Proofs.EarlyCalls

/-!
# Stages of a run

A stage keeps what there is to know of an executor while it is run on a lone thread: its
state, its tree, what is closed, its causes and the calls made.  `Runs` tells that the
thread comes from one stage to another, whatever the world is like otherwise; it is put
together from single steps and from calls on collaborators that come to their ends
(`Runs.collaborator`, `Runs.closeContext`, `Runs.fail`).
-/

namespace FragmentLifecycle

/-- What there is to know of an executor during its run. -/
structure Stage where
  state : State := .awaitingAllocation
  treeHeld : Bool := false
  advances : Nat := 0
  resourcesClosed : Bool := false
  contextClosed : Bool := false
  causes : List Fault := []
  calls : List Call := []

namespace Stage

def called (stage : Stage) (calls : List Call) : Stage :=
  { stage with calls := stage.calls ++ calls }

def requested (stage : Stage) (target : State) : Stage :=
  { stage with state := (stage.state.decide target).apply stage.state }

/-- A cause is recorded, which asks for the failed state. -/
def failed (stage : Stage) (cause : Fault) : Stage :=
  { stage.requested .failed with causes := stage.causes ++ [cause] }

end Stage

/-- An executor at a stage of its run on a thread. -/
structure Executor.IsAt (executor : Executor) (fragment : Fragment) (thread : ThreadId)
    (stage : Stage) : Prop where
  fragment : executor.fragment = fragment
  state : executor.state = stage.state
  treeHeld : executor.treeHeld = stage.treeHeld
  advances : executor.advances = stage.advances
  resourcesClosed : executor.resourcesClosed = stage.resourcesClosed
  contextClosed : executor.context.closed = stage.contextClosed
  disarmed : executor.controls.armed = []
  causes : executor.lifecycle.failures.pending = stage.causes
  calls : callsMade executor.journal = stage.calls.map (Prod.mk thread)

namespace Executor.IsAt

variable {executor : Executor} {fragment : Fragment} {thread : ThreadId} {stage : Stage}

theorem ofFragment (fragment : Fragment) (thread : ThreadId) :
    (Executor.ofFragment fragment).IsAt fragment thread {} :=
  ⟨rfl, rfl, rfl, rfl, rfl, rfl, rfl, rfl, rfl⟩

/-- Statistics and records leave the stage as it is, but for the calls that were made. -/
theorem noted (hat : executor.IsAt fragment thread stage) (stats : List (String × Json.Value))
    {records : List Record} {calls : List Call}
    (hrecords : callsMade records = calls.map (Prod.mk thread)) :
    (executor.noted stats records).IsAt fragment thread (stage.called calls) where
  fragment := hat.fragment
  state := hat.state
  treeHeld := hat.treeHeld
  advances := hat.advances
  resourcesClosed := hat.resourcesClosed
  contextClosed := hat.contextClosed
  disarmed := hat.disarmed
  causes := hat.causes
  calls := by
    rw [Stage.called, List.map_append, ← hat.calls, ← hrecords]
    exact callsMade_append _ _

theorem requested (hat : executor.IsAt fragment thread stage) (target : State) :
    (executor.request thread target).2.IsAt fragment thread (stage.requested target) where
  fragment := hat.fragment
  state := by rw [Executor.state_request, hat.state, Stage.requested]
  treeHeld := hat.treeHeld
  advances := hat.advances
  resourcesClosed := hat.resourcesClosed
  contextClosed := hat.contextClosed
  disarmed := hat.disarmed
  causes := hat.causes
  calls := by
    rw [Executor.journal_request, callsMade_append, hat.calls]
    exact List.append_nil _

theorem failed (hat : executor.IsAt fragment thread stage) (cause : Fault) :
    ((executor.append thread cause).request thread .failed).2.IsAt fragment thread
      (stage.failed cause) where
  fragment := hat.fragment
  state := by
    rw [Executor.state_request, Executor.state_append, hat.state]
    rfl
  treeHeld := hat.treeHeld
  advances := hat.advances
  resourcesClosed := hat.resourcesClosed
  contextClosed := hat.contextClosed
  disarmed := hat.disarmed
  causes := by
    rw [Executor.failures_request, Executor.failures_append, Collector.append, hat.causes]
    rfl
  calls := by
    rw [Executor.journal_request, Executor.journal_append, callsMade_append, callsMade_append,
      hat.calls]
    exact (List.append_nil _).trans (List.append_nil _)

theorem closedContext (hat : executor.IsAt fragment thread stage) :
    executor.contextClosed.IsAt fragment thread { stage with contextClosed := true } :=
  { hat with contextClosed := rfl, disarmed := rfl }

end Executor.IsAt

/-- The process goes on, and an executor is at a stage of its run. -/
structure World.IsAt (world : World) (id : ExecutorId) (fragment : Fragment) (thread : ThreadId)
    (stage : Stage) : Prop where
  exit : world.exit = none
  executor : (world.executors id).IsAt fragment thread stage

section Stages

variable {fragment : Fragment} {thread : ThreadId} {id : ExecutorId}
  {stage middle stage' : Stage} {frame : Frame} {rest frames passed frames' : List Frame}
  {signal given signal' : Signal}

namespace World.IsAt

variable {world world' : World}

theorem modify (hat : world.IsAt id fragment thread stage) (change : Executor → Executor)
    (hchange : (world.executors id).IsAt fragment thread stage →
      (change (world.executors id)).IsAt fragment thread stage') :
    (world.modify id change).IsAt id fragment thread stage' where
  exit := hat.exit
  executor := by
    rw [World.executors_modify, if_pos rfl]
    exact hchange hat.executor

theorem note (hat : world.IsAt id fragment thread stage) (notice : Notice) :
    (world.note notice).IsAt id fragment thread stage :=
  ⟨hat.exit, hat.executor⟩

theorem setPrincipal (hat : world.IsAt id fragment thread stage) (owner : ThreadId)
    (principal : Option Principal) :
    (world.setPrincipal owner principal).IsAt id fragment thread stage :=
  ⟨hat.exit, hat.executor⟩

theorem request (hat : world.IsAt id fragment thread stage) (target : State) :
    (world.request id thread target).2.IsAt id fragment thread (stage.requested target) where
  exit := (World.exit_snd_request world id thread target).trans hat.exit
  executor := by
    rw [World.executors_snd_request, if_pos rfl]
    exact hat.executor.requested target

theorem fst_request (hat : world.IsAt id fragment thread stage) (target : State) :
    (world.request id thread target).1 = stage.state.decide target := by
  rw [World.fst_request, hat.executor.state]

end World.IsAt

variable (fragment thread id) in
/-- A lone thread comes from a stage of the run to another one. -/
def Runs (stage : Stage) (frames : List Frame) (signal : Signal)
    (stage' : Stage) (frames' : List Frame) (signal' : Signal) : Prop :=
  ∀ world : World, world.IsAt id fragment thread stage →
    ∃ world', Leads thread world frames signal world' frames' signal' ∧
      world'.IsAt id fragment thread stage'

namespace Runs

theorem refl : Runs fragment thread id stage frames signal stage frames signal :=
  fun world hat => ⟨world, .refl, hat⟩

theorem trans (hfirst : Runs fragment thread id stage frames signal middle passed given)
    (hsecond : Runs fragment thread id middle passed given stage' frames' signal') :
    Runs fragment thread id stage frames signal stage' frames' signal' := by
  intro world hat
  obtain ⟨between, hleads, hbetween⟩ := hfirst world hat
  obtain ⟨world', hleads', hat'⟩ := hsecond between hbetween
  exact ⟨world', hleads.trans hleads', hat'⟩

theorem goto {resumed : Frame}
    (hstep : ∀ world : World, world.IsAt id fragment thread stage →
      ∃ world', frame.step world (.lone (frame :: rest)) thread signal =
          some (world', .goto resumed) ∧ world'.IsAt id fragment thread stage') :
    Runs fragment thread id stage (frame :: rest) signal stage' (resumed :: rest) .go := by
  intro world hat
  obtain ⟨world', htaken, hat'⟩ := hstep world hat
  exact ⟨world', .goto hat.exit htaken .refl, hat'⟩

theorem call {resumed callee : Frame}
    (hstep : ∀ world : World, world.IsAt id fragment thread stage →
      ∃ world', frame.step world (.lone (frame :: rest)) thread signal =
          some (world', .call resumed callee) ∧ world'.IsAt id fragment thread stage') :
    Runs fragment thread id stage (frame :: rest) signal stage' (callee :: resumed :: rest) .go := by
  intro world hat
  obtain ⟨world', htaken, hat'⟩ := hstep world hat
  exact ⟨world', .call hat.exit htaken .refl, hat'⟩

theorem reply {answer : Reply}
    (hstep : ∀ world : World, world.IsAt id fragment thread stage →
      ∃ world', frame.step world (.lone (frame :: rest)) thread signal =
          some (world', .reply answer) ∧ world'.IsAt id fragment thread stage') :
    Runs fragment thread id stage (frame :: rest) signal stage' rest (.replied answer) := by
  intro world hat
  obtain ⟨world', htaken, hat'⟩ := hstep world hat
  exact ⟨world', .reply hat.exit htaken, hat'⟩

/-- A collaborator is called and comes to its end. -/
theorem collaborator (call : Call) (hquiet : (fragment.script.planOf call).IsQuiet)
    (hcall : call ≠ .closeContext)
    (hpolicy : ∀ exhaustion, call = .exhausted exhaustion → fragment.heapPolicy = .report) :
    Runs fragment thread id stage (.call id call .enter :: rest) .go (stage.called [call]) rest
      ((fragment.script.planOf call).outcome.signal call) := by
  intro world hat
  obtain rfl := hat.executor.fragment
  obtain ⟨world', stats, records, hleads, hexit, hexecutor, hmade⟩ :=
    leads_call thread id rest call hat.exit hquiet hcall hpolicy
  refine ⟨world', hleads, hexit, ?_⟩
  rw [hexecutor]
  exact hat.executor.noted stats hmade

/-- The context is closed for the first time. -/
theorem closeContext (hquiet : fragment.script.closeContext.IsQuiet)
    (hopen : stage.contextClosed = false) :
    Runs fragment thread id stage (.call id .closeContext .enter :: rest) .go
      ({ stage with contextClosed := true }.called [.closeContext]) rest
      (fragment.script.closeContext.outcome.signal .closeContext) := by
  intro world hat
  obtain rfl := hat.executor.fragment
  obtain ⟨world', stats, records, hleads, hexit, hexecutor, hmade⟩ :=
    leads_closeContext thread id rest hat.exit hquiet (hat.executor.contextClosed.trans hopen)
  refine ⟨world', hleads, hexit, ?_⟩
  rw [hexecutor]
  exact hat.executor.closedContext.noted stats hmade

/-- A cause is recorded. -/
theorem fail (cause : Fault) :
    Runs fragment thread id stage (.fail id cause .append :: rest) .go (stage.failed cause) rest
      (.replied (.answer .none)) := by
  intro world hat
  obtain ⟨world', hleads, hexit, hexecutor⟩ := leads_fail thread id rest hat.exit cause
  refine ⟨world', hleads, hexit, ?_⟩
  rw [hexecutor]
  exact hat.executor.failed cause

end Runs

end Stages

end FragmentLifecycle
