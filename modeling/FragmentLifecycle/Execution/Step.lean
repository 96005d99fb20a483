import FragmentLifecycle.Execution.Frame

/-!
# Steps of frames

One step of a frame is one section under a lock, one call, or one wake-up.  A frame
that cannot go on has no step: it waits for a lock, for the gate, for a park token,
for the end of a pause, for a slot, or for the table of fragments to become empty.
-/

namespace FragmentLifecycle

/-- The locks as one thread finds them.  The setup lock may be taken again by the
thread that holds it; the closing lock may not. -/
structure LockView where
  setupHeldElsewhere : ExecutorId → Bool
  closingHeld : ExecutorId → Bool

/-- The effect of a step on the stack of its thread. -/
inductive Next where
  | goto (frame : Frame)
  | call (frame callee : Frame)
  | reply (reply : Reply)
  | raise (payload : Payload)
  | fork (reply : Reply) (frame : Frame) (hosts : ExecutorId)

def Next.done : Next := .reply (.answer .none)

abbrev Stepped := Option (World × Next)

def pauseSite : String := "fragment-execution"

def closeFailureText : String := "Failed to close operator tree"

def substituteCause : Fault := .message "Fragment failed without a recorded cause"

def panicFault (payload : Payload) : Fault :=
  .execution (.panicked payload.message)

/-! ## Run -/

/-- The run from its start to the end of setup. -/
def stepSetup (world : World) (view : LockView) (thread : ThreadId) (id : ExecutorId)
    (listener : Option ListenerId) : RunPoint → Signal → Stepped
  | .start, .go =>
      match (world.executors id).course with
      | .notStarted =>
          some (world.modify id fun executor => { executor with course := .underWay thread },
            .goto (.run id listener .enrol))
      | _ => some (world.note (.alreadyRan (world.executors id).handle), .done)
  | .enrol, .go =>
      some (world.modify id fun executor => { executor with worker := some thread },
        .goto (.run id listener .lockSetup))
  | .lockSetup, .go =>
      if view.setupHeldElsewhere id then none
      else some (world, .goto (.run id listener .inspect))
  | .inspect, .go =>
      if (world.executors id).state.continues then
        some (world, .call (.run id listener .building) (.call id .build .enter))
      else some (world, .goto (.run id listener .assumePrincipal))
  | .building, .replied (.failed fault) =>
      some (world, .goto (.run id listener (.settleFault fault)))
  | .building, .replied _ => some (world, .goto (.run id listener .keepTree))
  | .building, .raised payload =>
      some (world, .call (.run id listener .recording) (.fail id (panicFault payload) .append))
  | .keepTree, .go =>
      some (world.modify id fun executor => { executor with treeHeld := true },
        .goto (.run id listener .watch))
  | .watch, .go =>
      let foreman := (world.executors id).fragment.identity.foreman
      let (added, registry) := world.registry.add ⟨id, foreman⟩
      some ({ world with registry }, .goto (.run id (some added) .announce))
  | .announce, .go =>
      let current := (world.executors id).state
      match world.request id thread .running with
      | (.accept state true, next) =>
          some (next, .call (.run id listener .announcing) (.call id (.stateChanged state) .enter))
      | (.invalid, next) =>
          some (next, .goto
            (.run id listener (.settleFault (.execution (.invalidTransition current .running)))))
      | (_, next) => some (next, .goto (.run id listener .openGate))
  | .announcing, .replied _ => some (world, .goto (.run id listener .openGate))
  | .announcing, .raised payload =>
      some (world, .call (.run id listener .recording) (.fail id (panicFault payload) .append))
  | .openGate, .go =>
      let executor := world.executors id
      some
        ((world.modify id fun executor => { executor with gate := executor.gate.opened }).note
          (.starting executor.handle executor.fragment.identity.endpoint),
          .goto (.run id listener .assumePrincipal))
  | _, _ => none

/-- The run from the end of setup until driving the tree has ended. -/
def stepDrive (world : World) (thread : ThreadId) (id : ExecutorId)
    (listener : Option ListenerId) : RunPoint → Signal → Stepped
  | .assumePrincipal, .go =>
      let principal := (world.executors id).fragment.identity.principal
      some (world.setPrincipal thread (some principal),
        .call (.run id listener (.pausing (world.principals thread))) (.pause id pauseSite .reach))
  | .pausing previous, .replied _ => some (world, .goto (.run id listener (.fetchTree previous)))
  | .pausing previous, .raised payload =>
      some (world, .goto (.run id listener (.restorePrincipal previous (.panicked payload))))
  | .fetchTree previous, .go =>
      if (world.executors id).treeHeld then
        some (world, .goto (.run id listener (.check previous)))
      else some (world, .goto (.run id listener (.restorePrincipal previous .completed)))
  | .check previous, .go =>
      let executor := world.executors id
      if executor.state.continues then
        some (world.modify id fun executor => { executor with advances := executor.advances + 1 },
          .call (.run id listener (.advancing previous)) (.call id (.next executor.advances) .enter))
      else some (world, .goto (.run id listener (.restorePrincipal previous .completed)))
  | .advancing previous, .replied (.failed fault) =>
      some (world, .goto (.run id listener (.restorePrincipal previous (.failed fault))))
  | .advancing previous, .replied (.progress false) =>
      some (world, .goto (.run id listener (.restorePrincipal previous .completed)))
  | .advancing previous, .replied _ => some (world, .goto (.run id listener (.check previous)))
  | .advancing previous, .raised payload =>
      some (world, .goto (.run id listener (.restorePrincipal previous (.panicked payload))))
  | .restorePrincipal previous ending, .go =>
      let restored := world.setPrincipal thread previous
      match ending with
      | .completed => some (restored, .goto (.run id listener .finish))
      | .failed fault => some (restored, .goto (.run id listener (.settleFault fault)))
      | .panicked payload =>
          some (restored,
            .call (.run id listener .recording) (.fail id (panicFault payload) .append))
  | .finish, .go =>
      let current := (world.executors id).state
      match world.request id thread .finished with
      | (.invalid, next) =>
          some (next, .goto
            (.run id listener (.settleFault (.execution (.invalidTransition current .finished)))))
      | (_, next) => some (next, .goto (.run id listener .releaseWaiters))
  | .settleFault fault, .go =>
      match fault.outOfMemory? with
      | none => some (world, .call (.run id listener .recording) (.fail id fault .append))
      | some exhaustion =>
          if exhaustion.pool.isRecoverable then
            some (world, .call (.run id listener .recording)
              (.fail id (.execution (.memory exhaustion)) .append))
          else
            some (world, .call (.run id listener (.alarming exhaustion))
              (.call id (.exhausted exhaustion) .enter))
  | .alarming exhaustion, .replied _ =>
      some (world, .call (.run id listener .recording)
        (.fail id (.execution (.memory exhaustion)) .append))
  | .alarming _, .raised payload =>
      some (world.modify id fun executor => { executor with course := .unwound thread },
        .raise payload)
  | _, _ => none

/-- The run from the end of driving to its own end. -/
def stepWindDown (world : World) (thread : ThreadId) (id : ExecutorId)
    (listener : Option ListenerId) : RunPoint → Signal → Stepped
  | .recording, .replied _ => some (world, .goto (.run id listener .releaseWaiters))
  | .releaseWaiters, .go =>
      some (world.modify id fun executor => { executor with gate := executor.gate.opened },
        .call (.run id listener .closing) (.closeResources id .lockClosing))
  | .closing, .replied _ => some (world, .goto (.run id listener .unwatch))
  | .closing, .raised payload =>
      some (world.modify id fun executor => { executor with course := .unwound thread },
        .raise payload)
  | .unwatch, .go =>
      match listener with
      | none => some (world, .goto (.run id listener .conclude))
      | some added =>
          some ({ world with registry := (world.registry.remove added).2 },
            .goto (.run id listener .conclude))
  | .conclude, .go =>
      let executor := world.executors id
      let concluded := world.record id thread (.concluded executor.state)
      if executor.state = .failed then some (concluded, .goto (.run id listener .ensureCause))
      else
        some (concluded.note (.completed executor.handle executor.state),
          .call (.run id listener .reporting) (.call id (.stateChanged executor.state) .enter))
  | .ensureCause, .go =>
      if (world.executors id).lifecycle.failures.isEmpty then
        some
          (world.modify id fun executor => executor.append thread substituteCause,
            .goto (.run id listener .drain))
      else some (world, .goto (.run id listener .drain))
  | .drain, .go =>
      let executor := world.executors id
      match executor.lifecycle.drain with
      | (none, _) => some (world, .goto (.run id listener .retire))
      | (some causes, lifecycle) =>
          some
            (((world.modify id fun executor => { executor with lifecycle }).record id thread
              (.drained causes)).note (.failed executor.handle causes.text),
              .call (.run id listener .reporting)
                (.call id (.fail (executor.failureReport causes)) .enter))
  | .reporting, .replied _ => some (world, .goto (.run id listener .retire))
  | .reporting, .raised payload =>
      some (world.modify id fun executor => { executor with course := .unwound thread },
        .raise payload)
  | .retire, .go =>
      some (world.modify id fun executor =>
          { executor with worker := none, course := .ended thread }, .done)
  | _, _ => none

def RunPoint.inSetup : RunPoint → Bool
  | .start | .enrol | .lockSetup => true
  | point => point.holdsSetup

def RunPoint.inWindDown : RunPoint → Bool
  | .recording | .releaseWaiters | .closing | .unwatch | .conclude | .ensureCause | .drain
  | .reporting | .retire => true
  | _ => false

def stepRun (world : World) (view : LockView) (thread : ThreadId) (id : ExecutorId)
    (listener : Option ListenerId) (point : RunPoint) (signal : Signal) : Stepped :=
  if point.inSetup then stepSetup world view thread id listener point signal
  else if point.inWindDown then stepWindDown world thread id listener point signal
  else stepDrive world thread id listener point signal

/-! ## Cancel -/

def stepCancel (world : World) (view : LockView) (thread : ThreadId) (id : ExecutorId) :
    CancelPoint → Signal → Stepped
  | .lockSetup, .go =>
      if view.setupHeldElsewhere id then none else some (world, .goto (.cancel id .inspect))
  | .inspect, .go =>
      if (world.executors id).treeHeld then some (world, .goto (.cancel id .waitGate))
      else some (world, .call (.cancel id .closing) (.closeResources id .lockClosing))
  | .closing, .replied _ => some (world, .goto (.cancel id .request))
  | .closing, .raised payload => some (world, .raise payload)
  | .waitGate, .go =>
      if (world.executors id).gate.isOpen then some (world, .goto (.cancel id .request)) else none
  | .request, .go =>
      match world.request id thread .cancellationRequested with
      | (.accept state true, next) =>
          some (next, .call (.cancel id .announcing) (.call id (.stateChanged state) .enter))
      | (_, next) => some (next, .goto (.cancel id .wake))
  | .announcing, .replied _ => some (world, .goto (.cancel id .wake))
  | .announcing, .raised payload => some (world, .raise payload)
  | .wake, .go => some (world.wakeWorker id, .done)
  | _, _ => none

/-! ## Closing -/

/-- The tree is closed, then the context.  The first caller does it; any other
returns after the section has been left. -/
def stepClose (world : World) (view : LockView) (id : ExecutorId) :
    ClosePoint → Signal → Stepped
  | .lockClosing, .go =>
      if view.closingHeld id then none
      else if (world.executors id).resourcesClosed then some (world, .done)
      else
        some (world.modify id fun executor => { executor with resourcesClosed := true },
          .goto (.closeResources id .takeTree))
  | .takeTree, .go =>
      if (world.executors id).treeHeld then
        some (world.modify id fun executor => { executor with treeHeld := false },
          .call (.closeResources id .closingRoot) (.call id .closeRoot .enter))
      else some (world, .call (.closeResources id .closingContext) (.call id .closeContext .enter))
  | .closingRoot, .replied (.failed fault) =>
      some (world, .call (.closeResources id .recording)
        (.fail id (.within (.text closeFailureText) fault) .append))
  | .closingRoot, .replied _ =>
      some (world, .call (.closeResources id .closingContext) (.call id .closeContext .enter))
  | .closingRoot, .raised payload =>
      some (world, .call (.closeResources id .recording) (.fail id (panicFault payload) .append))
  | .recording, .replied _ =>
      some (world, .call (.closeResources id .closingContext) (.call id .closeContext .enter))
  | .closingContext, .replied _ => some (world, .done)
  | .closingContext, .raised payload => some (world, .raise payload)
  | _, _ => none

/-! ## Failures -/

def stepFail (world : World) (thread : ThreadId) (id : ExecutorId) (cause : Fault) :
    FailPoint → Signal → Stepped
  | .append, .go =>
      some
        ((world.modify id fun executor => executor.append thread cause).note
          (.recording (world.executors id).handle cause.text),
          .goto (.fail id cause .request))
  | .request, .go => some ((world.request id thread .failed).2, .done)
  | _, _ => none

/-! ## Calls on collaborators -/

/-- Reports, the close of a context and the alarm of an exhausted heap have no
outcome but a panic. -/
def Call.replyTo (call : Call) (reply : Reply) : Reply :=
  match call with
  | .build | .next _ | .closeRoot => reply
  | _ => .answer .none

/-- The end of a plan whose actions have been played. -/
def stepOutcome (world : World) (thread : ThreadId) (id : ExecutorId) (call : Call) :
    Outcome → World × Next
  | .more =>
      (world.record id thread (.left call false), .reply (call.replyTo (.progress true)))
  | .done =>
      (world.record id thread (.left call false), .reply (call.replyTo (.progress false)))
  | .error fault =>
      (world.record id thread (.left call false), .reply (call.replyTo (.failed fault)))
  | .panic payload => (world.record id thread (.left call true), .raise payload)
  | .park => (world, .goto (.call id call .parking))

/-- What the process writes and how it exits when its heap is exhausted. -/
def heapExit (code : Int) (exhaustion : OutOfMemory) : ProcessExit :=
  ⟨code, "Node ran out of heap memory, exiting.\n" ++ exhaustion.text ++ "\n"⟩

def stepEnter (world : World) (thread : ThreadId) (id : ExecutorId) (call : Call) : World × Next :=
  let fragment := (world.executors id).fragment
  let entered := world.record id thread (.entered call)
  match call, fragment.heapPolicy with
  | .closeContext, _ => (entered, .goto (.call id call .markClosed))
  | .exhausted exhaustion, .exit code =>
      ({ world.note (.heapExhausted exhaustion.text) with
          exit := some (heapExit code exhaustion) },
        .goto (.call id call .enter))
  | _, _ => (entered, .goto (.call id call (.play (fragment.script.planOf call).actions)))

def stepCall (world : World) (thread : ThreadId) (id : ExecutorId) (call : Call) :
    CallPoint → Signal → Stepped
  | .enter, .go => some (stepEnter world thread id call)
  | .markClosed, .go =>
      let executor := world.executors id
      let play := CallPoint.play (executor.fragment.script.planOf call).actions
      if executor.context.closed then
        some (world.note (.contextAlreadyClosed executor.handle), .goto (.call id call play))
      else
        some (world.modify id fun executor =>
            { executor with context := executor.context.markClosed },
          .goto (.call id call .detach))
  | .detach, .go =>
      some (world.modify id fun executor => { executor with context := executor.context.detach },
        .goto (.call id call .resumeAll))
  | .resumeAll, .go =>
      let executor := world.executors id
      some
        ((world.modify id fun executor =>
          { executor with controls := executor.controls.unpauseAll }).note
          (.contextClosed executor.handle),
          .goto (.call id call (.play (executor.fragment.script.planOf call).actions)))
  | .play [], .go =>
      some (stepOutcome world thread id call
        ((world.executors id).fragment.script.planOf call).outcome)
  | .play (action :: rest), .go =>
      some (world, .call (.call id call (.acting action rest)) (.perform id action .start))
  | .acting action rest, .replied (.answer answer) =>
      some (world.record id thread (.acted action answer), .goto (.call id call (.play rest)))
  | .acting _ _, .raised payload =>
      some (world.record id thread (.left call true), .raise payload)
  | .parking, .go =>
      if (world.executors id).state.continues then some (world, .goto (.call id call .parked))
      else
        some (world.record id thread (.left call false), .reply (call.replyTo (.progress true)))
  | .parked, .go =>
      if world.tokens thread then
        some (world.setToken thread false, .goto (.call id call .parking))
      else none
  | _, _ => none

/-! ## Pauses, early termination, departures -/

def stepPause (world : World) (id : ExecutorId) (site : String) : PausePoint → Signal → Stepped
  | .reach, .go =>
      match (world.executors id).controls.enter? site with
      | none => some (world, .reply (.answer (.flag false)))
      | some (generation, controls) =>
          some ((world.modify id fun executor => { executor with controls }).note (.pausing site),
            .goto (.pause id site (.paused generation)))
  | .paused generation, .go =>
      if (world.executors id).controls.isOver generation then
        some
          ((world.modify id fun executor =>
            { executor with controls := executor.controls.leave }).note (.resuming site),
            .reply (.answer (.flag true)))
      else none
  | _, _ => none

def stepFinished (world : World) (thread : ThreadId) (id : ExecutorId) (receiver : Handle) :
    FinishedPoint → Signal → Stepped
  | .waitGate, .go =>
      if (world.executors id).gate.isOpen then
        some (world, .goto (.finished id receiver .fetchTree))
      else none
  | .fetchTree, .go =>
      if (world.executors id).treeHeld then some (world, .goto (.finished id receiver .forward))
      else some (world, .goto (.finished id receiver .drop))
  | .forward, .go =>
      some
        ((world.record id thread (.forwarded receiver)).note
          (.forwarding (world.executors id).handle receiver), .done)
  | .drop, .go => some (world.note (.dropping (world.executors id).handle receiver), .done)
  | _, _ => none

def stepDepart (world : World) (nodes : NodeSet) : DepartPoint → Signal → Stepped
  | .start, .go => some (world.note (.nodesDeparted nodes.length), .goto (.depart nodes .snapshot))
  | .snapshot, .go => some (world, .goto (.depart nodes (.walk world.registry.snapshot)))
  | .walk [], .go => some (world, .done)
  | .walk (watch :: rest), .go =>
      let executor := world.executors watch.executor
      if watch.foreman ∈ nodes ∧ executor.released = false then
        some (world.note (.foremanDeparted watch.foreman executor.handle),
          .call (.depart nodes (.cancelling rest)) (.cancel watch.executor .lockSetup))
      else some (world, .goto (.depart nodes (.walk rest)))
  | .cancelling rest, .replied _ => some (world, .goto (.depart nodes (.walk rest)))
  | .cancelling _, .raised payload => some (world, .raise payload)
  | _, _ => none

/-! ## Actions -/

/-- Start an action: a call on an entry point, or an answer at once. -/
def startAction (world : World) (thread : ThreadId) (id : ExecutorId) (action : Action) :
    World × Next :=
  let executor := world.executors id
  let waiting := Frame.perform id action .waiting
  let answer (value : Answer) : World × Next := (world, .reply (.answer value))
  match action with
  | .run => (world, .call waiting (.run id none .start))
  | .cancel => (world, .call waiting (.cancel id .lockSetup))
  | .unpause =>
      (world.modify id fun executor =>
        { executor with controls := executor.controls.unpauseAll }, .done)
  | .closeContext => (world, .call waiting (.call id .closeContext .enter))
  | .finished receiver => (world, .call waiting (.finished id receiver .waitGate))
  | .status =>
      if executor.state = .running then (world, .goto (.perform id action .readStats))
      else answer (.status none)
  | .display => answer (.text executor.text)
  | .fail cause =>
      if executor.context.sinkInstalled then (world, .call waiting (.fail id cause .append))
      else answer .noSink
  | .heldFail cause => (world, .call waiting (.fail id cause .append))
  | .sink =>
      answer (.sink executor.state.continues (executor.state = .failed)
        executor.lifecycle.failures.primary?)
  | .principal => answer (.principal (world.principals thread))
  | .scoped body =>
      let run := Scope.runAll (world.principals thread) body
      let after := world.setPrincipal thread run.principal
      match run.ending with
      | .returned => (after, .reply (.answer (.observed run.observed)))
      | .panicked message => (after, .raise (.text message))
  | .arm site =>
      (world.modify id fun executor => { executor with controls := executor.controls.arm site },
        .done)
  | .pause site => (world, .call waiting (.pause id site .reach))
  | .recordStat key value =>
      (world.modify id fun executor =>
        { executor with context := executor.context.recordStat key value }, .done)
  | .depart nodes => (world, .call waiting (.depart nodes .start))
  | .register _ => (world, .done)
  | .listeners => answer (.count world.registry.count)

/-- What an action answers when the entry point it called has replied. -/
def Action.answerTo : Action → Reply → Answer
  | .fail _, _ => .recorded
  | .heldFail _, _ => .recorded
  | .pause _, .answer answer => answer
  | _, _ => .none

def stepPerform (world : World) (thread : ThreadId) (id : ExecutorId) (action : Action) :
    PerformPoint → Signal → Stepped
  | .start, .go => some (startAction world thread id action)
  | .readStats, .go =>
      let executor := world.executors id
      some (world,
        .reply (.answer (.status
          (some (executor.handle, .running, executor.context.statsValue)))))
  | .waiting, .replied reply => some (world, .reply (.answer (action.answerTo reply)))
  | .waiting, .raised payload => some (world, .raise payload)
  | _, _ => none

/-! ## Hosting -/

def alreadyRunning (handle : Handle) : Fault :=
  .message ("Fragment " ++ handle.text ++ " is already running")

/-- Start a fragment on a thread of its own.  The thread takes over the slot; where
the system refuses the thread, the slot is free again at once. -/
def stepStart (world : World) (thread : ThreadId) (id : ExecutorId) (refusal : Option String) :
    StartPoint → Signal → Stepped
  | .requestSlot, .go =>
      some (world.setHost { world.host with slots := world.host.slots.request thread },
        .goto (.start id refusal .awaitSlot))
  | .awaitSlot, .go =>
      (world.host.slots.take? thread).map fun slots =>
        (world.setHost { world.host with slots }, .goto (.start id refusal .register))
  | .register, .go =>
      let handle := (world.executors id).handle
      match world.host.executor? handle with
      | some _ => some (world, .goto (.start id refusal .reject))
      | none =>
          some ((world.setHost (world.host.insert handle id)).note (.startingThread handle),
            .goto (.start id refusal .spawn))
  | .reject, .go =>
      some (world.setHost { world.host with slots := world.host.slots.release },
        .reply (.answer (.refused (alreadyRunning (world.executors id).handle))))
  | .spawn, .go =>
      let handle := (world.executors id).handle
      match refusal with
      | none =>
          some (world, .fork (.answer .started) (.hosted id handle .start) id)
      | some reason =>
          some
            ((world.setHost { world.host with slots := world.host.slots.release }).note
              (.spawnFailed handle reason),
              .goto (.start id refusal .withdraw))
  | .withdraw, .go =>
      some (world.setHost (world.host.remove (world.executors id).handle),
        .call (.start id refusal .cancelling) (.cancel id .lockSetup))
  | .cancelling, .replied _ =>
      some (world, .reply (.answer (.refused (.execution (.spawn (refusal.getD ""))))))
  | .cancelling, .raised payload => some (world, .raise payload)
  | _, _ => none

/-- A thread that runs a hosted fragment.  A panic that leaves the run gives the slot
back and leaves the entry in the table. -/
def stepHosted (world : World) (id : ExecutorId) (handle : Handle) :
    HostedPoint → Signal → Stepped
  | .start, .go => some (world, .call (.hosted id handle .running) (.run id none .start))
  | .running, .replied _ => some (world, .goto (.hosted id handle .deregister))
  | .running, .raised payload => some (world, .goto (.hosted id handle (.releaseUnwound payload)))
  | .deregister, .go =>
      some (world.setHost (world.host.deregister handle), .goto (.hosted id handle .releaseSlot))
  | .releaseSlot, .go =>
      some (world.setHost { world.host with slots := world.host.slots.release }, .done)
  | .releaseUnwound payload, .go =>
      some (world.setHost { world.host with slots := world.host.slots.release }, .raise payload)
  | _, _ => none

/-- Look up the addressed fragment and call its entry point. -/
def startHostCall (world : World) (call : HostCall) : World × Next :=
  let found (handle : Handle) (use : ExecutorId → World × Next) (missing : Answer) :
      World × Next :=
    match world.host.executor? handle with
    | some id => use id
    | none => (world.note (.unknownFragment handle), .reply (.answer missing))
  match call with
  | .cancel handle =>
      found handle (fun id => (world, .call (.host call .waiting) (.cancel id .lockSetup)))
        (.flag false)
  | .unpause handle =>
      found handle
        (fun id => (world, .call (.host call .waiting) (.perform id .unpause .start)))
        (.flag false)
  | .finished sender receiver =>
      found sender
        (fun id => (world, .call (.host call .waiting) (.finished id receiver .waitGate)))
        (.flag false)
  | .status handle =>
      match world.host.executor? handle with
      | none => (world, .reply (.answer (.status none)))
      | some id => (world, .reply (.answer (.status (world.executors id).status?)))
  | .running order => (world, .reply (.answer (.handles ((world.host.listing order).map Prod.fst))))
  | .cancelAll order =>
      (world.note (.cancellingAll world.host.running.length),
        .goto (.host call (.walk ((world.host.listing order).map Prod.snd))))
  | .waitIdle => (world, .goto (.host call (.listening world.host.idleSignals)))

def stepHost (world : World) (call : HostCall) : HostPoint → Signal → Stepped
  | .start, .go => some (startHostCall world call)
  | .waiting, .replied _ => some (world, .reply (.answer (.flag true)))
  | .waiting, .raised payload => some (world, .raise payload)
  | .walk [], .go => some (world, .done)
  | .walk (id :: rest), .go =>
      some (world, .call (.host call (.walk rest)) (.cancel id .lockSetup))
  | .walk rest, .replied _ => some (world, .goto (.host call (.walk rest)))
  | .walk _, .raised payload => some (world, .raise payload)
  | .listening signals, .go =>
      if world.host.running.isEmpty then some (world, .done)
      else some (world, .goto (.host call (.asleep signals)))
  | .asleep signals, .go =>
      if world.host.idleSignals = signals then none
      else some (world, .goto (.host call (.listening world.host.idleSignals)))
  | _, _ => none

def Frame.step (world : World) (view : LockView) (thread : ThreadId) (signal : Signal) :
    Frame → Stepped
  | .run id listener point => stepRun world view thread id listener point signal
  | .cancel id point => stepCancel world view thread id point signal
  | .closeResources id point => stepClose world view id point signal
  | .fail id cause point => stepFail world thread id cause point signal
  | .call id target point => stepCall world thread id target point signal
  | .pause id site point => stepPause world id site point signal
  | .finished id receiver point => stepFinished world thread id receiver point signal
  | .depart nodes point => stepDepart world nodes point signal
  | .perform id action point => stepPerform world thread id action point signal
  | .start id refusal point => stepStart world thread id refusal point signal
  | .hosted id handle point => stepHosted world id handle point signal
  | .host message point => stepHost world message point signal

end FragmentLifecycle
