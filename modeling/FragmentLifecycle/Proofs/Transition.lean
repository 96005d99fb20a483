import FragmentLifecycle.Execution.System
import FragmentLifecycle.Proofs.Journal

/-!
# Transitions of one executor

A step of a frame is seen here from one executor.  `Transition` lists everything that
a step may do to it, with the frames that the step leaves behind; every step of a
system is one of these (`Frame.step_transition`).  The invariants of the following
modules are proved by cases on this list and never open a step function.
-/

namespace FragmentLifecycle

/-! ## Shared state, one executor at a time -/

namespace World

variable (world : World) (id other : ExecutorId)

@[simp]
theorem executors_modify (change : Executor → Executor) :
    (world.modify id change).executors other =
      if other = id then change (world.executors id) else world.executors other := rfl

@[simp]
theorem executors_note (notice : Notice) :
    (world.note notice).executors = world.executors := rfl

@[simp]
theorem executors_setPrincipal (thread : ThreadId) (principal : Option Principal) :
    (world.setPrincipal thread principal).executors = world.executors := rfl

@[simp]
theorem executors_setToken (thread : ThreadId) (token : Bool) :
    (world.setToken thread token).executors = world.executors := rfl

@[simp]
theorem executors_setHost (host : Host) :
    (world.setHost host).executors = world.executors := rfl

@[simp]
theorem executors_wakeWorker : (world.wakeWorker id).executors = world.executors := by
  unfold wakeWorker
  split <;> rfl

@[simp]
theorem executors_record (thread : ThreadId) (entry : Entry) :
    (world.record id thread entry).executors other =
      if other = id then (world.executors id).record thread entry
      else world.executors other := rfl

theorem fst_request (thread : ThreadId) (target : State) :
    (world.request id thread target).1 = (world.executors id).state.decide target := by
  simp only [request]
  split <;> rfl

@[simp]
theorem executors_snd_request (thread : ThreadId) (target : State) :
    (world.request id thread target).2.executors other =
      if other = id then ((world.executors id).request thread target).2
      else world.executors other := by
  simp only [request]
  split <;> rfl

end World

/-! ## Requests and records -/

namespace Executor

variable (executor : Executor) (thread : ThreadId) (target : State) (cause : Fault)
  (entry : Entry)

@[simp]
theorem state_request :
    (executor.request thread target).2.state =
      (executor.state.decide target).apply executor.state := rfl

@[simp]
theorem journal_request :
    (executor.request thread target).2.journal =
      executor.journal ++ [⟨thread, .requested executor.state target⟩] := rfl

@[simp]
theorem failures_request :
    (executor.request thread target).2.lifecycle.failures = executor.lifecycle.failures := rfl

@[simp]
theorem course_request : (executor.request thread target).2.course = executor.course := rfl

@[simp]
theorem treeHeld_request : (executor.request thread target).2.treeHeld = executor.treeHeld := rfl

@[simp]
theorem gate_request : (executor.request thread target).2.gate = executor.gate := rfl

@[simp]
theorem resourcesClosed_request :
    (executor.request thread target).2.resourcesClosed = executor.resourcesClosed := rfl

@[simp]
theorem fragment_request : (executor.request thread target).2.fragment = executor.fragment := rfl

@[simp]
theorem state_append : (executor.append thread cause).state = executor.state := rfl

@[simp]
theorem journal_append :
    (executor.append thread cause).journal = executor.journal ++ [⟨thread, .recorded cause⟩] := rfl

@[simp]
theorem failures_append :
    (executor.append thread cause).lifecycle.failures =
      executor.lifecycle.failures.append cause := rfl

@[simp]
theorem course_append : (executor.append thread cause).course = executor.course := rfl

@[simp]
theorem treeHeld_append : (executor.append thread cause).treeHeld = executor.treeHeld := rfl

@[simp]
theorem gate_append : (executor.append thread cause).gate = executor.gate := rfl

@[simp]
theorem resourcesClosed_append :
    (executor.append thread cause).resourcesClosed = executor.resourcesClosed := rfl

@[simp]
theorem fragment_append : (executor.append thread cause).fragment = executor.fragment := rfl

@[simp]
theorem state_record : (executor.record thread entry).state = executor.state := rfl

@[simp]
theorem journal_record :
    (executor.record thread entry).journal = executor.journal ++ [⟨thread, entry⟩] := rfl

@[simp]
theorem lifecycle_record :
    (executor.record thread entry).lifecycle = executor.lifecycle := rfl

@[simp]
theorem course_record : (executor.record thread entry).course = executor.course := rfl

@[simp]
theorem treeHeld_record : (executor.record thread entry).treeHeld = executor.treeHeld := rfl

@[simp]
theorem gate_record : (executor.record thread entry).gate = executor.gate := rfl

@[simp]
theorem resourcesClosed_record :
    (executor.record thread entry).resourcesClosed = executor.resourcesClosed := rfl

@[simp]
theorem fragment_record : (executor.record thread entry).fragment = executor.fragment := rfl

end Executor

/-! ## Frames of an executor -/

/-- The frames that take part in the lifecycle of an executor. -/
def Frame.isCore (id : ExecutorId) : Frame → Bool
  | .run owner _ _ | .cancel owner _ | .closeResources owner _ | .fail owner _ _
  | .call owner _ _ => owner = id
  | _ => false

/-- The frames of a lifecycle that a frame outside of it may push. -/
inductive Frame.IsEntry : Frame → Prop
  | run (id : ExecutorId) : IsEntry (.run id none .start)
  | cancel (id : ExecutorId) : IsEntry (.cancel id .lockSetup)
  | fail (id : ExecutorId) (cause : Fault) : IsEntry (.fail id cause .append)
  | closeContext (id : ExecutorId) : IsEntry (.call id .closeContext .enter)

/-- The frames that replace the one that took a step, the innermost first. -/
def Next.frames : Next → List Frame
  | .goto frame => [frame]
  | .call frame callee => [callee, frame]
  | .reply _ | .raise _ | .fork _ _ _ => []

/-- The frames of the thread that a step starts. -/
def Next.forked : Next → List Frame
  | .fork _ frame _ => [frame]
  | _ => []

def Next.signal : Next → Signal
  | .goto _ => .go
  | .call _ _ => .go
  | .reply answer => .replied answer
  | .raise payload => .raised payload
  | .fork answer _ _ => .replied answer

section Next

variable (frame callee : Frame) (answer : Reply) (payload : Payload) (hosts : ExecutorId)

@[simp]
theorem Next.frames_goto : (Next.goto frame).frames = [frame] := rfl

@[simp]
theorem Next.frames_call : (Next.call frame callee).frames = [callee, frame] := rfl

@[simp]
theorem Next.frames_reply : (Next.reply answer).frames = [] := rfl

@[simp]
theorem Next.frames_done : Next.done.frames = [] := rfl

@[simp]
theorem Next.frames_raise : (Next.raise payload).frames = [] := rfl

@[simp]
theorem Next.frames_fork : (Next.fork answer frame hosts).frames = [] := rfl

@[simp]
theorem Next.forked_goto : (Next.goto frame).forked = [] := rfl

@[simp]
theorem Next.forked_call : (Next.call frame callee).forked = [] := rfl

@[simp]
theorem Next.forked_reply : (Next.reply answer).forked = [] := rfl

@[simp]
theorem Next.forked_done : Next.done.forked = [] := rfl

@[simp]
theorem Next.forked_raise : (Next.raise payload).forked = [] := rfl

@[simp]
theorem Next.forked_fork : (Next.fork answer frame hosts).forked = [frame] := rfl

@[simp]
theorem Next.signal_goto : (Next.goto frame).signal = .go := rfl

@[simp]
theorem Next.signal_call : (Next.call frame callee).signal = .go := rfl

@[simp]
theorem Next.signal_reply : (Next.reply answer).signal = .replied answer := rfl

@[simp]
theorem Next.signal_done : Next.done.signal = .replied (.answer .none) := rfl

@[simp]
theorem Next.signal_raise : (Next.raise payload).signal = .raised payload := rfl

@[simp]
theorem Next.signal_fork : (Next.fork answer frame hosts).signal = .replied answer := rfl

end Next

/-- What a plan's outcome gives back, unless it is a panic. -/
def Outcome.reply? : Outcome → Option Reply
  | .more | .park => some (.progress true)
  | .done => some (.progress false)
  | .error fault => some (.failed fault)
  | .panic _ => none

/-- The points of a call that follow each other while nothing is called: closing a
context up to its plan, and parking at the end of a plan. -/
inductive CallPoint.Follows (plan : Plan) : CallPoint → CallPoint → Prop
  | closedBefore : Follows plan .markClosed (.play plan.actions)
  | closedNow : Follows plan .markClosed .detach
  | detached : Follows plan .detach .resumeAll
  | resumed : Follows plan .resumeAll (.play plan.actions)
  | parks (houtcome : plan.outcome = .park) : Follows plan (.play []) .parking
  | sleeps : Follows plan .parking .parked
  | wakes : Follows plan .parked .parking

/-- What a frame outside the lifecycle of an executor does to it: at most it touches
the context and the pauses, and passes on an early termination. -/
structure Executor.Untouched (thread : ThreadId) (before after : Executor) : Prop where
  fragment : after.fragment = before.fragment
  lifecycle : after.lifecycle = before.lifecycle
  course : after.course = before.course
  treeHeld : after.treeHeld = before.treeHeld
  gate : after.gate = before.gate
  resourcesClosed : after.resourcesClosed = before.resourcesClosed
  worker : after.worker = before.worker
  released : after.released = before.released
  journal : after.journal = before.journal ∨
    ∃ receiver, after.journal = before.journal ++ [⟨thread, .forwarded receiver⟩]

theorem Executor.Untouched.refl (thread : ThreadId) (executor : Executor) :
    executor.Untouched thread executor :=
  ⟨rfl, rfl, rfl, rfl, rfl, rfl, rfl, rfl, .inl rfl⟩

theorem Executor.Untouched.of_eq {thread : ThreadId} {before after : Executor}
    (hsame : after = before) : before.Untouched thread after := by
  rw [hsame]
  exact .refl thread before

theorem Executor.Untouched.state {thread : ThreadId} {before after : Executor}
    (hsame : before.Untouched thread after) : after.state = before.state :=
  congrArg Lifecycle.state hsame.lifecycle

/-- A request that is passed on counts for no other kind of entry. -/
theorem Executor.Untouched.tally_eq {thread : ThreadId} {before after : Executor}
    (hsame : before.Untouched thread after) {kind : Entry → Bool}
    (hforwarded : ∀ receiver, kind (.forwarded receiver) = false) :
    tally kind after.journal = tally kind before.journal := by
  rcases hsame.journal with hjournal | ⟨receiver, hjournal⟩
  · rw [hjournal]
  · rw [hjournal, tally_append, hforwarded, Bool.toNat_false, Nat.add_zero]

/-! ## The list of transitions -/

section Transitions

variable (view : LockView) (thread : ThreadId) (id : ExecutorId)

/-- What a step of a frame on `thread` does to executor `id`: the frame, the signal it
takes up, the executor before, what follows on the stack, the executor after. -/
inductive Transition : Frame → Signal → Executor → Next → Executor → Prop
  | aside {frame : Frame} {signal : Signal} {e e' : Executor} {next : Next}
      (houtside : frame.isCore id = false)
      (hframes : ∀ pushed ∈ next.frames ++ next.forked, pushed.isCore id = true → pushed.IsEntry)
      (hsame : e.Untouched thread e') : Transition frame signal e next e'
  -- the run, up to the end of setup
  | runBegins {l e} (hnew : e.course = .notStarted) :
      Transition (.run id l .start) .go e (.goto (.run id l .enrol))
        { e with course := .underWay thread }
  | runRepeats {l e} (hold : e.course ≠ .notStarted) :
      Transition (.run id l .start) .go e .done e
  | runEnrols {l e} :
      Transition (.run id l .enrol) .go e (.goto (.run id l .lockSetup))
        { e with worker := some thread }
  | runLocks {l e} (hfree : view.setupHeldElsewhere id = false) :
      Transition (.run id l .lockSetup) .go e (.goto (.run id l .inspect)) e
  | buildBegins {l e} (hstate : e.state.continues = true) :
      Transition (.run id l .inspect) .go e
        (.call (.run id l .building) (.call id .build .enter)) e
  | buildSkipped {l e} (hstate : e.state.continues = false) :
      Transition (.run id l .inspect) .go e (.goto (.run id l .assumePrincipal)) e
  | buildFails {l e fault} :
      Transition (.run id l .building) (.replied (.failed fault)) e
        (.goto (.run id l (.settleFault fault))) e
  | buildReturns {l e reply} (htree : ∀ fault, reply ≠ .failed fault) :
      Transition (.run id l .building) (.replied reply) e (.goto (.run id l .keepTree)) e
  | buildUnwinds {l e payload} :
      Transition (.run id l .building) (.raised payload) e
        (.call (.run id l .recording) (.fail id (panicFault payload) .append)) e
  | treeKept {l e} :
      Transition (.run id l .keepTree) .go e (.goto (.run id l .watch))
        { e with treeHeld := true }
  | watched {l e added} :
      Transition (.run id l .watch) .go e (.goto (.run id (some added) .announce)) e
  | runAccepted {l e} (hstate : e.state = .awaitingAllocation) :
      Transition (.run id l .announce) .go e
        (.call (.run id l .announcing) (.call id (.stateChanged .running) .enter))
        (e.request thread .running).2
  | runRefused {l e} (hstate : e.state ≠ .awaitingAllocation) :
      Transition (.run id l .announce) .go e
        (.goto (.run id l (.settleFault (.execution (.invalidTransition e.state .running)))))
        (e.request thread .running).2
  | announced {l e reply} :
      Transition (.run id l .announcing) (.replied reply) e (.goto (.run id l .openGate)) e
  | announceUnwinds {l e payload} :
      Transition (.run id l .announcing) (.raised payload) e
        (.call (.run id l .recording) (.fail id (panicFault payload) .append)) e
  | gateOpened {l e} :
      Transition (.run id l .openGate) .go e (.goto (.run id l .assumePrincipal))
        { e with gate := e.gate.opened }
  -- the run, driving the tree
  | principalAssumed {l e previous} :
      Transition (.run id l .assumePrincipal) .go e
        (.call (.run id l (.pausing previous)) (.pause id pauseSite .reach)) e
  | pauseEnds {l e previous reply} :
      Transition (.run id l (.pausing previous)) (.replied reply) e
        (.goto (.run id l (.fetchTree previous))) e
  | pauseUnwinds {l e previous payload} :
      Transition (.run id l (.pausing previous)) (.raised payload) e
        (.goto (.run id l (.restorePrincipal previous (.panicked payload)))) e
  | treeFetched {l e previous} (hheld : e.treeHeld = true) :
      Transition (.run id l (.fetchTree previous)) .go e (.goto (.run id l (.check previous))) e
  | treeMissing {l e previous} (hheld : e.treeHeld = false) :
      Transition (.run id l (.fetchTree previous)) .go e
        (.goto (.run id l (.restorePrincipal previous .completed))) e
  | advances {l e previous} (hstate : e.state.continues = true) :
      Transition (.run id l (.check previous)) .go e
        (.call (.run id l (.advancing previous)) (.call id (.next e.advances) .enter))
        { e with advances := e.advances + 1 }
  | stops {l e previous} (hstate : e.state.continues = false) :
      Transition (.run id l (.check previous)) .go e
        (.goto (.run id l (.restorePrincipal previous .completed))) e
  | advanceContinues {l e previous reply} :
      Transition (.run id l (.advancing previous)) (.replied reply) e
        (.goto (.run id l (.check previous))) e
  | advanceEnds {l e previous reply ending} :
      Transition (.run id l (.advancing previous)) (.replied reply) e
        (.goto (.run id l (.restorePrincipal previous ending))) e
  | advanceUnwinds {l e previous payload} :
      Transition (.run id l (.advancing previous)) (.raised payload) e
        (.goto (.run id l (.restorePrincipal previous (.panicked payload)))) e
  | drivingCompleted {l e previous} :
      Transition (.run id l (.restorePrincipal previous .completed)) .go e
        (.goto (.run id l .finish)) e
  | drivingFailed {l e previous fault} :
      Transition (.run id l (.restorePrincipal previous (.failed fault))) .go e
        (.goto (.run id l (.settleFault fault))) e
  | drivingPanicked {l e previous payload} :
      Transition (.run id l (.restorePrincipal previous (.panicked payload))) .go e
        (.call (.run id l .recording) (.fail id (panicFault payload) .append)) e
  | finishes {l e} :
      Transition (.run id l .finish) .go e (.goto (.run id l .releaseWaiters))
        (e.request thread .finished).2
  | faultSettled {l e fault cause}
      (hcause : (fault.outOfMemory? = none ∧ cause = fault) ∨
        ∃ exhaustion, fault.outOfMemory? = some exhaustion ∧
          exhaustion.pool.isRecoverable = true ∧ cause = .execution (.memory exhaustion)) :
      Transition (.run id l (.settleFault fault)) .go e
        (.call (.run id l .recording) (.fail id cause .append)) e
  | alarmBegins {l e fault exhaustion} (hmemory : fault.outOfMemory? = some exhaustion)
      (hheap : exhaustion.pool.isRecoverable = false) :
      Transition (.run id l (.settleFault fault)) .go e
        (.call (.run id l (.alarming exhaustion)) (.call id (.exhausted exhaustion) .enter)) e
  | alarmReturns {l e exhaustion reply} :
      Transition (.run id l (.alarming exhaustion)) (.replied reply) e
        (.call (.run id l .recording) (.fail id (.execution (.memory exhaustion)) .append)) e
  | alarmUnwinds {l e exhaustion payload} :
      Transition (.run id l (.alarming exhaustion)) (.raised payload) e (.raise payload)
        { e with course := .unwound thread }
  -- the run, winding down
  | failureRecorded {l e reply} :
      Transition (.run id l .recording) (.replied reply) e
        (.goto (.run id l .releaseWaiters)) e
  | waitersReleased {l e} :
      Transition (.run id l .releaseWaiters) .go e
        (.call (.run id l .closing) (.closeResources id .lockClosing))
        { e with gate := e.gate.opened }
  | resourcesReleased {l e reply} :
      Transition (.run id l .closing) (.replied reply) e (.goto (.run id l .unwatch)) e
  | closingUnwinds {l e payload} :
      Transition (.run id l .closing) (.raised payload) e (.raise payload)
        { e with course := .unwound thread }
  | unwatched {l e} :
      Transition (.run id l .unwatch) .go e (.goto (.run id l .conclude)) e
  | concludesFailed {l e} (hstate : e.state = .failed) :
      Transition (.run id l .conclude) .go e (.goto (.run id l .ensureCause))
        (e.record thread (.concluded e.state))
  | concludes {l e} (hstate : e.state ≠ .failed) :
      Transition (.run id l .conclude) .go e
        (.call (.run id l .reporting) (.call id (.stateChanged e.state) .enter))
        (e.record thread (.concluded e.state))
  | causePresent {l e} (hcauses : e.lifecycle.failures.isEmpty = false) :
      Transition (.run id l .ensureCause) .go e (.goto (.run id l .drain)) e
  | causeSubstituted {l e} (hcauses : e.lifecycle.failures.isEmpty = true) :
      Transition (.run id l .ensureCause) .go e (.goto (.run id l .drain))
        (e.append thread substituteCause)
  | drainsNothing {l e} (hcauses : e.lifecycle.drain.1 = none) :
      Transition (.run id l .drain) .go e (.goto (.run id l .retire)) e
  | drains {l e causes lifecycle} (hcauses : e.lifecycle.drain = (some causes, lifecycle)) :
      Transition (.run id l .drain) .go e
        (.call (.run id l .reporting) (.call id (.fail (e.failureReport causes)) .enter))
        ({ e with lifecycle }.record thread (.drained causes))
  | reportReturns {l e reply} :
      Transition (.run id l .reporting) (.replied reply) e (.goto (.run id l .retire)) e
  | reportUnwinds {l e payload} :
      Transition (.run id l .reporting) (.raised payload) e (.raise payload)
        { e with course := .unwound thread }
  | retires {l e} :
      Transition (.run id l .retire) .go e .done
        { e with worker := none, course := .ended thread }
  -- a cancellation
  | cancelLocks {e} (hfree : view.setupHeldElsewhere id = false) :
      Transition (.cancel id .lockSetup) .go e (.goto (.cancel id .inspect)) e
  | cancelFindsTree {e} (hheld : e.treeHeld = true) :
      Transition (.cancel id .inspect) .go e (.goto (.cancel id .waitGate)) e
  | cancelCloses {e} (hheld : e.treeHeld = false) :
      Transition (.cancel id .inspect) .go e
        (.call (.cancel id .closing) (.closeResources id .lockClosing)) e
  | cancelClosed {e reply} :
      Transition (.cancel id .closing) (.replied reply) e (.goto (.cancel id .request)) e
  | cancelCloseUnwinds {e payload} :
      Transition (.cancel id .closing) (.raised payload) e (.raise payload) e
  | cancelPasses {e} (hopen : e.gate.isOpen = true) :
      Transition (.cancel id .waitGate) .go e (.goto (.cancel id .request)) e
  | cancelAccepted {e} (hstate : e.state.continues = true) :
      Transition (.cancel id .request) .go e
        (.call (.cancel id .announcing) (.call id (.stateChanged .cancellationRequested) .enter))
        (e.request thread .cancellationRequested).2
  | cancelIgnored {e} (hstate : e.state.continues = false) :
      Transition (.cancel id .request) .go e (.goto (.cancel id .wake))
        (e.request thread .cancellationRequested).2
  | cancelAnnounced {e reply} :
      Transition (.cancel id .announcing) (.replied reply) e (.goto (.cancel id .wake)) e
  | cancelReportUnwinds {e payload} :
      Transition (.cancel id .announcing) (.raised payload) e (.raise payload) e
  | cancelEnds {e} : Transition (.cancel id .wake) .go e .done e
  -- the close of the resources
  | closeRepeats {e} (hfree : view.closingHeld id = false) (hclosed : e.resourcesClosed = true) :
      Transition (.closeResources id .lockClosing) .go e .done e
  | closeBegins {e} (hfree : view.closingHeld id = false) (hclosed : e.resourcesClosed = false) :
      Transition (.closeResources id .lockClosing) .go e (.goto (.closeResources id .takeTree))
        { e with resourcesClosed := true }
  | treeTaken {e} (hheld : e.treeHeld = true) :
      Transition (.closeResources id .takeTree) .go e
        (.call (.closeResources id .closingRoot) (.call id .closeRoot .enter))
        { e with treeHeld := false }
  | treeAbsent {e} (hheld : e.treeHeld = false) :
      Transition (.closeResources id .takeTree) .go e
        (.call (.closeResources id .closingContext) (.call id .closeContext .enter)) e
  | rootCloseFails {e fault} :
      Transition (.closeResources id .closingRoot) (.replied (.failed fault)) e
        (.call (.closeResources id .recording)
          (.fail id (.within (.text closeFailureText) fault) .append)) e
  | rootClosePanics {e payload} :
      Transition (.closeResources id .closingRoot) (.raised payload) e
        (.call (.closeResources id .recording) (.fail id (panicFault payload) .append)) e
  | rootCloses {e reply} (hreply : ∀ fault, reply ≠ .failed fault) :
      Transition (.closeResources id .closingRoot) (.replied reply) e
        (.call (.closeResources id .closingContext) (.call id .closeContext .enter)) e
  | closeFailureRecorded {e reply} :
      Transition (.closeResources id .recording) (.replied reply) e
        (.call (.closeResources id .closingContext) (.call id .closeContext .enter)) e
  | closeEnds {e reply} :
      Transition (.closeResources id .closingContext) (.replied reply) e .done e
  | closeUnwinds {e payload} :
      Transition (.closeResources id .closingContext) (.raised payload) e (.raise payload) e
  -- a failure
  | causeAppended {e cause} :
      Transition (.fail id cause .append) .go e (.goto (.fail id cause .request))
        (e.append thread cause)
  | failureRequested {e cause} :
      Transition (.fail id cause .request) .go e .done (e.request thread .failed).2
  -- a call on a collaborator
  | contextEntered {e} :
      Transition (.call id .closeContext .enter) .go e
        (.goto (.call id .closeContext .markClosed)) (e.record thread (.entered .closeContext))
  | callEntered {e call} (hcall : call ≠ .closeContext) :
      Transition (.call id call .enter) .go e
        (.goto (.call id call (.play (e.fragment.script.planOf call).actions)))
        (e.record thread (.entered call))
  | processExits {e exhaustion} :
      Transition (.call id (.exhausted exhaustion) .enter) .go e
        (.goto (.call id (.exhausted exhaustion) .enter)) e
  | callProceeds {e e' call source target}
      (hpoints : CallPoint.Follows (e.fragment.script.planOf call) source target)
      (hsame : e.Untouched thread e') (hjournal : e'.journal = e.journal) :
      Transition (.call id call source) .go e (.goto (.call id call target)) e'
  | callActs {e call action rest} :
      Transition (.call id call (.play (action :: rest))) .go e
        (.call (.call id call (.acting action rest)) (.perform id action .start)) e
  | callActed {e call action rest answer} :
      Transition (.call id call (.acting action rest)) (.replied (.answer answer)) e
        (.goto (.call id call (.play rest))) (e.record thread (.acted action answer))
  | callReturns {e call reply}
      (hreply : (e.fragment.script.planOf call).outcome.reply? = some reply) :
      Transition (.call id call (.play [])) .go e (.reply (call.replyTo reply))
        (e.record thread (.left call false))
  | parkingReturns {e call} :
      Transition (.call id call .parking) .go e (.reply (call.replyTo (.progress true)))
        (e.record thread (.left call false))
  | callPanics {e call payload}
      (houtcome : (e.fragment.script.planOf call).outcome = .panic payload) :
      Transition (.call id call (.play [])) .go e (.raise payload)
        (e.record thread (.left call true))
  | callUnwinds {e call action rest payload} :
      Transition (.call id call (.acting action rest)) (.raised payload) e (.raise payload)
        (e.record thread (.left call true))

end Transitions

theorem Transition.outside {view : LockView} {thread : ThreadId} {id : ExecutorId}
    {frame : Frame} {signal : Signal} {executor executor' : Executor} {next : Next}
    (htransition : Transition view thread id frame signal executor next executor')
    (houtside : frame.isCore id = false) :
    (∀ pushed ∈ next.frames ++ next.forked, pushed.isCore id = true → pushed.IsEntry) ∧
      executor.Untouched thread executor' := by
  cases htransition with
  | aside _ hframes hsame => exact ⟨hframes, hsame⟩
  | _ => simp [Frame.isCore] at houtside

/-! ## Every step is one of them -/

theorem State.decide_running (state : State) :
    state.decide .running =
      if state = .awaitingAllocation then .accept .running true else .invalid := by
  cases state <;> rfl

theorem State.decide_cancellationRequested (state : State) :
    state.decide .cancellationRequested =
      if state.continues then .accept .cancellationRequested true else .ignore true := by
  cases state <;> rfl

theorem State.decide_finished_ne_invalid (state : State) :
    state.decide .finished ≠ .invalid := by
  cases state <;> decide

theorem World.request_eq {world next : World} {id : ExecutorId} {thread : ThreadId}
    {target : State} {decision : Decision}
    (hrequest : world.request id thread target = (decision, next)) :
    (world.executors id).state.decide target = decision ∧
      next.executors = (world.request id thread target).2.executors := by
  rw [← World.fst_request, hrequest]
  exact ⟨rfl, rfl⟩

theorem World.executors_request_of_ne {world next : World} {id other : ExecutorId}
    {thread : ThreadId} {target : State} {decision : Decision} (hother : other ≠ id)
    (hrequest : world.request id thread target = (decision, next)) :
    next.executors other = world.executors other := by
  rw [(World.request_eq hrequest).2, executors_snd_request, if_neg hother]

section Steps

variable {world after : World} {view : LockView} {thread : ThreadId} {id : ExecutorId}
  {listener : Option ListenerId} {point : RunPoint} {signal : Signal} {next : Next}

private theorem stepSetup_transition
    (hstep : stepSetup world view thread id listener point signal = some (after, next)) :
    Transition view thread id (.run id listener point) signal (world.executors id) next
      (after.executors id) := by
  revert hstep
  fun_cases stepSetup world view thread id listener point signal
  all_goals
    intro hstep
    simp only [reduceCtorEq, Option.some.injEq, Prod.mk.injEq] at hstep
  all_goals
    obtain ⟨rfl, rfl⟩ := hstep
    try simp only [World.executors_modify, World.executors_note, if_true]
  case case1 hnew => exact .runBegins hnew
  case case2 hold => exact .runRepeats hold
  case case3 => exact .runEnrols
  case case5 hfree => exact .runLocks (by simpa using hfree)
  case case6 hstate => exact .buildBegins hstate
  case case7 hstate => exact .buildSkipped (by simpa using hstate)
  case case8 => exact .buildFails
  case case9 htree => exact .buildReturns htree
  case case10 => exact .buildUnwinds
  case case11 => exact .treeKept
  case case12 => exact .watched
  case case13 state requested hrequest =>
    obtain ⟨hdecision, hexecutors⟩ := World.request_eq hrequest
    rw [State.decide_running] at hdecision
    split at hdecision <;> simp only [Decision.accept.injEq, reduceCtorEq] at hdecision
    rename_i hstate
    rw [hexecutors, ← hdecision.1]
    simpa using Transition.runAccepted hstate
  case case14 requested hrequest =>
    obtain ⟨hdecision, hexecutors⟩ := World.request_eq hrequest
    rw [State.decide_running] at hdecision
    split at hdecision <;> simp only [reduceCtorEq] at hdecision
    rename_i hstate
    rw [hexecutors]
    simpa using Transition.runRefused hstate
  case case15 decision requested haccept hinvalid hrequest =>
    obtain ⟨hdecision, hexecutors⟩ := World.request_eq hrequest
    rw [State.decide_running] at hdecision
    split at hdecision
    · exact (haccept _ hdecision.symm).elim
    · exact (hinvalid hdecision.symm).elim
  case case16 => exact .announced
  case case17 => exact .announceUnwinds
  case case18 => exact .gateOpened

private theorem stepDrive_transition
    (hstep : stepDrive world thread id listener point signal = some (after, next)) :
    Transition view thread id (.run id listener point) signal (world.executors id) next
      (after.executors id) := by
  revert hstep
  fun_cases stepDrive world thread id listener point signal
  all_goals
    intro hstep
    simp only [reduceCtorEq, Option.some.injEq, Prod.mk.injEq] at hstep
  all_goals
    obtain ⟨rfl, rfl⟩ := hstep
    try simp only [World.executors_modify, World.executors_setPrincipal, if_true]
  case case1 => exact .principalAssumed
  case case2 => exact .pauseEnds
  case case3 => exact .pauseUnwinds
  case case4 hheld => exact .treeFetched hheld
  case case5 hheld => exact .treeMissing (by simpa using hheld)
  case case6 hstate => exact .advances hstate
  case case7 hstate => exact .stops (by simpa using hstate)
  case case8 => exact .advanceEnds
  case case9 => exact .advanceEnds
  case case10 => exact .advanceContinues
  case case11 => exact .advanceUnwinds
  case case12 => exact .drivingCompleted
  case case13 => exact .drivingFailed
  case case14 => exact .drivingPanicked
  case case15 requested hrequest =>
    exact (State.decide_finished_ne_invalid _ (World.request_eq hrequest).1).elim
  case case16 decision requested _ hrequest =>
    rw [(World.request_eq hrequest).2]
    simpa using Transition.finishes
  case case17 hmemory => exact .faultSettled (.inl ⟨hmemory, rfl⟩)
  case case18 hmemory hpool => exact .faultSettled (.inr ⟨_, hmemory, hpool, rfl⟩)
  case case19 hmemory hpool => exact .alarmBegins hmemory (by simpa using hpool)
  case case20 => exact .alarmReturns
  case case21 => exact .alarmUnwinds

private theorem stepWindDown_transition
    (hstep : stepWindDown world thread id listener point signal = some (after, next)) :
    Transition view thread id (.run id listener point) signal (world.executors id) next
      (after.executors id) := by
  revert hstep
  fun_cases stepWindDown world thread id listener point signal
  all_goals
    intro hstep
    simp only [reduceCtorEq, Option.some.injEq, Prod.mk.injEq] at hstep
  all_goals
    obtain ⟨rfl, rfl⟩ := hstep
    try simp only [World.executors_modify, World.executors_note, World.executors_record, if_true]
  case case1 => exact .failureRecorded
  case case2 => exact .waitersReleased
  case case3 => exact .resourcesReleased
  case case4 => exact .closingUnwinds
  case case5 => exact .unwatched
  case case6 => exact .unwatched
  case case7 hstate =>
    rw [World.executors_record, if_pos rfl]
    exact .concludesFailed hstate
  case case8 hstate =>
    rw [World.executors_record, if_pos rfl]
    exact .concludes hstate
  case case9 hcauses => exact .causeSubstituted hcauses
  case case10 hcauses => exact .causePresent (by simpa using hcauses)
  case case11 hcauses => exact .drainsNothing (congrArg Prod.fst hcauses)
  case case12 hcauses => exact .drains hcauses
  case case13 => exact .reportReturns
  case case14 => exact .reportUnwinds
  case case15 => exact .retires

private theorem stepRun_transition
    (hstep : stepRun world view thread id listener point signal = some (after, next)) :
    Transition view thread id (.run id listener point) signal (world.executors id) next
      (after.executors id) := by
  unfold stepRun at hstep
  split at hstep
  · exact stepSetup_transition hstep
  · split at hstep
    · exact stepWindDown_transition hstep
    · exact stepDrive_transition hstep

private theorem stepCancel_transition {point : CancelPoint}
    (hstep : stepCancel world view thread id point signal = some (after, next)) :
    Transition view thread id (.cancel id point) signal (world.executors id) next
      (after.executors id) := by
  revert hstep
  fun_cases stepCancel world view thread id point signal
  all_goals
    intro hstep
    simp only [reduceCtorEq, Option.some.injEq, Prod.mk.injEq] at hstep
  all_goals
    obtain ⟨rfl, rfl⟩ := hstep
    try simp only [World.executors_wakeWorker]
  case case2 hfree => exact .cancelLocks (by simpa using hfree)
  case case3 hheld => exact .cancelFindsTree hheld
  case case4 hheld => exact .cancelCloses (by simpa using hheld)
  case case5 => exact .cancelClosed
  case case6 => exact .cancelCloseUnwinds
  case case7 hopen => exact .cancelPasses hopen
  case case9 state requested hrequest =>
    obtain ⟨hdecision, hexecutors⟩ := World.request_eq hrequest
    rw [State.decide_cancellationRequested] at hdecision
    split at hdecision <;> simp only [Decision.accept.injEq, reduceCtorEq] at hdecision
    rename_i hstate
    rw [hexecutors, ← hdecision.1]
    simpa using Transition.cancelAccepted hstate
  case case10 decision requested haccept hrequest =>
    obtain ⟨hdecision, hexecutors⟩ := World.request_eq hrequest
    rw [State.decide_cancellationRequested] at hdecision
    split at hdecision
    · exact (haccept _ hdecision.symm).elim
    · rename_i hstate
      rw [hexecutors]
      simpa using Transition.cancelIgnored (by simpa using hstate)
  case case11 => exact .cancelAnnounced
  case case12 => exact .cancelReportUnwinds
  case case13 => exact .cancelEnds

private theorem stepClose_transition {point : ClosePoint}
    (hstep : stepClose world view id point signal = some (after, next)) :
    Transition view thread id (.closeResources id point) signal (world.executors id) next
      (after.executors id) := by
  revert hstep
  fun_cases stepClose world view id point signal
  all_goals
    intro hstep
    simp only [reduceCtorEq, Option.some.injEq, Prod.mk.injEq] at hstep
  all_goals
    obtain ⟨rfl, rfl⟩ := hstep
    try simp only [World.executors_modify, if_true]
  case case2 hfree hclosed => exact .closeRepeats (by simpa using hfree) hclosed
  case case3 hfree hclosed =>
    exact .closeBegins (by simpa using hfree) (by simpa using hclosed)
  case case4 hheld => exact .treeTaken hheld
  case case5 hheld => exact .treeAbsent (by simpa using hheld)
  case case6 => exact .rootCloseFails
  case case7 hreply => exact .rootCloses hreply
  case case8 => exact .rootClosePanics
  case case9 => exact .closeFailureRecorded
  case case10 => exact .closeEnds
  case case11 => exact .closeUnwinds

private theorem stepFail_transition {cause : Fault} {point : FailPoint}
    (hstep : stepFail world thread id cause point signal = some (after, next)) :
    Transition view thread id (.fail id cause point) signal (world.executors id) next
      (after.executors id) := by
  revert hstep
  fun_cases stepFail world thread id cause point signal
  all_goals
    intro hstep
    simp only [reduceCtorEq, Option.some.injEq, Prod.mk.injEq] at hstep
  all_goals
    obtain ⟨rfl, rfl⟩ := hstep
    simp only [World.executors_modify, World.executors_note, World.executors_snd_request, if_true]
  case case1 => exact .causeAppended
  case case2 => exact .failureRequested

private theorem stepOutcome_transition {call : Call}
    (hstep : stepOutcome world thread id call
      ((world.executors id).fragment.script.planOf call).outcome = (after, next)) :
    Transition view thread id (.call id call (.play [])) .go (world.executors id) next
      (after.executors id) := by
  cases houtcome : ((world.executors id).fragment.script.planOf call).outcome with
  | more | done | error =>
    rw [houtcome] at hstep
    obtain ⟨rfl, rfl⟩ := Prod.mk.inj hstep
    rw [World.executors_record, if_pos rfl]
    exact .callReturns (by rw [houtcome]; rfl)
  | panic payload =>
    rw [houtcome] at hstep
    obtain ⟨rfl, rfl⟩ := Prod.mk.inj hstep
    rw [World.executors_record, if_pos rfl]
    exact .callPanics houtcome
  | park =>
    rw [houtcome] at hstep
    obtain ⟨rfl, rfl⟩ := Prod.mk.inj hstep
    exact .callProceeds (.parks houtcome) (.refl _ _) rfl

private theorem stepEnter_transition {call : Call}
    (hstep : stepEnter world thread id call = (after, next)) :
    Transition view thread id (.call id call .enter) .go (world.executors id) next
      (after.executors id) := by
  revert hstep
  fun_cases stepEnter world thread id call
  all_goals
    intro hstep
    obtain ⟨rfl, rfl⟩ := Prod.mk.inj hstep
  case case1 =>
    rw [World.executors_record, if_pos rfl]
    exact .contextEntered
  case case2 => exact .processExits
  case case3 hcall _ =>
    rw [World.executors_record, if_pos rfl]
    exact .callEntered hcall

private theorem stepCall_transition {call : Call} {point : CallPoint}
    (hstep : stepCall world thread id call point signal = some (after, next)) :
    Transition view thread id (.call id call point) signal (world.executors id) next
      (after.executors id) := by
  revert hstep
  fun_cases stepCall world thread id call point signal
  all_goals
    intro hstep
    simp only [reduceCtorEq, Option.some.injEq, Prod.mk.injEq] at hstep
  case case1 => exact stepEnter_transition hstep
  case case6 => exact stepOutcome_transition hstep
  all_goals
    obtain ⟨rfl, rfl⟩ := hstep
    try simp only [World.executors_modify, World.executors_note, World.executors_record,
      World.executors_setToken, if_true]
  case case2 => exact .callProceeds .closedBefore (.refl _ _) rfl
  case case3 => exact .callProceeds .closedNow ⟨rfl, rfl, rfl, rfl, rfl, rfl, rfl, rfl, .inl rfl⟩ rfl
  case case4 => exact .callProceeds .detached ⟨rfl, rfl, rfl, rfl, rfl, rfl, rfl, rfl, .inl rfl⟩ rfl
  case case5 => exact .callProceeds .resumed ⟨rfl, rfl, rfl, rfl, rfl, rfl, rfl, rfl, .inl rfl⟩ rfl
  case case7 => exact .callActs
  case case8 => exact .callActed
  case case9 => exact .callUnwinds
  case case10 => exact .callProceeds .sleeps (.refl _ _) rfl
  case case11 => exact .parkingReturns
  case case12 => exact .callProceeds .wakes (.refl _ _) rfl

/-! ### Frames outside the lifecycle -/

/-- What `Transition.aside` asks of a step. -/
private def IsAside (world after : World) (thread : ThreadId) (id : ExecutorId) (next : Next) :
    Prop :=
  (∀ pushed ∈ next.frames ++ next.forked, pushed.isCore id = true → pushed.IsEntry) ∧
    (world.executors id).Untouched thread (after.executors id)

private theorem Untouched.modify {owner : ExecutorId} {change : Executor → Executor}
    (hchange : ∀ executor : Executor, executor.Untouched thread (change executor)) :
    (world.executors id).Untouched thread ((world.modify owner change).executors id) := by
  rw [World.executors_modify]
  split
  · subst_vars
    exact hchange _
  · exact .refl _ _

variable {owner : ExecutorId}

private theorem stepSetup_aside (howner : id ≠ owner)
    (hstep : stepSetup world view thread owner listener point signal = some (after, next)) :
    IsAside world after thread id next := by
  revert hstep
  fun_cases stepSetup world view thread owner listener point signal
  all_goals
    intro hstep
    simp only [reduceCtorEq, Option.some.injEq, Prod.mk.injEq] at hstep
  all_goals
    obtain ⟨rfl, rfl⟩ := hstep
    refine ⟨by simp [Frame.isCore, howner.symm], ?_⟩
    first
    | exact .refl _ _
    | exact .of_eq (overwrite_of_ne _ _ howner)
    | exact .of_eq (by simp [howner])
    | exact .of_eq (World.executors_request_of_ne howner ‹_›)

private theorem stepDrive_aside (howner : id ≠ owner)
    (hstep : stepDrive world thread owner listener point signal = some (after, next)) :
    IsAside world after thread id next := by
  revert hstep
  fun_cases stepDrive world thread owner listener point signal
  all_goals
    intro hstep
    simp only [reduceCtorEq, Option.some.injEq, Prod.mk.injEq] at hstep
  all_goals
    obtain ⟨rfl, rfl⟩ := hstep
    refine ⟨by simp [Frame.isCore, howner.symm], ?_⟩
    first
    | exact .refl _ _
    | exact .of_eq (overwrite_of_ne _ _ howner)
    | exact .of_eq (by simp [howner])
    | exact .of_eq (World.executors_request_of_ne howner ‹_›)

private theorem stepWindDown_aside (howner : id ≠ owner)
    (hstep : stepWindDown world thread owner listener point signal = some (after, next)) :
    IsAside world after thread id next := by
  revert hstep
  fun_cases stepWindDown world thread owner listener point signal
  all_goals
    intro hstep
    simp only [reduceCtorEq, Option.some.injEq, Prod.mk.injEq] at hstep
  all_goals
    obtain ⟨rfl, rfl⟩ := hstep
    refine ⟨by simp [Frame.isCore, howner.symm], ?_⟩
    first
    | exact .refl _ _
    | exact .of_eq (overwrite_of_ne _ _ howner)
    | exact .of_eq (by simp [howner])

private theorem stepCancel_aside {point : CancelPoint} (howner : id ≠ owner)
    (hstep : stepCancel world view thread owner point signal = some (after, next)) :
    IsAside world after thread id next := by
  revert hstep
  fun_cases stepCancel world view thread owner point signal
  all_goals
    intro hstep
    simp only [reduceCtorEq, Option.some.injEq, Prod.mk.injEq] at hstep
  all_goals
    obtain ⟨rfl, rfl⟩ := hstep
    refine ⟨by simp [Frame.isCore, howner.symm], ?_⟩
    first
    | exact .refl _ _
    | exact .of_eq (overwrite_of_ne _ _ howner)
    | exact .of_eq (by simp)
    | exact .of_eq (World.executors_request_of_ne howner ‹_›)

private theorem stepClose_aside {point : ClosePoint} (howner : id ≠ owner)
    (hstep : stepClose world view owner point signal = some (after, next)) :
    IsAside world after thread id next := by
  revert hstep
  fun_cases stepClose world view owner point signal
  all_goals
    intro hstep
    simp only [reduceCtorEq, Option.some.injEq, Prod.mk.injEq] at hstep
  all_goals
    obtain ⟨rfl, rfl⟩ := hstep
    refine ⟨by simp [Frame.isCore, howner.symm], ?_⟩
    first
    | exact .refl _ _
    | exact .of_eq (overwrite_of_ne _ _ howner)

private theorem stepFail_aside {cause : Fault} {point : FailPoint} (howner : id ≠ owner)
    (hstep : stepFail world thread owner cause point signal = some (after, next)) :
    IsAside world after thread id next := by
  revert hstep
  fun_cases stepFail world thread owner cause point signal
  all_goals
    intro hstep
    simp only [reduceCtorEq, Option.some.injEq, Prod.mk.injEq] at hstep
  all_goals
    obtain ⟨rfl, rfl⟩ := hstep
    refine ⟨by simp [Frame.isCore, howner.symm], ?_⟩
    first
    | exact .refl _ _
    | exact .of_eq (overwrite_of_ne _ _ howner)
    | exact .of_eq (by simp [howner])

private theorem stepEnter_aside {call : Call} (howner : id ≠ owner)
    (hstep : stepEnter world thread owner call = (after, next)) :
    IsAside world after thread id next := by
  revert hstep
  fun_cases stepEnter world thread owner call
  all_goals
    intro hstep
    obtain ⟨rfl, rfl⟩ := Prod.mk.inj hstep
    refine ⟨by simp [Frame.isCore, howner.symm], ?_⟩
    first
    | exact .refl _ _
    | exact .of_eq (overwrite_of_ne _ _ howner)

private theorem stepOutcome_aside {call : Call} {outcome : Outcome} (howner : id ≠ owner)
    (hstep : stepOutcome world thread owner call outcome = (after, next)) :
    IsAside world after thread id next := by
  revert hstep
  fun_cases stepOutcome world thread owner call outcome
  all_goals
    intro hstep
    obtain ⟨rfl, rfl⟩ := Prod.mk.inj hstep
    refine ⟨by simp [Frame.isCore, howner.symm], ?_⟩
    first
    | exact .refl _ _
    | exact .of_eq (overwrite_of_ne _ _ howner)

private theorem stepCall_aside {call : Call} {point : CallPoint} (howner : id ≠ owner)
    (hstep : stepCall world thread owner call point signal = some (after, next)) :
    IsAside world after thread id next := by
  revert hstep
  fun_cases stepCall world thread owner call point signal
  all_goals
    intro hstep
    simp only [reduceCtorEq, Option.some.injEq, Prod.mk.injEq] at hstep
  case case1 => exact stepEnter_aside howner hstep
  case case6 => exact stepOutcome_aside howner hstep
  all_goals
    obtain ⟨rfl, rfl⟩ := hstep
    refine ⟨by simp [Frame.isCore, howner.symm], ?_⟩
    first
    | exact .refl _ _
    | exact .of_eq (overwrite_of_ne _ _ howner)

private theorem stepPause_aside {site : String} {point : PausePoint}
    (hstep : stepPause world owner site point signal = some (after, next)) :
    IsAside world after thread id next := by
  revert hstep
  fun_cases stepPause world owner site point signal
  all_goals
    intro hstep
    simp only [reduceCtorEq, Option.some.injEq, Prod.mk.injEq] at hstep
  all_goals
    obtain ⟨rfl, rfl⟩ := hstep
    refine ⟨by simp [Frame.isCore], ?_⟩
    try rw [World.executors_note]
    first
    | exact .refl _ _
    | exact Untouched.modify fun _ => ⟨rfl, rfl, rfl, rfl, rfl, rfl, rfl, rfl, .inl rfl⟩

private theorem stepFinished_aside {receiver : Handle} {point : FinishedPoint}
    (hstep : stepFinished world thread owner receiver point signal = some (after, next)) :
    IsAside world after thread id next := by
  revert hstep
  fun_cases stepFinished world thread owner receiver point signal
  all_goals
    intro hstep
    simp only [reduceCtorEq, Option.some.injEq, Prod.mk.injEq] at hstep
  all_goals
    obtain ⟨rfl, rfl⟩ := hstep
    refine ⟨by simp [Frame.isCore], ?_⟩
    try rw [World.executors_note]
    first
    | exact .refl _ _
    | exact Untouched.modify fun _ => ⟨rfl, rfl, rfl, rfl, rfl, rfl, rfl, rfl, .inr ⟨_, rfl⟩⟩

private theorem stepDepart_aside {nodes : NodeSet} {point : DepartPoint}
    (hstep : stepDepart world nodes point signal = some (after, next)) :
    IsAside world after thread id next := by
  revert hstep
  fun_cases stepDepart world nodes point signal
  all_goals
    intro hstep
    simp only [reduceCtorEq, Option.some.injEq, Prod.mk.injEq] at hstep
  all_goals
    obtain ⟨rfl, rfl⟩ := hstep
    exact ⟨by simp [Frame.isCore, Frame.IsEntry.cancel], .refl _ _⟩

private theorem startAction_aside {action : Action}
    (hstep : startAction world thread owner action = (after, next)) :
    IsAside world after thread id next := by
  revert hstep
  fun_cases startAction world thread owner action
  all_goals
    intro hstep
    obtain ⟨rfl, rfl⟩ := Prod.mk.inj hstep
    constructor
    · first
      | exact fun _ hpushed => absurd hpushed List.not_mem_nil
      | simp [Frame.isCore, Frame.IsEntry.run, Frame.IsEntry.cancel, Frame.IsEntry.fail,
          Frame.IsEntry.closeContext]
    · first
      | exact .refl _ _
      | exact Untouched.modify fun _ => ⟨rfl, rfl, rfl, rfl, rfl, rfl, rfl, rfl, .inl rfl⟩

private theorem stepPerform_aside {action : Action} {point : PerformPoint}
    (hstep : stepPerform world thread owner action point signal = some (after, next)) :
    IsAside world after thread id next := by
  revert hstep
  fun_cases stepPerform world thread owner action point signal
  all_goals
    intro hstep
    simp only [reduceCtorEq, Option.some.injEq, Prod.mk.injEq] at hstep
  case case1 => exact startAction_aside hstep
  all_goals
    obtain ⟨rfl, rfl⟩ := hstep
    exact ⟨by simp [Frame.isCore], .refl _ _⟩

private theorem stepStart_aside {refusal : Option String} {point : StartPoint}
    (hstep : stepStart world thread owner refusal point signal = some (after, next)) :
    IsAside world after thread id next := by
  revert hstep
  fun_cases stepStart world thread owner refusal point signal
  all_goals
    intro hstep
    simp only [reduceCtorEq, Option.some.injEq, Prod.mk.injEq] at hstep
  case case2 =>
    obtain ⟨slots, -, hslots⟩ := Option.map_eq_some_iff.mp hstep
    obtain ⟨rfl, rfl⟩ := Prod.mk.inj hslots
    exact ⟨by simp [Frame.isCore], .refl _ _⟩
  all_goals
    obtain ⟨rfl, rfl⟩ := hstep
    exact ⟨by simp [Frame.isCore, Frame.IsEntry.cancel], .refl _ _⟩

private theorem stepHosted_aside {handle : Handle} {point : HostedPoint}
    (hstep : stepHosted world owner handle point signal = some (after, next)) :
    IsAside world after thread id next := by
  revert hstep
  fun_cases stepHosted world owner handle point signal
  all_goals
    intro hstep
    simp only [reduceCtorEq, Option.some.injEq, Prod.mk.injEq] at hstep
  all_goals
    obtain ⟨rfl, rfl⟩ := hstep
    exact ⟨by simp [Frame.isCore, Frame.IsEntry.run], .refl _ _⟩

private theorem startHostCall_aside {call : HostCall}
    (hstep : startHostCall world call = (after, next)) : IsAside world after thread id next := by
  cases call
  all_goals
    simp only [startHostCall] at hstep
    try split at hstep
    all_goals
      obtain ⟨rfl, rfl⟩ := Prod.mk.inj hstep
      exact ⟨by simp [Frame.isCore, Frame.IsEntry.cancel], .refl _ _⟩

private theorem stepHost_aside {call : HostCall} {point : HostPoint}
    (hstep : stepHost world call point signal = some (after, next)) :
    IsAside world after thread id next := by
  revert hstep
  fun_cases stepHost world call point signal
  all_goals
    intro hstep
    simp only [reduceCtorEq, Option.some.injEq, Prod.mk.injEq] at hstep
  case case1 => exact startHostCall_aside hstep
  all_goals
    obtain ⟨rfl, rfl⟩ := hstep
    exact ⟨by simp [Frame.isCore, Frame.IsEntry.cancel], .refl _ _⟩

private theorem Frame.step_aside {frame : Frame} (houtside : frame.isCore id = false)
    (hstep : frame.step world view thread signal = some (after, next)) :
    IsAside world after thread id next := by
  have hother (owner : ExecutorId) (hcore : frame.isCore id = decide (owner = id)) :
      id ≠ owner := by
    rw [houtside] at hcore
    exact fun heq => by simp [heq] at hcore
  cases frame with
  | run owner listener point =>
    simp only [Frame.step, stepRun] at hstep
    split at hstep
    · exact stepSetup_aside (hother owner rfl) hstep
    · split at hstep
      · exact stepWindDown_aside (hother owner rfl) hstep
      · exact stepDrive_aside (hother owner rfl) hstep
  | cancel owner point => exact stepCancel_aside (hother owner rfl) hstep
  | closeResources owner point => exact stepClose_aside (hother owner rfl) hstep
  | fail owner cause point => exact stepFail_aside (hother owner rfl) hstep
  | call owner target point => exact stepCall_aside (hother owner rfl) hstep
  | pause owner site point => exact stepPause_aside hstep
  | finished owner receiver point => exact stepFinished_aside hstep
  | depart nodes point => exact stepDepart_aside hstep
  | perform owner action point => exact stepPerform_aside hstep
  | start owner refusal point => exact stepStart_aside hstep
  | hosted owner handle point => exact stepHosted_aside hstep
  | host message point => exact stepHost_aside hstep

/-- Every step of a frame is one of the listed transitions, for every executor. -/
theorem Frame.step_transition {frame : Frame} (id : ExecutorId)
    (hstep : frame.step world view thread signal = some (after, next)) :
    Transition view thread id frame signal (world.executors id) next (after.executors id) := by
  by_cases hcore : frame.isCore id = true
  · cases frame with
    | run owner listener point =>
      obtain rfl : owner = id := by simpa [Frame.isCore] using hcore
      exact stepRun_transition hstep
    | cancel owner point =>
      obtain rfl : owner = id := by simpa [Frame.isCore] using hcore
      exact stepCancel_transition hstep
    | closeResources owner point =>
      obtain rfl : owner = id := by simpa [Frame.isCore] using hcore
      exact stepClose_transition hstep
    | fail owner cause point =>
      obtain rfl : owner = id := by simpa [Frame.isCore] using hcore
      exact stepFail_transition hstep
    | call owner target point =>
      obtain rfl : owner = id := by simpa [Frame.isCore] using hcore
      exact stepCall_transition hstep
    | pause | finished | depart | perform | start | hosted | host => cases hcore
  · have houtside : frame.isCore id = false := by simpa using hcore
    obtain ⟨hframes, hsame⟩ := Frame.step_aside houtside hstep
    exact .aside houtside hframes hsame

end Steps

end FragmentLifecycle
