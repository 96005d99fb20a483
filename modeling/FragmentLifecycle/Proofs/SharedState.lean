import FragmentLifecycle.Proofs.Transition

/-!
# The steps that change shared state

Beside the executors a step may change the registry of listeners or a park token.  Only a
run changes the registry, only the end of a cancellation and a thread that wakes up change
a token, and each of them changes one entry (`Frame.step_shared`).  Only the alarm of an
exhausted heap ends the process (`Frame.step_exit`).
-/

namespace FragmentLifecycle

namespace World

variable (world : World) (id : ExecutorId) (thread : ThreadId)

@[simp]
theorem registry_modify (change : Executor → Executor) :
    (world.modify id change).registry = world.registry := rfl

@[simp]
theorem tokens_modify (change : Executor → Executor) :
    (world.modify id change).tokens = world.tokens := rfl

@[simp]
theorem registry_note (notice : Notice) : (world.note notice).registry = world.registry := rfl

@[simp]
theorem tokens_note (notice : Notice) : (world.note notice).tokens = world.tokens := rfl

@[simp]
theorem registry_setPrincipal (principal : Option Principal) :
    (world.setPrincipal thread principal).registry = world.registry := rfl

@[simp]
theorem tokens_setPrincipal (principal : Option Principal) :
    (world.setPrincipal thread principal).tokens = world.tokens := rfl

@[simp]
theorem registry_setToken (token : Bool) :
    (world.setToken thread token).registry = world.registry := rfl

@[simp]
theorem registry_setHost (host : Host) : (world.setHost host).registry = world.registry := rfl

@[simp]
theorem tokens_setHost (host : Host) : (world.setHost host).tokens = world.tokens := rfl

@[simp]
theorem registry_record (entry : Entry) :
    (world.record id thread entry).registry = world.registry := rfl

@[simp]
theorem tokens_record (entry : Entry) :
    (world.record id thread entry).tokens = world.tokens := rfl

@[simp]
theorem registry_wakeWorker : (world.wakeWorker id).registry = world.registry := by
  unfold wakeWorker
  split <;> rfl

/-- The registry and the park tokens are as they were. -/
def Leaves (before after : World) : Prop :=
  after.registry = before.registry ∧ after.tokens = before.tokens

theorem leaves_of_request {next : World} {target : State} {decision : Decision}
    (hrequest : world.request id thread target = (decision, next)) : world.Leaves next := by
  have hnext : next = (world.request id thread target).2 := by rw [hrequest]
  subst hnext
  simp only [request]
  split <;> exact ⟨rfl, rfl⟩

end World

/-- The registry after a step of a frame: a run adds its watch, and takes it away. -/
def Frame.registryAfter (world : World) : Frame → Registry ListenerId Watch
  | .run id _ .watch =>
      (world.registry.add ⟨id, (world.executors id).fragment.identity.foreman⟩).2
  | .run _ (some added) .unwatch => (world.registry.remove added).2
  | _ => world.registry

/-- The tokens after a step of a frame: a cancellation wakes the worker at its end, and a
thread that wakes up uses up its token. -/
def Frame.tokensAfter (world : World) (thread : ThreadId) : Frame → ThreadId → Bool
  | .cancel id .wake => (world.wakeWorker id).tokens
  | .call _ _ .parked => (world.setToken thread false).tokens
  | _ => world.tokens

section Steps

variable (world : World) (view : LockView) (thread : ThreadId) (id : ExecutorId)
  (signal : Signal)

private theorem stepRun_shared (listener : Option ListenerId) (point : RunPoint) :
    ∀ result ∈ stepRun world view thread id listener point signal,
      result.1.registry = (Frame.run id listener point).registryAfter world ∧
        result.1.tokens = world.tokens := by
  unfold stepRun
  split
  · fun_cases stepSetup world view thread id listener point signal <;>
      simp [Frame.registryAfter]
    all_goals first
    | exact (congrArg Prod.snd ‹world.registry.add _ = _›).symm
    | exact World.leaves_of_request _ _ _ ‹_›
  · split
    · fun_cases stepWindDown world thread id listener point signal <;>
        simp [Frame.registryAfter]
      all_goals exact ⟨rfl, rfl⟩
    · fun_cases stepDrive world thread id listener point signal <;> simp [Frame.registryAfter]
      all_goals first
      | exact ⟨rfl, rfl⟩
      | exact World.leaves_of_request _ _ _ ‹_›

private theorem stepCancel_shared (point : CancelPoint) :
    ∀ result ∈ stepCancel world view thread id point signal,
      result.1.registry = world.registry ∧
        result.1.tokens = (Frame.cancel id point).tokensAfter world thread := by
  fun_cases stepCancel world view thread id point signal <;> simp [Frame.tokensAfter]
  all_goals exact World.leaves_of_request _ _ _ ‹_›

private theorem stepClose_shared (point : ClosePoint) :
    ∀ result ∈ stepClose world view id point signal, world.Leaves result.1 := by
  fun_cases stepClose world view id point signal <;> simp [World.Leaves]

private theorem stepFail_shared (cause : Fault) (point : FailPoint) :
    ∀ result ∈ stepFail world thread id cause point signal, world.Leaves result.1 := by
  fun_cases stepFail world thread id cause point signal <;> simp [World.Leaves]
  exact World.leaves_of_request _ _ _ rfl

private theorem stepCall_shared (call : Call) (point : CallPoint) :
    ∀ result ∈ stepCall world thread id call point signal,
      result.1.registry = world.registry ∧
        result.1.tokens = (Frame.call id call point).tokensAfter world thread := by
  have henter : world.Leaves (stepEnter world thread id call).1 := by
    fun_cases stepEnter world thread id call <;> exact ⟨rfl, rfl⟩
  have houtcome (outcome : Outcome) :
      world.Leaves (stepOutcome world thread id call outcome).1 := by
    cases outcome <;> exact ⟨rfl, rfl⟩
  fun_cases stepCall world thread id call point signal <;> simp [Frame.tokensAfter]
  · exact henter
  · exact houtcome _

private theorem stepPause_shared (site : String) (point : PausePoint) :
    ∀ result ∈ stepPause world id site point signal, world.Leaves result.1 := by
  fun_cases stepPause world id site point signal <;> simp [World.Leaves]

private theorem stepFinished_shared (receiver : Handle) (point : FinishedPoint) :
    ∀ result ∈ stepFinished world thread id receiver point signal, world.Leaves result.1 := by
  fun_cases stepFinished world thread id receiver point signal <;> simp [World.Leaves]

private theorem stepDepart_shared (nodes : NodeSet) (point : DepartPoint) :
    ∀ result ∈ stepDepart world nodes point signal, world.Leaves result.1 := by
  fun_cases stepDepart world nodes point signal <;> simp [World.Leaves]

private theorem stepPerform_shared (action : Action) (point : PerformPoint) :
    ∀ result ∈ stepPerform world thread id action point signal, world.Leaves result.1 := by
  have hstart : world.Leaves (startAction world thread id action).1 := by
    fun_cases startAction world thread id action <;> exact ⟨rfl, rfl⟩
  fun_cases stepPerform world thread id action point signal <;> simp [hstart]
  all_goals exact ⟨rfl, rfl⟩

private theorem stepStart_shared (refusal : Option String) (point : StartPoint) :
    ∀ result ∈ stepStart world thread id refusal point signal, world.Leaves result.1 := by
  fun_cases stepStart world thread id refusal point signal <;> simp [World.Leaves]

private theorem stepHosted_shared (handle : Handle) (point : HostedPoint) :
    ∀ result ∈ stepHosted world id handle point signal, world.Leaves result.1 := by
  fun_cases stepHosted world id handle point signal <;> simp [World.Leaves]

private theorem stepHost_shared (call : HostCall) (point : HostPoint) :
    ∀ result ∈ stepHost world call point signal, world.Leaves result.1 := by
  have hstart : world.Leaves (startHostCall world call).1 := by
    cases call <;> simp only [startHostCall] <;> (try split) <;> exact ⟨rfl, rfl⟩
  fun_cases stepHost world call point signal <;> simp [hstart]
  all_goals exact ⟨rfl, rfl⟩

end Steps

section Shared

variable {world after : World} {view : LockView} {thread : ThreadId} {signal : Signal}
  {frame : Frame} {next : Next}

/-- A step changes the registry and the tokens as told from the frame that takes it. -/
theorem Frame.step_shared
    (hstep : frame.step world view thread signal = some (after, next)) :
    after.registry = frame.registryAfter world ∧
      after.tokens = frame.tokensAfter world thread := by
  cases frame with
  | run owner listener point => exact stepRun_shared _ _ _ _ _ _ _ _ hstep
  | cancel owner point => exact stepCancel_shared _ _ _ _ _ _ _ hstep
  | closeResources owner point => exact stepClose_shared _ _ _ _ _ _ hstep
  | fail owner cause point => exact stepFail_shared _ _ _ _ _ _ _ hstep
  | call owner target point => exact stepCall_shared _ _ _ _ _ _ _ hstep
  | pause owner site point => exact stepPause_shared _ _ _ _ _ _ hstep
  | finished owner receiver point => exact stepFinished_shared _ _ _ _ _ _ _ hstep
  | depart nodes point => exact stepDepart_shared _ _ _ _ _ hstep
  | perform owner action point => exact stepPerform_shared _ _ _ _ _ _ _ hstep
  | start owner refusal point => exact stepStart_shared _ _ _ _ _ _ _ hstep
  | hosted owner handle point => exact stepHosted_shared _ _ _ _ _ _ hstep
  | host message point => exact stepHost_shared _ _ _ _ _ hstep

/-- Only a run changes the registry. -/
theorem Frame.step_registry
    (hstep : frame.step world view thread signal = some (after, next)) :
    after.registry = frame.registryAfter world :=
  (step_shared hstep).1

end Shared

/-! ## The end of the process -/

theorem World.exit_of_request {world next : World} {id : ExecutorId} {thread : ThreadId}
    {target : State} {decision : Decision}
    (hrequest : world.request id thread target = (decision, next)) : next.exit = world.exit := by
  have hnext : next = (world.request id thread target).2 := by rw [hrequest]
  subst hnext
  simp only [request]
  split <;> rfl

section Steps

variable (world : World) (view : LockView) (thread : ThreadId) (id : ExecutorId)
  (signal : Signal)

/-- The process goes on after a step of `frame`, or this frame has ended it and stays where it
is. -/
private def GoesOn (frame : Frame) (result : World × Next) : Prop :=
  result.1.exit = world.exit ∨ ∃ id exhaustion,
    frame = .call id (.exhausted exhaustion) .enter ∧ result.2 = .goto frame

private theorem stepRun_goesOn (listener : Option ListenerId) (point : RunPoint) :
    ∀ result ∈ stepRun world view thread id listener point signal,
      GoesOn world (.run id listener point) result := by
  unfold stepRun
  split
  · fun_cases stepSetup world view thread id listener point signal
    all_goals rintro _ ⟨⟩
    all_goals first
    | exact .inl rfl
    | exact .inl (World.exit_of_request ‹_›)
  · split
    · fun_cases stepWindDown world thread id listener point signal
      all_goals rintro _ ⟨⟩
      all_goals exact .inl rfl
    · fun_cases stepDrive world thread id listener point signal
      all_goals rintro _ ⟨⟩
      all_goals first
      | exact .inl rfl
      | exact .inl (World.exit_of_request ‹_›)

private theorem stepCancel_goesOn (point : CancelPoint) :
    ∀ result ∈ stepCancel world view thread id point signal,
      GoesOn world (.cancel id point) result := by
  have hwakes : (world.wakeWorker id).exit = world.exit := by
    unfold World.wakeWorker
    split <;> rfl
  fun_cases stepCancel world view thread id point signal
  all_goals rintro _ ⟨⟩
  all_goals first
  | exact .inl rfl
  | exact .inl (World.exit_of_request ‹_›)
  | exact .inl hwakes

private theorem stepClose_goesOn (point : ClosePoint) :
    ∀ result ∈ stepClose world view id point signal,
      GoesOn world (.closeResources id point) result := by
  fun_cases stepClose world view id point signal
  all_goals rintro _ ⟨⟩
  all_goals exact .inl rfl

private theorem stepFail_goesOn (cause : Fault) (point : FailPoint) :
    ∀ result ∈ stepFail world thread id cause point signal,
      GoesOn world (.fail id cause point) result := by
  fun_cases stepFail world thread id cause point signal
  all_goals rintro _ ⟨⟩
  all_goals first
  | exact .inl rfl
  | exact .inl (World.exit_of_request (Prod.eta _).symm)

private theorem stepCall_goesOn (call : Call) (point : CallPoint) :
    ∀ result ∈ stepCall world thread id call point signal,
      GoesOn world (.call id call point) result := by
  have henter : GoesOn world (.call id call .enter) (stepEnter world thread id call) := by
    fun_cases stepEnter world thread id call
    case case2 => exact .inr ⟨_, _, rfl, rfl⟩
    all_goals exact .inl rfl
  have houtcome (outcome : Outcome) :
      GoesOn world (.call id call (.play [])) (stepOutcome world thread id call outcome) := by
    cases outcome <;> exact .inl rfl
  fun_cases stepCall world thread id call point signal
  all_goals rintro _ ⟨⟩
  all_goals first
  | exact henter
  | exact houtcome _
  | exact .inl rfl

private theorem stepPause_goesOn (site : String) (point : PausePoint) :
    ∀ result ∈ stepPause world id site point signal, GoesOn world (.pause id site point) result := by
  fun_cases stepPause world id site point signal
  all_goals rintro _ ⟨⟩
  all_goals exact .inl rfl

private theorem stepFinished_goesOn (receiver : Handle) (point : FinishedPoint) :
    ∀ result ∈ stepFinished world thread id receiver point signal,
      GoesOn world (.finished id receiver point) result := by
  fun_cases stepFinished world thread id receiver point signal
  all_goals rintro _ ⟨⟩
  all_goals exact .inl rfl

private theorem stepDepart_goesOn (nodes : NodeSet) (point : DepartPoint) :
    ∀ result ∈ stepDepart world nodes point signal,
      GoesOn world (.depart nodes point) result := by
  fun_cases stepDepart world nodes point signal
  all_goals rintro _ ⟨⟩
  all_goals exact .inl rfl

private theorem stepPerform_goesOn (action : Action) (point : PerformPoint) :
    ∀ result ∈ stepPerform world thread id action point signal,
      GoesOn world (.perform id action point) result := by
  have hstart : GoesOn world (.perform id action .start) (startAction world thread id action) := by
    fun_cases startAction world thread id action <;> exact .inl rfl
  fun_cases stepPerform world thread id action point signal
  all_goals rintro _ ⟨⟩
  all_goals first
  | exact hstart
  | exact .inl rfl

private theorem stepStart_goesOn (refusal : Option String) (point : StartPoint) :
    ∀ result ∈ stepStart world thread id refusal point signal,
      GoesOn world (.start id refusal point) result := by
  fun_cases stepStart world thread id refusal point signal
  all_goals intro result hresult
  case case2 =>
    obtain ⟨slots, -, rfl⟩ := Option.map_eq_some_iff.mp hresult
    exact .inl rfl
  all_goals cases hresult
  all_goals exact .inl rfl

private theorem stepHosted_goesOn (handle : Handle) (point : HostedPoint) :
    ∀ result ∈ stepHosted world id handle point signal,
      GoesOn world (.hosted id handle point) result := by
  fun_cases stepHosted world id handle point signal
  all_goals rintro _ ⟨⟩
  all_goals exact .inl rfl

private theorem stepHost_goesOn (call : HostCall) (point : HostPoint) :
    ∀ result ∈ stepHost world call point signal, GoesOn world (.host call point) result := by
  have hstart : GoesOn world (.host call .start) (startHostCall world call) := by
    cases call <;> simp only [startHostCall] <;> (try split) <;> exact .inl rfl
  fun_cases stepHost world call point signal
  all_goals rintro _ ⟨⟩
  all_goals first
  | exact hstart
  | exact .inl rfl

end Steps

/-- Only the alarm of an exhausted heap ends the process, and nothing follows it. -/
theorem Frame.step_exit {world after : World} {view : LockView} {thread : ThreadId}
    {signal : Signal} {frame : Frame} {next : Next}
    (hstep : frame.step world view thread signal = some (after, next)) :
    after.exit = world.exit ∨ ∃ id exhaustion,
      frame = .call id (.exhausted exhaustion) .enter ∧ next = .goto frame := by
  cases frame with
  | run owner listener point => exact stepRun_goesOn _ _ _ _ _ _ _ _ hstep
  | cancel owner point => exact stepCancel_goesOn _ _ _ _ _ _ _ hstep
  | closeResources owner point => exact stepClose_goesOn _ _ _ _ _ _ hstep
  | fail owner cause point => exact stepFail_goesOn _ _ _ _ _ _ _ hstep
  | call owner target point => exact stepCall_goesOn _ _ _ _ _ _ _ hstep
  | pause owner site point => exact stepPause_goesOn _ _ _ _ _ _ hstep
  | finished owner receiver point => exact stepFinished_goesOn _ _ _ _ _ _ _ hstep
  | depart nodes point => exact stepDepart_goesOn _ _ _ _ _ hstep
  | perform owner action point => exact stepPerform_goesOn _ _ _ _ _ _ _ hstep
  | start owner refusal point => exact stepStart_goesOn _ _ _ _ _ _ _ hstep
  | hosted owner handle point => exact stepHosted_goesOn _ _ _ _ _ _ hstep
  | host message point => exact stepHost_goesOn _ _ _ _ _ hstep

end FragmentLifecycle
