import FragmentLifecycle.Proofs.Transition

/-!
# Calls that keep to one executor

A run, a cancellation and the other calls on an executor call each other and the
collaborators of this executor.  Such a frame changes no other executor and leads to such
frames only, unless a plan makes a departure of nodes known (`Frame.step_own`).
-/

namespace FragmentLifecycle

/-- The frames that belong to the calls on an executor. -/
def Frame.isOwn (id : ExecutorId) : Frame → Bool
  | .run owner _ _ | .cancel owner _ | .closeResources owner _ | .fail owner _ _
  | .call owner _ _ | .pause owner _ _ | .finished owner _ _ | .perform owner _ _
  | .hosted owner _ _ => owner = id
  | .depart _ _ | .start _ _ _ | .host _ _ => false

/-- A plan is about to make a departure of nodes known. -/
def Frame.isAnnouncement : Frame → Bool
  | .perform _ (.depart _) .start => true
  | _ => false

/-- A step changes no executor but `id`, starts no thread, and leads to calls on `id`. -/
structure KeepsTo (id : ExecutorId) (world : World) (result : World × Next) : Prop where
  others : ∀ other, other ≠ id → result.1.executors other = world.executors other
  frames : ∀ pushed ∈ result.2.frames, pushed.isOwn id = true
  forked : result.2.forked = []

section Steps

variable (world : World) (view : LockView) (thread : ThreadId) (id : ExecutorId)
  (signal : Signal)

private theorem stepRun_own (listener : Option ListenerId) (point : RunPoint) :
    ∀ result ∈ stepRun world view thread id listener point signal, KeepsTo id world result := by
  unfold stepRun
  split
  · fun_cases stepSetup world view thread id listener point signal
    all_goals rintro _ ⟨⟩
    all_goals constructor <;> simp +contextual +zetaDelta [Frame.isOwn]
    all_goals exact fun _ hother => World.executors_request_of_ne hother ‹_›
  · split
    · fun_cases stepWindDown world thread id listener point signal
      all_goals rintro _ ⟨⟩
      all_goals constructor <;> simp +contextual +zetaDelta [Frame.isOwn]
    · fun_cases stepDrive world thread id listener point signal
      all_goals rintro _ ⟨⟩
      all_goals constructor <;> simp +contextual +zetaDelta [Frame.isOwn]
      all_goals exact fun _ hother => World.executors_request_of_ne hother ‹_›

private theorem stepCancel_own (point : CancelPoint) :
    ∀ result ∈ stepCancel world view thread id point signal, KeepsTo id world result := by
  fun_cases stepCancel world view thread id point signal
  all_goals rintro _ ⟨⟩
  all_goals constructor <;> simp +contextual +zetaDelta [Frame.isOwn]
  all_goals exact fun _ hother => World.executors_request_of_ne hother ‹_›

private theorem stepClose_own (point : ClosePoint) :
    ∀ result ∈ stepClose world view id point signal, KeepsTo id world result := by
  fun_cases stepClose world view id point signal
  all_goals rintro _ ⟨⟩
  all_goals constructor <;> simp +contextual +zetaDelta [Frame.isOwn]

private theorem stepFail_own (cause : Fault) (point : FailPoint) :
    ∀ result ∈ stepFail world thread id cause point signal, KeepsTo id world result := by
  fun_cases stepFail world thread id cause point signal
  all_goals rintro _ ⟨⟩
  all_goals constructor <;> simp +contextual +zetaDelta [Frame.isOwn]

private theorem stepCall_own (call : Call) (point : CallPoint) :
    ∀ result ∈ stepCall world thread id call point signal, KeepsTo id world result := by
  have henter : KeepsTo id world (stepEnter world thread id call) := by
    fun_cases stepEnter world thread id call
    all_goals constructor <;> simp +contextual +zetaDelta [Frame.isOwn]
  have houtcome (outcome : Outcome) :
      KeepsTo id world (stepOutcome world thread id call outcome) := by
    cases outcome
    all_goals constructor <;> simp +contextual [stepOutcome, Frame.isOwn]
  fun_cases stepCall world thread id call point signal
  all_goals rintro _ ⟨⟩
  all_goals first
  | exact henter
  | exact houtcome _
  | constructor <;> simp +contextual +zetaDelta [Frame.isOwn]

private theorem stepPause_own (site : String) (point : PausePoint) :
    ∀ result ∈ stepPause world id site point signal, KeepsTo id world result := by
  fun_cases stepPause world id site point signal
  all_goals rintro _ ⟨⟩
  all_goals constructor <;> simp +contextual +zetaDelta [Frame.isOwn]

private theorem stepFinished_own (receiver : Handle) (point : FinishedPoint) :
    ∀ result ∈ stepFinished world thread id receiver point signal,
      KeepsTo id world result := by
  fun_cases stepFinished world thread id receiver point signal
  all_goals rintro _ ⟨⟩
  all_goals constructor <;> simp +contextual +zetaDelta [Frame.isOwn]

private theorem stepPerform_own (action : Action) (point : PerformPoint)
    (hother : (Frame.perform id action point).isAnnouncement = false) :
    ∀ result ∈ stepPerform world thread id action point signal, KeepsTo id world result := by
  have hstart (hpoint : point = .start) :
      KeepsTo id world (startAction world thread id action) := by
    subst hpoint
    revert hother
    fun_cases startAction world thread id action
    all_goals intro hother
    all_goals first
    | exact Bool.noConfusion hother
    | constructor <;> simp +contextual +zetaDelta [Frame.isOwn]
  revert hstart
  fun_cases stepPerform world thread id action point signal
  all_goals
    intro hstart
    rintro _ ⟨⟩
  all_goals first
  | exact hstart rfl
  | constructor <;> simp +contextual +zetaDelta [Frame.isOwn]

private theorem stepHosted_own (handle : Handle) (point : HostedPoint) :
    ∀ result ∈ stepHosted world id handle point signal, KeepsTo id world result := by
  fun_cases stepHosted world id handle point signal
  all_goals rintro _ ⟨⟩
  all_goals constructor <;> simp +contextual +zetaDelta [Frame.isOwn]

end Steps

/-- A call on an executor keeps to this executor. -/
theorem Frame.step_own {world after : World} {view : LockView} {thread : ThreadId}
    {id : ExecutorId} {signal : Signal} {frame : Frame} {next : Next}
    (hown : frame.isOwn id = true) (hother : frame.isAnnouncement = false)
    (hstep : frame.step world view thread signal = some (after, next)) :
    KeepsTo id world (after, next) := by
  cases frame with
  | run owner listener point =>
    obtain rfl : owner = id := by simpa [isOwn] using hown
    exact stepRun_own _ _ _ _ _ _ _ _ hstep
  | cancel owner point =>
    obtain rfl : owner = id := by simpa [isOwn] using hown
    exact stepCancel_own _ _ _ _ _ _ _ hstep
  | closeResources owner point =>
    obtain rfl : owner = id := by simpa [isOwn] using hown
    exact stepClose_own _ _ _ _ _ _ hstep
  | fail owner cause point =>
    obtain rfl : owner = id := by simpa [isOwn] using hown
    exact stepFail_own _ _ _ _ _ _ _ hstep
  | call owner target point =>
    obtain rfl : owner = id := by simpa [isOwn] using hown
    exact stepCall_own _ _ _ _ _ _ _ hstep
  | pause owner site point =>
    obtain rfl : owner = id := by simpa [isOwn] using hown
    exact stepPause_own _ _ _ _ _ _ hstep
  | finished owner receiver point =>
    obtain rfl : owner = id := by simpa [isOwn] using hown
    exact stepFinished_own _ _ _ _ _ _ _ hstep
  | perform owner action point =>
    obtain rfl : owner = id := by simpa [isOwn] using hown
    exact stepPerform_own _ _ _ _ _ _ hother _ hstep
  | hosted owner handle point =>
    obtain rfl : owner = id := by simpa [isOwn] using hown
    exact stepHosted_own _ _ _ _ _ _ hstep
  | depart | start | host => cases hown

end FragmentLifecycle
