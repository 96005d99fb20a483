import FragmentLifecycle.Proofs.Reachability
import FragmentLifecycle.Proofs.SharedState

/-!
# The principal of a thread

A run works as the principal of its fragment and restores the one that was there before; a
scoped body does the same.  So the principal that a thread comes back to when its innermost
frames have ended is the same all the time (`Frame.step_principal`), and no step touches the
principal of another thread.
-/

namespace FragmentLifecycle

namespace Scope

/-- An item leaves the principal as it found it. -/
theorem run_principal (current : Option Principal) (item : Scope) :
    (run current item).principal = current := by
  cases item with
  | readCurrent | panics | onThread => simp only [run]
  | runAs principal body caught =>
    simp only [run]
    split <;> rfl

theorem runAll_principal (current : Option Principal) (body : List Scope) :
    (runAll current body).principal = current := by
  induction body generalizing current with
  | nil => simp only [runAll]
  | cons item rest ih =>
    simp only [runAll, Run.andThen]
    split
    · exact run_principal current item
    · exact (ih _).trans (run_principal current item)

end Scope

/-- The principal that a frame restores. -/
def Frame.previous? : Frame → Option (Option Principal)
  | .run _ _ (.pausing previous) | .run _ _ (.fetchTree previous) | .run _ _ (.check previous)
  | .run _ _ (.advancing previous) | .run _ _ (.restorePrincipal previous _) => some previous
  | _ => none

/-- The principal that a thread comes back to when `frames` have ended. -/
def ambient (frames : List Frame) (current : Option Principal) : Option Principal :=
  frames.foldl (fun principal frame => frame.previous?.getD principal) current

@[simp]
theorem ambient_nil (current : Option Principal) : ambient [] current = current := rfl

@[simp]
theorem ambient_cons (frame : Frame) (rest : List Frame) (current : Option Principal) :
    ambient (frame :: rest) current = ambient rest (frame.previous?.getD current) := rfl

theorem ambient_append (first second : List Frame) (current : Option Principal) :
    ambient (first ++ second) current = ambient second (ambient first current) :=
  List.foldl_append

namespace World

variable (world : World) (id : ExecutorId) (thread : ThreadId)

@[simp]
theorem principals_modify (change : Executor → Executor) :
    (world.modify id change).principals = world.principals := rfl

@[simp]
theorem principals_note (notice : Notice) :
    (world.note notice).principals = world.principals := rfl

@[simp]
theorem principals_record (entry : Entry) :
    (world.record id thread entry).principals = world.principals := rfl

@[simp]
theorem principals_setToken (token : Bool) :
    (world.setToken thread token).principals = world.principals := rfl

@[simp]
theorem principals_setHost (host : Host) :
    (world.setHost host).principals = world.principals := rfl

@[simp]
theorem principals_wakeWorker : (world.wakeWorker id).principals = world.principals := by
  unfold wakeWorker
  split <;> rfl

@[simp]
theorem principals_snd_request (target : State) :
    (world.request id thread target).2.principals = world.principals := by
  simp only [request]
  split <;> rfl

theorem principals_of_request {next : World} {target : State} {decision : Decision}
    (hrequest : world.request id thread target = (decision, next)) :
    next.principals = world.principals := by
  have hnext : next = (world.request id thread target).2 := by rw [hrequest]
  rw [hnext, principals_snd_request]

end World

section Steps

variable (world : World) (view : LockView) (thread : ThreadId) (id : ExecutorId)
  (signal : Signal)

/-- A step of `frame` leaves the principals of other threads, and the one that its own thread
comes back to after the frame. -/
private def Restores (frame : Frame) (result : World × Next) : Prop :=
  (∀ other, other ≠ thread → result.1.principals other = world.principals other) ∧
    ambient result.2.frames (result.1.principals thread) =
      ambient [frame] (world.principals thread)

private theorem Restores.of_same {world : World} {thread : ThreadId} {frame : Frame}
    {result : World × Next} (hsame : result.1.principals = world.principals)
    (hframes : ambient result.2.frames (world.principals thread) =
      ambient [frame] (world.principals thread)) : Restores world thread frame result :=
  ⟨fun other _ => congrFun hsame other, by rw [hsame, hframes]⟩

private theorem stepRun_restores (listener : Option ListenerId) (point : RunPoint) :
    ∀ result ∈ stepRun world view thread id listener point signal,
      Restores world thread (.run id listener point) result := by
  unfold stepRun
  split
  · fun_cases stepSetup world view thread id listener point signal
    all_goals rintro _ ⟨⟩
    all_goals first
    | exact .of_same rfl rfl
    | exact .of_same (World.principals_of_request _ _ _ ‹_›) rfl
  · split
    · fun_cases stepWindDown world thread id listener point signal
      all_goals rintro _ ⟨⟩
      all_goals exact .of_same rfl rfl
    · fun_cases stepDrive world thread id listener point signal
      all_goals rintro _ ⟨⟩
      all_goals first
      | exact .of_same rfl rfl
      | exact .of_same (World.principals_of_request _ _ _ ‹_›) rfl
      | -- the run takes its own principal, or gives back the one before
        refine ⟨fun other hother => overwrite_of_ne _ _ hother, ?_⟩
        first
        | rfl
        | exact overwrite_self _ _ _

private theorem stepCancel_restores (point : CancelPoint) :
    ∀ result ∈ stepCancel world view thread id point signal,
      Restores world thread (.cancel id point) result := by
  fun_cases stepCancel world view thread id point signal
  all_goals rintro _ ⟨⟩
  all_goals first
  | exact .of_same rfl rfl
  | exact .of_same (World.principals_of_request _ _ _ ‹_›) rfl
  | exact .of_same (World.principals_wakeWorker _ _) rfl

private theorem stepClose_restores (point : ClosePoint) :
    ∀ result ∈ stepClose world view id point signal,
      Restores world thread (.closeResources id point) result := by
  fun_cases stepClose world view id point signal
  all_goals rintro _ ⟨⟩
  all_goals exact .of_same rfl rfl

private theorem stepFail_restores (cause : Fault) (point : FailPoint) :
    ∀ result ∈ stepFail world thread id cause point signal,
      Restores world thread (.fail id cause point) result := by
  fun_cases stepFail world thread id cause point signal
  all_goals rintro _ ⟨⟩
  all_goals first
  | exact .of_same rfl rfl
  | exact .of_same (World.principals_snd_request _ _ _ _) rfl

private theorem stepCall_restores (call : Call) (point : CallPoint) :
    ∀ result ∈ stepCall world thread id call point signal,
      Restores world thread (.call id call point) result := by
  have henter : Restores world thread (.call id call .enter) (stepEnter world thread id call) := by
    fun_cases stepEnter world thread id call <;> exact .of_same rfl rfl
  have houtcome (outcome : Outcome) : Restores world thread (.call id call (.play []))
      (stepOutcome world thread id call outcome) := by
    cases outcome <;> exact .of_same rfl rfl
  fun_cases stepCall world thread id call point signal
  all_goals rintro _ ⟨⟩
  all_goals first
  | exact henter
  | exact houtcome _
  | exact .of_same rfl rfl

private theorem stepPause_restores (site : String) (point : PausePoint) :
    ∀ result ∈ stepPause world id site point signal,
      Restores world thread (.pause id site point) result := by
  fun_cases stepPause world id site point signal
  all_goals rintro _ ⟨⟩
  all_goals exact .of_same rfl rfl

private theorem stepFinished_restores (receiver : Handle) (point : FinishedPoint) :
    ∀ result ∈ stepFinished world thread id receiver point signal,
      Restores world thread (.finished id receiver point) result := by
  fun_cases stepFinished world thread id receiver point signal
  all_goals rintro _ ⟨⟩
  all_goals exact .of_same rfl rfl

private theorem stepDepart_restores (nodes : NodeSet) (point : DepartPoint) :
    ∀ result ∈ stepDepart world nodes point signal,
      Restores world thread (.depart nodes point) result := by
  fun_cases stepDepart world nodes point signal
  all_goals rintro _ ⟨⟩
  all_goals exact .of_same rfl rfl

private theorem stepPerform_restores (action : Action) (point : PerformPoint) :
    ∀ result ∈ stepPerform world thread id action point signal,
      Restores world thread (.perform id action point) result := by
  have hstart : Restores world thread (.perform id action .start)
      (startAction world thread id action) := by
    fun_cases startAction world thread id action
    all_goals first
    | exact .of_same rfl rfl
    | -- a scoped body
      refine ⟨fun other hother => overwrite_of_ne _ _ hother, ?_⟩
      exact (overwrite_self _ _ _).trans (Scope.runAll_principal _ _)
  fun_cases stepPerform world thread id action point signal
  all_goals rintro _ ⟨⟩
  all_goals first
  | exact hstart
  | exact .of_same rfl rfl

private theorem stepStart_restores (refusal : Option String) (point : StartPoint) :
    ∀ result ∈ stepStart world thread id refusal point signal,
      Restores world thread (.start id refusal point) result := by
  fun_cases stepStart world thread id refusal point signal
  all_goals intro result hresult
  case case2 =>
    obtain ⟨slots, -, rfl⟩ := Option.map_eq_some_iff.mp hresult
    exact .of_same rfl rfl
  all_goals cases hresult
  all_goals exact .of_same rfl rfl

private theorem stepHosted_restores (handle : Handle) (point : HostedPoint) :
    ∀ result ∈ stepHosted world id handle point signal,
      Restores world thread (.hosted id handle point) result := by
  fun_cases stepHosted world id handle point signal
  all_goals rintro _ ⟨⟩
  all_goals exact .of_same rfl rfl

private theorem stepHost_restores (call : HostCall) (point : HostPoint) :
    ∀ result ∈ stepHost world call point signal,
      Restores world thread (.host call point) result := by
  have hstart : Restores world thread (.host call .start) (startHostCall world call) := by
    cases call <;> simp only [startHostCall] <;> (try split) <;> exact .of_same rfl rfl
  fun_cases stepHost world call point signal
  all_goals rintro _ ⟨⟩
  all_goals first
  | exact hstart
  | exact .of_same rfl rfl

end Steps

/-- A step leaves the principals of other threads, and the one that its own thread comes back
to when the frame has ended. -/
theorem Frame.step_principal {world after : World} {view : LockView} {thread : ThreadId}
    {signal : Signal} {frame : Frame} {next : Next}
    (hstep : frame.step world view thread signal = some (after, next)) :
    (∀ other, other ≠ thread → after.principals other = world.principals other) ∧
      ambient next.frames (after.principals thread) =
        ambient [frame] (world.principals thread) := by
  cases frame with
  | run owner listener point => exact stepRun_restores _ _ _ _ _ _ _ _ hstep
  | cancel owner point => exact stepCancel_restores _ _ _ _ _ _ _ hstep
  | closeResources owner point => exact stepClose_restores _ _ _ _ _ _ _ hstep
  | fail owner cause point => exact stepFail_restores _ _ _ _ _ _ _ hstep
  | call owner target point => exact stepCall_restores _ _ _ _ _ _ _ hstep
  | pause owner site point => exact stepPause_restores _ _ _ _ _ _ _ hstep
  | finished owner receiver point => exact stepFinished_restores _ _ _ _ _ _ _ hstep
  | depart nodes point => exact stepDepart_restores _ _ _ _ _ _ hstep
  | perform owner action point => exact stepPerform_restores _ _ _ _ _ _ _ hstep
  | start owner refusal point => exact stepStart_restores _ _ _ _ _ _ _ hstep
  | hosted owner handle point => exact stepHosted_restores _ _ _ _ _ _ _ hstep
  | host message point => exact stepHost_restores _ _ _ _ _ _ hstep

namespace System

/-- A call that is given up leaves the principals, and threads keep their numbers. -/
theorem principals_of_abandon {system after : System} {thread : ThreadId}
    (hmove : system.abandon thread = some after) :
    after.world.principals = system.world.principals ∧
      after.threads.length = system.threads.length := by
  obtain ⟨stack, -, hmove⟩ := Option.bind_eq_some_iff.mp hmove
  dsimp only at hmove
  split at hmove
  all_goals obtain ⟨⟩ := hmove
  all_goals exact ⟨rfl, List.length_set⟩

/-- A thread that has not begun has no principal. -/
theorem ReachableUnder.principal_of_unborn {fragments : List Fragment} {host : Host}
    {permitted : Command → Prop} {system : System}
    (hreach : (ofFragments fragments host).ReachableUnder permitted system) {thread : ThreadId}
    (hunborn : system.threads.length ≤ thread) : system.world.principals thread = none := by
  induction hreach with
  | refl => rfl
  | @move system after move _ _ hmove ih =>
    cases move with
    | step mover =>
      obtain ⟨frame, rest, next, hadvance⟩ := advance_of_step hmove
      have hlength := hadvance.length_threads hmove
      have hmover : mover < system.threads.length := by
        by_contra hbeyond
        have hnone := hadvance.frames
        rw [System.frames, stack, List.getElem?_eq_none (Nat.le_of_not_lt hbeyond)] at hnone
        cases hnone
      have hbefore : system.threads.length ≤ thread :=
        Nat.le_trans (hlength ▸ Nat.le_add_right _ _) hunborn
      have hother : thread ≠ mover := Nat.ne_of_gt (Nat.lt_of_lt_of_le hmover hbefore)
      rw [(Frame.step_principal hadvance.step).1 thread hother]
      exact ih hbefore
    | call command =>
      obtain rfl := Option.some.inj hmove
      rw [System.call, List.length_append] at hunborn
      exact ih (Nat.le_of_succ_le hunborn)
    | abandon mover =>
      obtain ⟨hsame, hlength⟩ := principals_of_abandon hmove
      rw [hsame]
      exact ih (hlength ▸ hunborn)

end System

end FragmentLifecycle
