import FragmentLifecycle.Proofs.Growth

/-!
# The steps that change the host

The slots and the table of hosted fragments change by the steps of a start and by those
of a thread that hosts a fragment.  `HostStep` lists what such a step does, with the
frames it leaves behind; every step of a system is one of these
(`System.ReachableUnder.host_step`).  A start that waits for a slot may also be given up
(`System.ReachableUnder.hosting`).
-/

namespace FragmentLifecycle

/-- The frames of a start and of a thread that hosts a fragment. -/
def Frame.isHosting : Frame → Bool
  | .start _ _ _ | .hosted _ _ _ => true
  | _ => false

/-- What a step of a frame on `thread` does to the host, where `handle` tells the handle
of every executor: the frame, the signal it takes up, the host before, what follows on
the stack, the host after. -/
inductive HostStep (handle : ExecutorId → Handle) (thread : ThreadId) :
    Frame → Signal → Host → Next → Host → Prop
  -- the start
  | slotRequested {id refusal h} :
      HostStep handle thread (.start id refusal .requestSlot) .go h
        (.goto (.start id refusal .awaitSlot)) { h with slots := h.slots.request thread }
  | slotTaken {id refusal h} (hgranted : thread ∈ h.slots.granted) :
      HostStep handle thread (.start id refusal .awaitSlot) .go h
        (.goto (.start id refusal .register))
        { h with slots := { h.slots with granted := h.slots.granted.erase thread } }
  | duplicate {id refusal h owner} (hfound : h.executor? (handle id) = some owner) :
      HostStep handle thread (.start id refusal .register) .go h
        (.goto (.start id refusal .reject)) h
  | registered {id refusal h} (hfree : h.executor? (handle id) = none) :
      HostStep handle thread (.start id refusal .register) .go h
        (.goto (.start id refusal .spawn)) (h.insert (handle id) id)
  | rejected {id refusal h} :
      HostStep handle thread (.start id refusal .reject) .go h
        (.reply (.answer (.refused (alreadyRunning (handle id)))))
        { h with slots := h.slots.release }
  | spawned {id h} :
      HostStep handle thread (.start id none .spawn) .go h
        (.fork (.answer .started) (.hosted id (handle id) .start) id) h
  | spawnFailed {id reason h} :
      HostStep handle thread (.start id (some reason) .spawn) .go h
        (.goto (.start id (some reason) .withdraw)) { h with slots := h.slots.release }
  | withdrawn {id refusal h} :
      HostStep handle thread (.start id refusal .withdraw) .go h
        (.call (.start id refusal .cancelling) (.cancel id .lockSetup)) (h.remove (handle id))
  | startEnds {id refusal signal h next} (hends : next.frames = []) (hforked : next.forked = []) :
      HostStep handle thread (.start id refusal .cancelling) signal h next h
  -- the thread of a hosted fragment
  | runCalled {id handle' h} :
      HostStep handle thread (.hosted id handle' .start) .go h
        (.call (.hosted id handle' .running) (.run id none .start)) h
  | runReturned {id handle' reply h} :
      HostStep handle thread (.hosted id handle' .running) (.replied reply) h
        (.goto (.hosted id handle' .deregister)) h
  | runUnwound {id handle' payload h} :
      HostStep handle thread (.hosted id handle' .running) (.raised payload) h
        (.goto (.hosted id handle' (.releaseUnwound payload))) h
  | deregistered {id handle' h} :
      HostStep handle thread (.hosted id handle' .deregister) .go h
        (.goto (.hosted id handle' .releaseSlot)) (h.deregister handle')
  | slotReturned {id handle' h} :
      HostStep handle thread (.hosted id handle' .releaseSlot) .go h .done
        { h with slots := h.slots.release }
  | slotDropped {id handle' payload h} :
      HostStep handle thread (.hosted id handle' (.releaseUnwound payload)) .go h
        (.raise payload) { h with slots := h.slots.release }
  -- all other frames
  | aside {frame : Frame} {signal : Signal} {h : Host} {next : Next}
      (houtside : frame.isHosting = false) (hforked : next.forked = [])
      (hpushed : ∀ pushed ∈ next.frames, pushed.isHosting = false) :
      HostStep handle thread frame signal h next h

/-! ## The steps of all other frames -/

namespace World

variable (world : World) (id : ExecutorId) (thread : ThreadId)

@[simp]
theorem host_modify (change : Executor → Executor) :
    (world.modify id change).host = world.host := rfl

@[simp]
theorem host_note (notice : Notice) : (world.note notice).host = world.host := rfl

@[simp]
theorem host_record (entry : Entry) : (world.record id thread entry).host = world.host := rfl

@[simp]
theorem host_setPrincipal (principal : Option Principal) :
    (world.setPrincipal thread principal).host = world.host := rfl

@[simp]
theorem host_setToken (token : Bool) : (world.setToken thread token).host = world.host := rfl

@[simp]
theorem host_setHost (host : Host) : (world.setHost host).host = host := rfl

@[simp]
theorem host_wakeWorker : (world.wakeWorker id).host = world.host := by
  unfold wakeWorker
  split <;> rfl

theorem host_of_request {next : World} {target : State} {decision : Decision}
    (hrequest : world.request id thread target = (decision, next)) : next.host = world.host := by
  have hnext : next = (world.request id thread target).2 := by rw [hrequest]
  subst hnext
  simp only [request]
  split <;> rfl

end World

section Steps

variable (world : World) (view : LockView) (thread : ThreadId) (id : ExecutorId)
  (signal : Signal)

/-- The host as it was, and no new thread. -/
private def Hostless (result : World × Next) : Prop :=
  result.1.host = world.host ∧ result.2.forked = []

private theorem stepRun_hostless (listener : Option ListenerId) (point : RunPoint) :
    ∀ result ∈ stepRun world view thread id listener point signal, Hostless world result := by
  unfold stepRun
  split
  · fun_cases stepSetup world view thread id listener point signal <;> simp [Hostless]
    all_goals exact World.host_of_request _ _ _ ‹_›
  · split
    · fun_cases stepWindDown world thread id listener point signal <;> simp [Hostless]
      all_goals rfl
    · fun_cases stepDrive world thread id listener point signal <;> simp [Hostless]
      all_goals first
      | rfl
      | exact World.host_of_request _ _ _ ‹_›

private theorem stepCancel_hostless (point : CancelPoint) :
    ∀ result ∈ stepCancel world view thread id point signal, Hostless world result := by
  fun_cases stepCancel world view thread id point signal <;> simp [Hostless]
  all_goals exact World.host_of_request _ _ _ ‹_›

private theorem stepClose_hostless (point : ClosePoint) :
    ∀ result ∈ stepClose world view id point signal, Hostless world result := by
  fun_cases stepClose world view id point signal <;> simp [Hostless]

private theorem stepFail_hostless (cause : Fault) (point : FailPoint) :
    ∀ result ∈ stepFail world thread id cause point signal, Hostless world result := by
  fun_cases stepFail world thread id cause point signal <;> simp [Hostless]
  exact World.host_of_request _ _ _ rfl

private theorem stepCall_hostless (call : Call) (point : CallPoint) :
    ∀ result ∈ stepCall world thread id call point signal, Hostless world result := by
  have henter : Hostless world (stepEnter world thread id call) := by
    fun_cases stepEnter world thread id call <;> exact ⟨rfl, rfl⟩
  have houtcome (outcome : Outcome) :
      Hostless world (stepOutcome world thread id call outcome) := by
    cases outcome <;> exact ⟨rfl, rfl⟩
  fun_cases stepCall world thread id call point signal <;> simp [henter, houtcome]
  all_goals exact ⟨rfl, rfl⟩

private theorem stepPause_hostless (site : String) (point : PausePoint) :
    ∀ result ∈ stepPause world id site point signal, Hostless world result := by
  fun_cases stepPause world id site point signal <;> simp [Hostless]

private theorem stepFinished_hostless (receiver : Handle) (point : FinishedPoint) :
    ∀ result ∈ stepFinished world thread id receiver point signal, Hostless world result := by
  fun_cases stepFinished world thread id receiver point signal <;> simp [Hostless]

private theorem stepDepart_hostless (nodes : NodeSet) (point : DepartPoint) :
    ∀ result ∈ stepDepart world nodes point signal, Hostless world result := by
  fun_cases stepDepart world nodes point signal <;> simp [Hostless]

private theorem stepPerform_hostless (action : Action) (point : PerformPoint) :
    ∀ result ∈ stepPerform world thread id action point signal, Hostless world result := by
  have hstart : Hostless world (startAction world thread id action) := by
    fun_cases startAction world thread id action <;> exact ⟨rfl, rfl⟩
  fun_cases stepPerform world thread id action point signal <;> simp [hstart]
  all_goals exact ⟨rfl, rfl⟩

private theorem stepHost_hostless (call : HostCall) (point : HostPoint) :
    ∀ result ∈ stepHost world call point signal, Hostless world result := by
  have hstart : Hostless world (startHostCall world call) := by
    cases call <;> simp only [startHostCall] <;> (try split) <;> exact ⟨rfl, rfl⟩
  fun_cases stepHost world call point signal <;> simp [hstart]
  all_goals exact ⟨rfl, rfl⟩

end Steps

/-! ## The list is complete -/

section Complete

variable {world after : World} {view : LockView} {thread : ThreadId} {signal : Signal}
  {frame : Frame} {next : Next}

theorem Frame.isHosting_of_role {other : Frame} (hrole : other.role = frame.role) :
    other.isHosting = frame.isHosting := by
  cases frame <;> cases other <;> first | rfl | cases hrole

/-- A start and a thread of a fragment are called by nobody. -/
theorem Frame.Awaits.not_hosting {callee : Frame} (hawaits : frame.Awaits callee.role) :
    callee.isHosting = false := by
  cases callee with
  | start | hosted =>
    cases hawaits with
    | @entry _ action _ hentry => cases action <;> cases hentry
  | _ => rfl

private theorem aside_of_hostless (handle : ExecutorId → Handle)
    (houtside : frame.isHosting = false) (hlinks : next.Links frame.role)
    (hhostless : Hostless world (after, next)) :
    HostStep handle thread frame signal world.host next after.host := by
  obtain ⟨hhost, hforked⟩ := hhostless
  dsimp only at hhost hforked
  rw [hhost]
  refine .aside houtside hforked fun pushed hmem => ?_
  cases next with
  | goto resumed =>
    obtain rfl := List.mem_singleton.mp hmem
    rw [Frame.isHosting_of_role hlinks, houtside]
  | call resumed callee =>
    obtain rfl | rfl : pushed = callee ∨ pushed = resumed := by simpa using hmem
    · exact hlinks.2.not_hosting
    · rw [Frame.isHosting_of_role hlinks.1, houtside]
  | reply | raise | fork => cases hmem

private theorem stepStart_host {id : ExecutorId} {refusal : Option String} {point : StartPoint}
    (hstep : stepStart world thread id refusal point signal = some (after, next)) :
    HostStep (fun id => (world.executors id).handle) thread (.start id refusal point) signal
      world.host next after.host := by
  revert hstep
  fun_cases stepStart world thread id refusal point signal
  all_goals
    intro hstep
    simp only [reduceCtorEq, Option.some.injEq, Prod.mk.injEq, Option.map_eq_some_iff] at hstep
  case case2 =>
    obtain ⟨slots, htaken, rfl, rfl⟩ := hstep
    rw [Slots.take?] at htaken
    split at htaken
    · rename_i hgranted
      obtain rfl := Option.some.inj htaken
      exact .slotTaken hgranted
    · cases htaken
  all_goals
    obtain ⟨rfl, rfl⟩ := hstep
    first
    | exact .duplicate ‹_›
    | exact .registered ‹_›
    | exact .startEnds rfl rfl
    | constructor

private theorem stepHosted_host (handle : ExecutorId → Handle) {id : ExecutorId}
    {handle' : Handle} {point : HostedPoint}
    (hstep : stepHosted world id handle' point signal = some (after, next)) :
    HostStep handle thread (.hosted id handle' point) signal world.host next after.host := by
  revert hstep
  fun_cases stepHosted world id handle' point signal
  all_goals
    intro hstep
    simp only [reduceCtorEq, Option.some.injEq, Prod.mk.injEq] at hstep
  all_goals
    obtain ⟨rfl, rfl⟩ := hstep
    constructor

/-- Every step of a frame is in the list. -/
theorem Frame.step_host (hstep : frame.step world view thread signal = some (after, next)) :
    HostStep (fun id => (world.executors id).handle) thread frame signal world.host next
      after.host := by
  have hlinks := Frame.step_links hstep
  cases frame with
  | run owner listener point =>
    exact aside_of_hostless _ rfl hlinks (stepRun_hostless _ _ _ _ _ _ _ _ hstep)
  | cancel owner point =>
    exact aside_of_hostless _ rfl hlinks (stepCancel_hostless _ _ _ _ _ _ _ hstep)
  | closeResources owner point =>
    exact aside_of_hostless _ rfl hlinks (stepClose_hostless _ _ _ _ _ _ hstep)
  | fail owner cause point =>
    exact aside_of_hostless _ rfl hlinks (stepFail_hostless _ _ _ _ _ _ _ hstep)
  | call owner target point =>
    exact aside_of_hostless _ rfl hlinks (stepCall_hostless _ _ _ _ _ _ _ hstep)
  | pause owner site point =>
    exact aside_of_hostless _ rfl hlinks (stepPause_hostless _ _ _ _ _ _ hstep)
  | finished owner receiver point =>
    exact aside_of_hostless _ rfl hlinks (stepFinished_hostless _ _ _ _ _ _ _ hstep)
  | depart nodes point =>
    exact aside_of_hostless _ rfl hlinks (stepDepart_hostless _ _ _ _ _ hstep)
  | perform owner action point =>
    exact aside_of_hostless _ rfl hlinks (stepPerform_hostless _ _ _ _ _ _ _ hstep)
  | start owner refusal point => exact stepStart_host hstep
  | hosted owner handle point => exact stepHosted_host _ hstep
  | host message point =>
    exact aside_of_hostless _ rfl hlinks (stepHost_hostless _ _ _ _ _ hstep)

end Complete

/-! ## Moves of a system -/

/-- The handle of an executor, which never changes. -/
def handleIn (fragments : List Fragment) (id : ExecutorId) : Handle :=
  ((fragments[id]?).getD .vacant).identity.handle

namespace System

/-- A call that waits for a slot or for idleness is given up. -/
structure GivesUp (system after : System) (thread : ThreadId) (root : Frame) : Prop where
  turnover : system.Turnover after thread root
  frames : system.frames thread = [root]
  own : after.stack thread = { system.stack thread with frames := [] }
  others : ∀ other, other ≠ thread → after.stack other = system.stack other
  host : (∃ id refusal, root = .start id refusal .awaitSlot ∧ after.world.host =
      { system.world.host with slots := system.world.host.slots.withdraw thread }) ∨
    (root.isHosting = false ∧ after.world.host = system.world.host)

theorem stack_of_call (system : System) (command : Command) :
    (system.call command).stack system.threads.length = { frames := [command.frame] } ∧
      system.stack system.threads.length = { frames := [] } ∧
      ∀ other, other ≠ system.threads.length →
        (system.call command).stack other = system.stack other := by
  refine ⟨by simp [stack, call], by simp [stack], fun other hother => ?_⟩
  rcases Nat.lt_or_gt_of_ne hother with hlt | hgt
  · simp [stack, call, List.getElem?_append_left hlt]
  · simp [stack, call, List.getElem?_append_right (Nat.le_of_lt hgt),
      List.getElem?_eq_none (Nat.le_of_lt hgt), Nat.sub_ne_zero_of_lt hgt]

theorem givesUp_of_abandon {system after : System} {thread : ThreadId}
    (hmove : system.abandon thread = some after) : ∃ root, system.GivesUp after thread root := by
  obtain ⟨root, hturn, hgone⟩ := turnover_of_abandon hmove
  obtain ⟨stack, hstack, hmove⟩ := Option.bind_eq_some_iff.mp hmove
  have hlt : thread < system.threads.length := (List.getElem?_eq_some_iff.mp hstack).1
  have hown : system.stack thread = stack := by simp [System.stack, hstack]
  have hframes : system.frames thread = [root] :=
    hturn.own.elim (fun hbegun => by simp [hbegun.2.1] at hgone) And.left
  obtain ⟨hthreads, hhost⟩ :
      after.threads = system.threads.set thread { stack with frames := [] } ∧
        ((∃ id refusal, root = .start id refusal .awaitSlot ∧ after.world.host =
            { system.world.host with slots := system.world.host.slots.withdraw thread }) ∨
          (root.isHosting = false ∧ after.world.host = system.world.host)) := by
    have hroot : stack.frames = [root] := by rw [← hframes, System.frames, hown]
    simp only [hroot] at hmove
    split at hmove
    · rename_i id refusal hstart
      obtain rfl := Option.some.inj hmove
      exact ⟨rfl, .inl ⟨id, refusal, (List.cons.inj hstart).1, rfl⟩⟩
    · rename_i signals hasleep
      obtain rfl := Option.some.inj hmove
      obtain rfl := (List.cons.inj hasleep).1
      exact ⟨rfl, .inr ⟨rfl, rfl⟩⟩
    · cases hmove
  refine ⟨root, hturn, hframes, ?_, fun other hother => ?_, hhost⟩
  · rw [System.stack, hthreads, List.getElem?_set_self hlt, hown, Option.getD_some]
  · simp [System.stack, hthreads, List.getElem?_set_ne hother.symm]

section Induction

variable {fragments : List Fragment} {host : Host} {permitted : Command → Prop}
  {system after : System} {thread : ThreadId} {frame : Frame} {rest : List Frame} {next : Next}

theorem ReachableUnder.handle_eq
    (hreach : (ofFragments fragments host).ReachableUnder permitted system) (id : ExecutorId) :
    (system.executor id).handle = handleIn fragments id := by
  rw [Executor.handle, hreach.fragment_eq, handleIn]

theorem ReachableUnder.host_step
    (hreach : (ofFragments fragments host).ReachableUnder permitted system)
    (hadvance : system.Advance after thread frame rest next) :
    HostStep (handleIn fragments) thread frame (system.signal thread) system.world.host next
      after.world.host := by
  have hhandle : (fun id => (system.world.executors id).handle) = handleIn fragments :=
    funext hreach.handle_eq
  rw [← hhandle]
  exact Frame.step_host hadvance.step

/-- A start and a thread of a fragment stand at the bottom of their stacks. -/
theorem ReachableUnder.frames_of_hosting
    (hreach : (ofFragments fragments host).ReachableUnder permitted system)
    (hframes : system.frames thread = frame :: rest) (hhosting : frame.isHosting = true) :
    rest = [] := by
  have hlinked := hframes ▸ hreach.linked thread
  cases rest with
  | nil => rfl
  | cons caller below =>
    rw [hlinked.1.not_hosting] at hhosting
    cases hhosting

/-- A fact about the whole system, with what every move does to the host, that holds from
a reachable system on. -/
theorem ReachableUnder.hosting_since (holds : System → Prop) {start : System}
    (hreach : (ofFragments fragments host).ReachableUnder permitted start)
    (hstart : holds start)
    (hcall : ∀ {system : System} (command : Command),
      (ofFragments fragments host).ReachableUnder permitted system → permitted command →
      holds system → holds (system.call command))
    (hgiven : ∀ {system after : System} {thread root},
      (ofFragments fragments host).ReachableUnder permitted system →
      system.GivesUp after thread root → holds system → holds after)
    (hstep : ∀ {system after : System} {thread frame rest next},
      (ofFragments fragments host).ReachableUnder permitted system →
      system.step thread = some after → system.Advance after thread frame rest next →
      HostStep (handleIn fragments) thread frame (system.signal thread) system.world.host next
        after.world.host → holds system → holds after)
    (hlater : start.ReachableUnder permitted system) : holds system := by
  induction hlater with
  | refl => exact hstart
  | @move system after move hpermitted hlater hmove ih =>
    cases move with
    | step thread =>
      obtain ⟨frame, rest, next, hadvance⟩ := advance_of_step hmove
      exact hstep (hreach.trans hlater) hmove hadvance
        ((hreach.trans hlater).host_step hadvance) ih
    | call command =>
      obtain rfl := Option.some.inj hmove
      exact hcall command (hreach.trans hlater) hpermitted ih
    | abandon thread =>
      obtain ⟨root, hgives⟩ := givesUp_of_abandon hmove
      exact hgiven (hreach.trans hlater) hgives ih

/-- `hosting_since` from the start on. -/
theorem ReachableUnder.hosting (holds : System → Prop)
    (hstart : holds (ofFragments fragments host))
    (hcall : ∀ {system : System} (command : Command),
      (ofFragments fragments host).ReachableUnder permitted system → permitted command →
      holds system → holds (system.call command))
    (hgiven : ∀ {system after : System} {thread root},
      (ofFragments fragments host).ReachableUnder permitted system →
      system.GivesUp after thread root → holds system → holds after)
    (hstep : ∀ {system after : System} {thread frame rest next},
      (ofFragments fragments host).ReachableUnder permitted system →
      system.step thread = some after → system.Advance after thread frame rest next →
      HostStep (handleIn fragments) thread frame (system.signal thread) system.world.host next
        after.world.host → holds system → holds after)
    (hreach : (ofFragments fragments host).ReachableUnder permitted system) : holds system :=
  ReachableUnder.hosting_since holds .refl hstart hcall hgiven hstep hreach

/-- What a step changes in the sum of a weight over all frames. -/
theorem Advance.total_step (hadvance : system.Advance after thread frame rest next)
    (weight : Frame → Nat) :
    after.total weight + weight frame =
      system.total weight + (next.frames.map weight).sum + (next.forked.map weight).sum := by
  have hweigh := hadvance.weigh (fun frames _ => (frames.map weight).sum) rfl
  simp only [List.map_cons, List.sum_cons, List.map_append, List.sum_append] at hweigh
  simp only [total]
  omega

theorem total_call (weight : Frame → Nat) (command : Command)
    (hweight : weight command.frame = 0) :
    (system.call command).total weight = system.total weight :=
  (turnover_of_call system command).weigh _ (fun _ => rfl) fun _ => by simp [hweight]

theorem GivesUp.total {root : Frame} (hgives : system.GivesUp after thread root)
    (weight : Frame → Nat) (hweight : weight root = 0) :
    after.total weight = system.total weight :=
  hgives.turnover.weigh _ (fun _ => rfl) fun _ => by simp [hweight]

end Induction

end System

end FragmentLifecycle
