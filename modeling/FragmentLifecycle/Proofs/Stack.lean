import FragmentLifecycle.Proofs.Transition

/-!
# Stacks of frames

A frame that called another one waits for it: what it waits for follows from its own
point.  So the stack of every thread is linked from the outermost frame to the
innermost, in every reachable system (`System.ReachableUnder.linked`).
-/

namespace FragmentLifecycle

/-! ## Roles -/

/-- A frame without the point it has reached. -/
inductive Role where
  | run (id : ExecutorId)
  | cancel (id : ExecutorId)
  | closeResources (id : ExecutorId)
  | fail (id : ExecutorId) (cause : Fault)
  | call (id : ExecutorId) (call : Call)
  | pause (id : ExecutorId) (site : String)
  | finished (id : ExecutorId) (receiver : Handle)
  | depart (nodes : NodeSet)
  | perform (id : ExecutorId) (action : Action)
  | start (id : ExecutorId) (refusal : Option String)
  | hosted (id : ExecutorId) (handle : Handle)
  | host (call : HostCall)

def Frame.role : Frame → Role
  | .run id _ _ => .run id
  | .cancel id _ => .cancel id
  | .closeResources id _ => .closeResources id
  | .fail id cause _ => .fail id cause
  | .call id target _ => .call id target
  | .pause id site _ => .pause id site
  | .finished id receiver _ => .finished id receiver
  | .depart nodes _ => .depart nodes
  | .perform id action _ => .perform id action
  | .start id refusal _ => .start id refusal
  | .hosted id handle _ => .hosted id handle
  | .host message _ => .host message

/-- The roles of the outermost frame of a thread. -/
def Role.isRoot : Role → Bool
  | .perform _ _ | .depart _ | .start _ _ | .hosted _ _ | .host _ => true
  | _ => false

theorem Frame.outside_of_isRoot {frame : Frame} (id : ExecutorId)
    (hroot : frame.role.isRoot = true) : frame.isCore id = false := by
  cases frame <;> first | rfl | cases hroot

section Roles

variable {frame : Frame} {id : ExecutorId}

theorem Frame.eq_run_of_role (hrole : frame.role = .run id) :
    ∃ l point, frame = .run id l point := by
  cases frame <;> simp_all [Frame.role]

theorem Frame.eq_closeResources_of_role (hrole : frame.role = .closeResources id) :
    ∃ point, frame = .closeResources id point := by
  cases frame <;> simp_all [Frame.role]

theorem Frame.eq_cancel_of_role (hrole : frame.role = .cancel id) :
    ∃ point, frame = .cancel id point := by
  cases frame <;> simp_all [Frame.role]

theorem Frame.eq_fail_of_role {cause : Fault} (hrole : frame.role = .fail id cause) :
    ∃ point, frame = .fail id cause point := by
  cases frame <;> simp_all [Frame.role]

theorem Frame.eq_call_of_role {call : Call} (hrole : frame.role = .call id call) :
    ∃ point, frame = .call id call point := by
  cases frame <;> simp_all [Frame.role]

theorem Frame.eq_perform_of_role {action : Action} (hrole : frame.role = .perform id action) :
    ∃ point, frame = .perform id action point := by
  cases frame <;> simp_all [Frame.role]

end Roles

/-- The entry point that an action calls. -/
def Action.entry? (id : ExecutorId) : Action → Option Role
  | .run => some (.run id)
  | .cancel => some (.cancel id)
  | .closeContext => some (.call id .closeContext)
  | .finished receiver => some (.finished id receiver)
  | .fail cause | .heldFail cause => some (.fail id cause)
  | .pause site => some (.pause id site)
  | .depart nodes => some (.depart nodes)
  | _ => none

theorem Action.entry?_eq_call {action : Action} {id owner : ExecutorId} {call : Call}
    (hentry : action.entry? id = some (.call owner call)) :
    action = .closeContext ∧ owner = id ∧ call = .closeContext := by
  cases action <;> simp_all [Action.entry?]

/-- What a frame waits for. -/
inductive Frame.Awaits : Frame → Role → Prop
  | build {id l} : Awaits (.run id l .building) (.call id .build)
  | running {id l} : Awaits (.run id l .announcing) (.call id (.stateChanged .running))
  | pause {id l previous} : Awaits (.run id l (.pausing previous)) (.pause id pauseSite)
  | next {id l previous index} :
      Awaits (.run id l (.advancing previous)) (.call id (.next index))
  | alarm {id l exhaustion} :
      Awaits (.run id l (.alarming exhaustion)) (.call id (.exhausted exhaustion))
  | failure {id l cause} : Awaits (.run id l .recording) (.fail id cause)
  | close {id l} : Awaits (.run id l .closing) (.closeResources id)
  | stateReport {id l state} : Awaits (.run id l .reporting) (.call id (.stateChanged state))
  | failureReport {id l report} : Awaits (.run id l .reporting) (.call id (.fail report))
  | cancelClose {id} : Awaits (.cancel id .closing) (.closeResources id)
  | cancelReport {id} :
      Awaits (.cancel id .announcing) (.call id (.stateChanged .cancellationRequested))
  | closeRoot {id} : Awaits (.closeResources id .closingRoot) (.call id .closeRoot)
  | closeFailure {id cause} : Awaits (.closeResources id .recording) (.fail id cause)
  | closeContext {id} : Awaits (.closeResources id .closingContext) (.call id .closeContext)
  | action {id call action rest} :
      Awaits (.call id call (.acting action rest)) (.perform id action)
  | entry {id action role} (hentry : action.entry? id = some role) :
      Awaits (.perform id action .waiting) role
  | departure {nodes rest id} : Awaits (.depart nodes (.cancelling rest)) (.cancel id)
  | withdrawal {id refusal} : Awaits (.start id refusal .cancelling) (.cancel id)
  | hosted {id handle} : Awaits (.hosted id handle .running) (.run id)
  | hostCancel {call id} : Awaits (.host call .waiting) (.cancel id)
  | hostUnpause {call id} : Awaits (.host call .waiting) (.perform id .unpause)
  | hostFinished {call id receiver} : Awaits (.host call .waiting) (.finished id receiver)
  | hostWalk {call rest id} : Awaits (.host call (.walk rest)) (.cancel id)

/-- Every frame of a stack is awaited by the frame below it, down to a root. -/
def Linked : List Frame → Prop
  | [] => True
  | [frame] => frame.role.isRoot = true
  | callee :: caller :: rest => caller.Awaits callee.role ∧ Linked (caller :: rest)

/-- A step keeps the role of the frame it goes on with, and calls what that frame then
waits for. -/
def Next.Links (role : Role) : Next → Prop
  | .goto frame => frame.role = role
  | .call frame callee => frame.role = role ∧ frame.Awaits callee.role
  | .fork _ frame _ => ∃ id handle, frame.role = .hosted id handle
  | .reply _ => True
  | .raise _ => True

section Links

variable {world after : World} {view : LockView} {thread : ThreadId} {signal : Signal}
  {next : Next}

variable {id : ExecutorId}

private theorem stepSetup_links {listener : Option ListenerId} {point : RunPoint}
    (hstep : stepSetup world view thread id listener point signal = some (after, next)) :
    next.Links (.run id) := by
  revert hstep
  fun_cases stepSetup world view thread id listener point signal
  all_goals
    intro hstep
    simp only [reduceCtorEq, Option.some.injEq, Prod.mk.injEq] at hstep
  case case13 hrequest =>
    obtain ⟨-, rfl⟩ := hstep
    have hdecision := (World.request_eq hrequest).1
    rw [State.decide_running] at hdecision
    split at hdecision <;> simp only [Decision.accept.injEq, reduceCtorEq] at hdecision
    rw [← hdecision.1]
    exact ⟨rfl, .running⟩
  all_goals
    obtain ⟨-, rfl⟩ := hstep
    first
    | trivial
    | exact rfl
    | exact ⟨rfl, by constructor⟩

private theorem stepDrive_links {listener : Option ListenerId} {point : RunPoint}
    (hstep : stepDrive world thread id listener point signal = some (after, next)) :
    next.Links (.run id) := by
  revert hstep
  fun_cases stepDrive world thread id listener point signal
  all_goals
    intro hstep
    simp only [reduceCtorEq, Option.some.injEq, Prod.mk.injEq] at hstep
  all_goals
    obtain ⟨-, rfl⟩ := hstep
    first
    | trivial
    | exact rfl
    | exact ⟨rfl, by constructor⟩

private theorem stepWindDown_links {listener : Option ListenerId} {point : RunPoint}
    (hstep : stepWindDown world thread id listener point signal = some (after, next)) :
    next.Links (.run id) := by
  revert hstep
  fun_cases stepWindDown world thread id listener point signal
  all_goals
    intro hstep
    simp only [reduceCtorEq, Option.some.injEq, Prod.mk.injEq] at hstep
  all_goals
    obtain ⟨-, rfl⟩ := hstep
    first
    | trivial
    | exact rfl
    | exact ⟨rfl, by constructor⟩

private theorem stepCancel_links {point : CancelPoint}
    (hstep : stepCancel world view thread id point signal = some (after, next)) :
    next.Links (.cancel id) := by
  revert hstep
  fun_cases stepCancel world view thread id point signal
  all_goals
    intro hstep
    simp only [reduceCtorEq, Option.some.injEq, Prod.mk.injEq] at hstep
  case case9 hrequest =>
    obtain ⟨-, rfl⟩ := hstep
    have hdecision := (World.request_eq hrequest).1
    rw [State.decide_cancellationRequested] at hdecision
    split at hdecision <;> simp only [Decision.accept.injEq, reduceCtorEq] at hdecision
    rw [← hdecision.1]
    exact ⟨rfl, .cancelReport⟩
  all_goals
    obtain ⟨-, rfl⟩ := hstep
    first
    | trivial
    | exact rfl
    | exact ⟨rfl, by constructor⟩

private theorem stepClose_links {point : ClosePoint}
    (hstep : stepClose world view id point signal = some (after, next)) :
    next.Links (.closeResources id) := by
  revert hstep
  fun_cases stepClose world view id point signal
  all_goals
    intro hstep
    simp only [reduceCtorEq, Option.some.injEq, Prod.mk.injEq] at hstep
  all_goals
    obtain ⟨-, rfl⟩ := hstep
    first
    | trivial
    | exact rfl
    | exact ⟨rfl, by constructor⟩

private theorem stepFail_links {cause : Fault} {point : FailPoint}
    (hstep : stepFail world thread id cause point signal = some (after, next)) :
    next.Links (.fail id cause) := by
  revert hstep
  fun_cases stepFail world thread id cause point signal
  all_goals
    intro hstep
    simp only [reduceCtorEq, Option.some.injEq, Prod.mk.injEq] at hstep
  all_goals
    obtain ⟨-, rfl⟩ := hstep
    trivial

private theorem stepEnter_links {call : Call}
    (hstep : stepEnter world thread id call = (after, next)) : next.Links (.call id call) := by
  revert hstep
  fun_cases stepEnter world thread id call
  all_goals
    intro hstep
    obtain ⟨-, rfl⟩ := Prod.mk.inj hstep
    exact rfl

private theorem stepOutcome_links {call : Call} {outcome : Outcome}
    (hstep : stepOutcome world thread id call outcome = (after, next)) :
    next.Links (.call id call) := by
  cases outcome
  all_goals
    obtain ⟨-, rfl⟩ := Prod.mk.inj hstep
    trivial

private theorem stepCall_links {call : Call} {point : CallPoint}
    (hstep : stepCall world thread id call point signal = some (after, next)) :
    next.Links (.call id call) := by
  revert hstep
  fun_cases stepCall world thread id call point signal
  all_goals
    intro hstep
    simp only [reduceCtorEq, Option.some.injEq, Prod.mk.injEq] at hstep
  case case1 => exact stepEnter_links hstep
  case case6 => exact stepOutcome_links hstep
  all_goals
    obtain ⟨-, rfl⟩ := hstep
    first
    | trivial
    | exact rfl
    | exact ⟨rfl, by constructor⟩

private theorem stepPause_links {site : String} {point : PausePoint}
    (hstep : stepPause world id site point signal = some (after, next)) :
    next.Links (.pause id site) := by
  revert hstep
  fun_cases stepPause world id site point signal
  all_goals
    intro hstep
    simp only [reduceCtorEq, Option.some.injEq, Prod.mk.injEq] at hstep
  all_goals
    obtain ⟨-, rfl⟩ := hstep
    trivial

private theorem stepFinished_links {receiver : Handle} {point : FinishedPoint}
    (hstep : stepFinished world thread id receiver point signal = some (after, next)) :
    next.Links (.finished id receiver) := by
  revert hstep
  fun_cases stepFinished world thread id receiver point signal
  all_goals
    intro hstep
    simp only [reduceCtorEq, Option.some.injEq, Prod.mk.injEq] at hstep
  all_goals
    obtain ⟨-, rfl⟩ := hstep
    trivial

private theorem stepDepart_links {nodes : NodeSet} {point : DepartPoint}
    (hstep : stepDepart world nodes point signal = some (after, next)) :
    next.Links (.depart nodes) := by
  revert hstep
  fun_cases stepDepart world nodes point signal
  all_goals
    intro hstep
    simp only [reduceCtorEq, Option.some.injEq, Prod.mk.injEq] at hstep
  all_goals
    obtain ⟨-, rfl⟩ := hstep
    first
    | trivial
    | exact rfl
    | exact ⟨rfl, by constructor⟩

private theorem startAction_links {action : Action}
    (hstep : startAction world thread id action = (after, next)) :
    next.Links (.perform id action) := by
  revert hstep
  fun_cases startAction world thread id action
  all_goals
    intro hstep
    obtain ⟨-, rfl⟩ := Prod.mk.inj hstep
    first
    | trivial
    | exact rfl
    | exact ⟨rfl, .entry rfl⟩

private theorem stepPerform_links {action : Action} {point : PerformPoint}
    (hstep : stepPerform world thread id action point signal = some (after, next)) :
    next.Links (.perform id action) := by
  revert hstep
  fun_cases stepPerform world thread id action point signal
  all_goals
    intro hstep
    simp only [reduceCtorEq, Option.some.injEq, Prod.mk.injEq] at hstep
  case case1 => exact startAction_links hstep
  all_goals
    obtain ⟨-, rfl⟩ := hstep
    trivial

private theorem stepStart_links {refusal : Option String} {point : StartPoint}
    (hstep : stepStart world thread id refusal point signal = some (after, next)) :
    next.Links (.start id refusal) := by
  revert hstep
  fun_cases stepStart world thread id refusal point signal
  all_goals
    intro hstep
    simp only [reduceCtorEq, Option.some.injEq, Prod.mk.injEq] at hstep
  case case2 =>
    obtain ⟨slots, -, hslots⟩ := Option.map_eq_some_iff.mp hstep
    obtain ⟨-, rfl⟩ := Prod.mk.inj hslots
    exact rfl
  all_goals
    obtain ⟨-, rfl⟩ := hstep
    first
    | trivial
    | exact rfl
    | exact ⟨rfl, by constructor⟩
    | exact ⟨_, _, rfl⟩

private theorem stepHosted_links {handle : Handle} {point : HostedPoint}
    (hstep : stepHosted world id handle point signal = some (after, next)) :
    next.Links (.hosted id handle) := by
  revert hstep
  fun_cases stepHosted world id handle point signal
  all_goals
    intro hstep
    simp only [reduceCtorEq, Option.some.injEq, Prod.mk.injEq] at hstep
  all_goals
    obtain ⟨-, rfl⟩ := hstep
    first
    | trivial
    | exact rfl
    | exact ⟨rfl, by constructor⟩

private theorem startHostCall_links {call : HostCall}
    (hstep : startHostCall world call = (after, next)) : next.Links (.host call) := by
  cases call
  all_goals
    simp only [startHostCall] at hstep
    try split at hstep
    all_goals
      obtain ⟨-, rfl⟩ := Prod.mk.inj hstep
      first
      | trivial
      | exact rfl
      | exact ⟨rfl, by constructor⟩

private theorem stepHost_links {call : HostCall} {point : HostPoint}
    (hstep : stepHost world call point signal = some (after, next)) :
    next.Links (.host call) := by
  revert hstep
  fun_cases stepHost world call point signal
  all_goals
    intro hstep
    simp only [reduceCtorEq, Option.some.injEq, Prod.mk.injEq] at hstep
  case case1 => exact startHostCall_links hstep
  all_goals
    obtain ⟨-, rfl⟩ := hstep
    first
    | trivial
    | exact rfl
    | exact ⟨rfl, by constructor⟩

theorem Frame.step_links {frame : Frame}
    (hstep : frame.step world view thread signal = some (after, next)) :
    next.Links frame.role := by
  cases frame with
  | run owner listener point =>
    simp only [Frame.step, stepRun] at hstep
    split at hstep
    · exact stepSetup_links hstep
    · split at hstep
      · exact stepWindDown_links hstep
      · exact stepDrive_links hstep
  | cancel owner point => exact stepCancel_links hstep
  | closeResources owner point => exact stepClose_links hstep
  | fail owner cause point => exact stepFail_links hstep
  | call owner target point => exact stepCall_links hstep
  | pause owner site point => exact stepPause_links hstep
  | finished owner receiver point => exact stepFinished_links hstep
  | depart nodes point => exact stepDepart_links hstep
  | perform owner action point => exact stepPerform_links hstep
  | start owner refusal point => exact stepStart_links hstep
  | hosted owner handle point => exact stepHosted_links hstep
  | host message point => exact stepHost_links hstep

end Links

/-- A thread starts with the frame of a hosted fragment. -/
theorem Next.Links.isRoot {reply : Reply} {frame : Frame} {hosts : ExecutorId} {role : Role}
    (hlinks : (Next.fork reply frame hosts).Links role) : frame.role.isRoot = true := by
  obtain ⟨id, handle, hrole⟩ := hlinks
  rw [hrole]
  rfl

/-- A step after which the thread takes up a result has ended its frame. -/
theorem Next.frames_of_signal {next : Next} (hsignal : next.signal ≠ .go) : next.frames = [] := by
  cases next with
  | goto | call => exact absurd rfl hsignal
  | reply | raise | fork => rfl

/-! ## Linked stacks -/

namespace Linked

variable {callee caller frame : Frame} {rest : List Frame}

theorem tail (hlinked : Linked (frame :: rest)) : Linked rest := by
  cases rest with
  | nil => trivial
  | cons caller below => exact hlinked.2

theorem awaits (hlinked : Linked (callee :: caller :: rest)) : caller.Awaits callee.role :=
  hlinked.1

/-- Whatever is linked as `frame` is linked as any frame of the same role. -/
theorem of_role {other : Frame} (hlinked : Linked (frame :: rest))
    (hrole : other.role = frame.role) : Linked (other :: rest) := by
  cases rest with
  | nil => exact (congrArg Role.isRoot hrole).trans hlinked
  | cons caller below => exact ⟨hrole ▸ hlinked.1, hlinked.2⟩

theorem next {following : Next} (hlinked : Linked (frame :: rest))
    (hlinks : following.Links frame.role) : Linked (following.frames ++ rest) := by
  cases following with
  | goto resumed => exact hlinked.of_role hlinks
  | call resumed called => exact ⟨hlinks.2, hlinked.of_role hlinks.1⟩
  | reply | raise | fork => exact hlinked.tail

theorem isRoot_of_last {frames : List Frame} (hlinked : Linked frames)
    (hlast : frames.getLast? = some frame) : frame.role.isRoot = true := by
  induction frames with
  | nil => cases hlast
  | cons top below ih =>
    cases below with
    | nil =>
      obtain rfl := Option.some.inj hlast
      exact hlinked
    | cons caller outermost =>
      rw [List.getLast?_cons_cons] at hlast
      exact ih hlinked.tail hlast

/-- A frame that is not the outermost has been called by a frame further out. -/
theorem last_or_awaited {frames : List Frame} (hlinked : Linked frames) (hmem : frame ∈ frames) :
    frames.getLast? = some frame ∨ ∃ caller ∈ frames.tail, caller.Awaits frame.role := by
  induction frames with
  | nil => simp at hmem
  | cons top below ih =>
    rcases List.mem_cons.mp hmem with rfl | hbelow
    · cases below with
      | nil => exact .inl rfl
      | cons caller outermost => exact .inr ⟨caller, List.mem_cons_self, hlinked.awaits⟩
    · rcases ih hlinked.tail hbelow with hlast | ⟨caller, hcaller, hawaits⟩
      · left
        rw [List.getLast?_cons, hlast, Option.getD_some]
      · exact .inr ⟨caller, List.mem_of_mem_tail hcaller, hawaits⟩

/-- A frame that is no root has been called by a frame further out. -/
theorem exists_caller {frames : List Frame} (hlinked : Linked frames) (hmem : frame ∈ frames)
    (hroot : frame.role.isRoot = false) :
    ∃ caller ∈ frames.tail, caller.Awaits frame.role := by
  rcases hlinked.last_or_awaited hmem with hlast | hawaited
  · have hlone := hlinked.isRoot_of_last hlast
    rw [hroot] at hlone
    cases hlone
  · exact hawaited

/-- Every frame but the innermost waits for another one. -/
theorem exists_callee {outer : Frame} (hlinked : Linked (frame :: rest)) (hmem : outer ∈ rest) :
    ∃ role, outer.Awaits role := by
  induction rest generalizing frame with
  | nil => cases hmem
  | cons caller outermost ih =>
    rcases List.mem_cons.mp hmem with rfl | hbelow
    · exact ⟨_, hlinked.awaits⟩
    · exact ih hlinked.tail hbelow

/-- What holds of every frame that a frame with `below` or with `above` waits for holds
of the innermost frame of a stack with such a frame further out. -/
theorem innermost (below above : Frame → Prop) (hlinked : Linked (frame :: rest))
    (hup : ∀ caller ∈ rest, ∀ callee : Frame, caller.Awaits callee.role →
      below caller ∨ above caller → above callee)
    (hrest : ∃ outer ∈ rest, below outer) : above frame := by
  induction rest generalizing frame with
  | nil => simp at hrest
  | cons caller outermost ih =>
    apply hup caller List.mem_cons_self frame hlinked.awaits
    obtain ⟨outer, houter, hbelow⟩ := hrest
    rcases List.mem_cons.mp houter with rfl | hmem
    · exact .inl hbelow
    · refine .inr (ih hlinked.tail (fun caller hcaller => ?_) ⟨outer, hmem, hbelow⟩)
      exact hup caller (List.mem_cons_of_mem _ hcaller)

end Linked

end FragmentLifecycle
