import FragmentLifecycle.Proofs.Course
import FragmentLifecycle.Proofs.Growth

/-!
# The calls of a run

The live run of an executor makes its calls one after the other: it waits for each of them
before it goes on.  The calls that it makes along some moves are kept in their order
(`System.RunCalls`), and each of them has begun unless it is on top of its stack
(`System.RunCalls.begun`).
-/

namespace FragmentLifecycle

/-- The call that a step makes from the run of an executor. -/
def Frame.made? (id : ExecutorId) : Frame → Next → Option Role
  | .run owner _ _, .call _ callee => if owner = id then some callee.role else none
  | _, _ => none

/-- The frames that have been called and not taken a step. -/
def Frame.isInitial : Frame → Bool
  | .call _ _ .enter | .fail _ _ .append | .closeResources _ .lockClosing => true
  | .pause _ _ .reach => true
  | _ => false

/-- What a call leaves behind by its first step. -/
def Role.Begun (thread : ThreadId) (executor : Executor) : Role → Prop
  | .call _ target => ⟨thread, .entered target⟩ ∈ executor.journal
  | .fail _ cause => ⟨thread, .recorded cause⟩ ∈ executor.journal
  | .closeResources _ => executor.resourcesClosed = true
  | _ => True

section Transitions

variable {view : LockView} {thread : ThreadId} {id : ExecutorId} {frame : Frame}
  {signal : Signal} {executor executor' : Executor} {next : Next}

section Made

variable (frame resumed callee : Frame) (l : Option ListenerId) (point : RunPoint)
  (payload : Payload)

@[simp]
theorem Frame.made?_call :
    (Frame.run id l point).made? id (.call resumed callee) = some callee.role :=
  if_pos rfl

@[simp]
theorem Frame.made?_goto : frame.made? id (.goto resumed) = none := by
  cases frame <;> rfl

@[simp]
theorem Frame.made?_done : frame.made? id .done = none := by
  cases frame <;> rfl

@[simp]
theorem Frame.made?_raise : frame.made? id (.raise payload) = none := by
  cases frame <;> rfl

end Made

theorem Role.Begun.later {role : Role} (hbegun : role.Begun thread executor)
    (hgrows : executor.Grows executor') : role.Begun thread executor' := by
  cases role with
  | call | fail => exact hgrows.journal.subset hbegun
  | closeResources => exact hgrows.closed hbegun
  | _ => trivial

/-- Only a live run makes a call, and it waits for the frame that it has pushed. -/
theorem Transition.call_of_made {role : Role}
    (htransition : Transition view thread id frame signal executor next executor')
    (hmade : frame.made? id next = some role) :
    ∃ l point l' point' callee, frame = .run id l point ∧ point ≠ .start ∧
      next = .call (.run id l' point') callee ∧ callee.role = role ∧
      callee.isInitial = true := by
  cases htransition
  case aside houtside _ _ =>
    cases frame with
    | run owner l point =>
      have howner : owner ≠ id := by simpa [Frame.isCore] using houtside
      cases next <;> simp [Frame.made?, howner] at hmade
    | _ => cases hmade
  all_goals simp only [Frame.made?, Next.done, if_true, reduceCtorEq, Option.some.injEq] at hmade
  all_goals exact ⟨_, _, _, _, _, rfl, by simp, rfl, hmade, rfl⟩

/-- A call begins by its first step, unless the process exits by it. -/
theorem Transition.begun_of_initial
    (htransition : Transition view thread id frame signal executor next executor')
    (hcore : frame.isCore id = true) (hinitial : frame.isInitial = true) :
    frame.role.Begun thread executor' ∨ next = .goto frame := by
  cases htransition
  case aside houtside _ _ => simp [houtside] at hcore
  case contextEntered | callEntered | causeAppended =>
    exact .inl (List.mem_append_right _ List.mem_cons_self)
  case closeRepeats hclosed => exact .inl hclosed
  case closeBegins => exact .inl rfl
  case processExits => exact .inr rfl
  case callProceeds hpoints hsame hjournal => cases hpoints <;> cases hinitial
  all_goals cases hinitial

end Transitions

namespace System

/-- The call that the run of an executor makes by a move. -/
def runCall? (system : System) (id : ExecutorId) : Move → Option Role
  | .step thread =>
      match system.frames thread with
      | [] => none
      | frame :: _ =>
          (frame.step system.world (system.view thread) thread (system.signal thread)).bind
            fun stepped => frame.made? id stepped.2
  | .call _ | .abandon _ => none

/-- Moves during which the run of an executor makes the given calls, in this order. -/
inductive RunCalls (id : ExecutorId) (start : System) : List Role → System → Prop
  | refl : RunCalls id start [] start
  | move {calls : List Role} {system after : System} (move : Move)
      (hcalls : RunCalls id start calls system) (hmove : system.move move = some after) :
      RunCalls id start (calls ++ (system.runCall? id move).toList) after

/-- A call of the run is on top of the stack and has not taken a step. -/
def Calling (system : System) (thread : ThreadId) (id : ExecutorId) (role : Role) : Prop :=
  ∃ callee l point rest, system.frames thread = callee :: .run id l point :: rest ∧
    callee.role = role ∧ callee.isInitial = true

section Calls

variable {fragments : List Fragment} {host : Host} {permitted : Command → Prop}
  {start system after : System} {id : ExecutorId} {thread owner : ThreadId} {frame : Frame}
  {rest : List Frame} {next : Next} {l : Option ListenerId} {point : RunPoint}
  {calls : List Role}

/-! ### Who makes a call -/

theorem Advance.runCall?_eq (hadvance : system.Advance after thread frame rest next) :
    system.runCall? id (.step thread) = frame.made? id next := by
  simp only [runCall?, hadvance.frames, hadvance.step, Option.bind_some]

/-- A call of the run is made by the live run, on its own thread. -/
theorem Advance.call_of_made
    (hreach : (ofFragments fragments host).ReachableUnder permitted system) {role : Role}
    (hadvance : system.Advance after thread frame rest next)
    (hmade : frame.made? id next = some role) :
    (system.executor id).course = .underWay thread ∧ ∃ l point, frame = .run id l point ∧
      point ≠ .start ∧ after.Calling thread id role := by
  obtain ⟨l, point, l', point', callee, rfl, hpoint, rfl, hrole, hinitial⟩ :=
    (Frame.step_transition id hadvance.step).call_of_made hmade
  exact ⟨hreach.course_of_run (hadvance.frames ▸ List.mem_cons_self) hpoint, l, point, rfl, hpoint,
    callee, l', point', rest, hadvance.own, hrole, hinitial⟩

/-- While the run stands beside the frame that takes a step, it makes no call. -/
theorem Advance.made?_eq_none
    (hreach : (ofFragments fragments host).ReachableUnder permitted system)
    (hadvance : system.Advance after owner frame rest next) (hpoint : point ≠ .start)
    (hbeside : system.Beside owner rest thread (.run id l point)) :
    frame.made? id next = none := by
  refine Option.eq_none_iff_forall_ne_some.mpr fun role hmade => ?_
  obtain ⟨-, l', point', rfl, hlive, -⟩ := hadvance.call_of_made hreach hmade
  exact hpoint (hadvance.not_live_beside hreach hlive hbeside)

/-- Where the run is over, it makes no call, and its course stays as it is. -/
theorem Advance.made?_of_over
    (hreach : (ofFragments fragments host).ReachableUnder permitted system)
    (hadvance : system.Advance after owner frame rest next)
    (hover : (system.executor id).course = .ended thread ∨
      (system.executor id).course = .unwound thread) :
    frame.made? id next = none ∧ (after.executor id).course = (system.executor id).course := by
  have hidle {thread : ThreadId} (hlive : (system.executor id).course = .underWay thread) :
      False := by
    rw [hlive] at hover
    rcases hover with hover | hover <;> cases hover
  constructor
  · refine Option.eq_none_iff_forall_ne_some.mpr fun role hmade => ?_
    exact hidle (hadvance.call_of_made hreach hmade).1
  · obtain hsame | ⟨l, -, -, hnew, -⟩ | ⟨l, point, rfl, hpoint, -⟩ :=
      (Frame.step_transition id hadvance.step).course_cases
    · exact hsame
    · rw [System.executor, hnew] at hover
      rcases hover with hover | hover <;> cases hover
    · exact absurd (hreach.course_of_run (hadvance.frames ▸ List.mem_cons_self) hpoint) hidle

/-- A run that waits for a call is live. -/
theorem Calling.underWay
    (hreach : (ofFragments fragments host).ReachableUnder permitted system) {role : Role}
    (hcalling : system.Calling thread id role) :
    (system.executor id).course = .underWay thread := by
  obtain ⟨callee, l, point, rest, hframes, -⟩ := hcalling
  have hawaits := (hframes ▸ hreach.linked thread).awaits
  refine hreach.course_of_run (hframes ▸ List.mem_cons_of_mem _ List.mem_cons_self) ?_
  rintro rfl
  generalize callee.role = role at hawaits
  cases hawaits

/-! ### Induction over the moves of a run -/

theorem RunCalls.later (hcalls : start.RunCalls id calls system) :
    start.ReachableUnder (fun _ => True) system := by
  induction hcalls with
  | refl => exact .refl
  | move move _ hmove ih => exact ih.move move (by cases move <;> trivial) hmove

/-- What holds of the calls that a run has made, and of the system by then. -/
theorem RunCalls.invariant (holds : List Role → System → Prop) (hstart : holds [] start)
    (hturn : ∀ {calls system after thread root}, system.Turnover after thread root →
      holds calls system → holds calls after)
    (hstep : ∀ {calls system after thread frame rest next}, start.RunCalls id calls system →
      system.Advance after thread frame rest next → holds calls system →
      holds (calls ++ (frame.made? id next).toList) after)
    (hcalls : start.RunCalls id calls system) : holds calls system := by
  induction hcalls with
  | refl => exact hstart
  | @move calls system after move hcalls hmove ih =>
    cases move with
    | step thread =>
      obtain ⟨frame, rest, next, hadvance⟩ := advance_of_step hmove
      rw [hadvance.runCall?_eq]
      exact hstep hcalls hadvance ih
    | call command =>
      obtain rfl := Option.some.inj hmove
      rw [runCall?, Option.toList_none, List.append_nil]
      exact hturn (turnover_of_call system command) ih
    | abandon thread =>
      obtain ⟨root, hturnover, -⟩ := turnover_of_abandon hmove
      rw [runCall?, Option.toList_none, List.append_nil]
      exact hturn hturnover ih

theorem Reachable.exists_runCalls (hlater : start.Reachable system) (id : ExecutorId) :
    ∃ calls, start.RunCalls id calls system := by
  induction hlater with
  | refl => exact ⟨[], .refl⟩
  | move move _ hmove ih =>
    obtain ⟨calls, hcalls⟩ := ih
    exact ⟨_, hcalls.move move hmove⟩

/-! ### What the calls leave behind -/

theorem Calling.turnover {role : Role} {root : Frame} (hcalling : system.Calling thread id role)
    (hturn : system.Turnover after owner root) : after.Calling thread id role := by
  obtain ⟨callee, l, point, rest, hframes, hrest⟩ := hcalling
  have hmem : .run id l point ∈ system.frames thread := by simp [hframes]
  have hcore : (Frame.run id l point).isCore id = true := by simp [Frame.isCore]
  exact ⟨callee, l, point, rest, (hturn.same_of_core hmem hcore).1.trans hframes, hrest⟩

/-- A call begins where it is on top of its stack, and stays there until then. -/
theorem Calling.advance {role : Role}
    (hreach : (ofFragments fragments host).ReachableUnder permitted system)
    (hcalling : system.Calling thread id role)
    (hadvance : system.Advance after owner frame rest next) :
    role.Begun thread (after.executor id) ∨ after.Calling thread id role := by
  obtain ⟨callee, l, point, below, hframes, rfl, hinitial⟩ := hcalling
  by_cases howner : thread = owner
  · subst howner
    obtain ⟨rfl, rfl⟩ := List.cons.inj (hadvance.frames.symm.trans hframes)
    by_cases hcore : frame.isCore id = true
    · rcases (Frame.step_transition id hadvance.step).begun_of_initial hcore hinitial with
        hbegun | rfl
      · exact .inl hbegun
      · exact .inr ⟨frame, l, point, below, hadvance.own, rfl, hinitial⟩
    · -- a pause is none of the calls that leave something behind
      left
      have hawaits := (hframes ▸ hreach.linked thread).awaits
      cases frame with
      | pause => trivial
      | run | cancel | closeResources | fail | call | perform =>
        simp only [Frame.role] at hawaits
        cases hawaits
        all_goals simp [Frame.isCore] at hcore
      | finished | depart | start | hosted | host => cases hinitial
  · have hsame := (hadvance.same_of_busy howner (by simp [hframes])).1
    exact .inr ⟨callee, l, point, below, hsame.trans hframes, rfl, hinitial⟩

/-- Every call that the run has made has begun, unless it is on top of the stack. -/
theorem RunCalls.begun
    (hreach : (ofFragments fragments host).ReachableUnder (fun _ => True) start)
    (hthread : (start.executor id).course.thread? = some thread)
    (hcalls : start.RunCalls id calls system) :
    ∀ role ∈ calls, role.Begun thread (system.executor id) ∨ system.Calling thread id role := by
  refine (hcalls.invariant (fun calls system =>
    (system.executor id).course.thread? = some thread ∧ ∀ role ∈ calls,
      role.Begun thread (system.executor id) ∨ system.Calling thread id role)
    ⟨hthread, by simp⟩ ?_ ?_).2
  · rintro calls system after owner root hturn ⟨hthread, hbegun⟩
    rw [hturn.executor_eq]
    exact ⟨hthread, fun role hmem => (hbegun role hmem).imp_right fun hcalling =>
      hcalling.turnover hturn⟩
  · rintro calls system after owner frame rest next hbefore hadvance ⟨hthread, hbegun⟩
    have hearlier := hreach.trans hbefore.later
    refine ⟨hadvance.thread_of_course hearlier hthread, fun role hmem => ?_⟩
    rcases List.mem_append.mp hmem with hmem | hmade
    · rcases hbegun role hmem with hrole | hcalling
      · exact .inl (hrole.later (Frame.step_transition id hadvance.step).grows)
      · exact hcalling.advance hearlier hadvance
    · obtain ⟨hcourse, -, -, -, -, hcalling⟩ :=
        hadvance.call_of_made hearlier (Option.mem_toList.mp hmade)
      rw [hcourse] at hthread
      obtain rfl := Option.some.inj hthread
      exact .inr hcalling

end Calls

end System

end FragmentLifecycle
