import FragmentLifecycle.Proofs.Journal
import FragmentLifecycle.Proofs.Reachability

/-!
# The one run of an executor

A run that won the right to drive its fragment is live from there to its end.  An
executor has one live run exactly while its course is under way, on the thread that the
course names; every other call of the run stops at once.
-/

namespace FragmentLifecycle

/-- Weighs the runs past the decision that they are the first ones. -/
def Frame.live : Frame → Nat
  | .run _ _ point => if point = .start then 0 else 1
  | _ => 0

/-- One while no run is under way. -/
def Course.idle : Course → Nat
  | .underWay _ => 0
  | _ => 1

@[simp]
theorem Course.idle_underWay (thread : ThreadId) : (Course.underWay thread).idle = 0 := rfl

@[simp]
theorem Course.idle_ended (thread : ThreadId) : (Course.ended thread).idle = 1 := rfl

@[simp]
theorem Course.idle_unwound (thread : ThreadId) : (Course.unwound thread).idle = 1 := rfl

/-- One as long as no run has begun. -/
def Course.fresh : Course → Nat
  | .notStarted => 1
  | _ => 0

/-- The course of an executor changes where its run begins and where it ends. -/
theorem Transition.course_cases {view : LockView} {thread : ThreadId} {id : ExecutorId}
    {frame : Frame} {signal : Signal} {executor executor' : Executor} {next : Next}
    (htransition : Transition view thread id frame signal executor next executor') :
    executor'.course = executor.course ∨
      (∃ l, frame = .run id l .start ∧ next = .goto (.run id l .enrol) ∧
        executor.course = .notStarted ∧ executor'.course = .underWay thread) ∨
      (∃ l point, frame = .run id l point ∧ point ≠ .start ∧ next.frames = [] ∧
        (executor'.course = .ended thread ∨ executor'.course = .unwound thread)) := by
  cases htransition
  case aside hsame => exact .inl hsame.course
  case callProceeds hsame _ => exact .inl hsame.course
  case runBegins hnew => exact .inr (.inl ⟨_, rfl, rfl, hnew, rfl⟩)
  case alarmUnwinds | closingUnwinds | reportUnwinds =>
    exact .inr (.inr ⟨_, _, rfl, by simp, rfl, .inr rfl⟩)
  case retires => exact .inr (.inr ⟨_, _, rfl, by simp, rfl, .inl rfl⟩)
  all_goals exact .inl rfl

section Transitions

variable {view : LockView} {thread : ThreadId} {id : ExecutorId} {frame : Frame}
  {signal : Signal} {executor executor' : Executor} {next : Next}

theorem Transition.idle_add_live
    (htransition : Transition view thread id frame signal executor next executor')
    (hcore : frame.isCore id = true) (hle : executor.course.idle + frame.live ≤ 1) :
    executor'.course.idle + (next.frames.map (within id Frame.live)).sum =
      executor.course.idle + frame.live := by
  cases htransition
  case aside houtside _ _ => simp [houtside] at hcore
  case runBegins hnew => simp [hnew, Frame.live, Course.idle]
  all_goals simp [Frame.live] at hle ⊢
  case alarmUnwinds | closingUnwinds | reportUnwinds | retires => simp [hle]
  case callProceeds hsame _ => rw [hsame.course]

theorem Transition.course_of_ended {owner : ThreadId}
    (htransition : Transition view thread id frame signal executor next executor')
    (hended : executor'.course = .ended owner) :
    executor.course = .ended owner ∨ ∃ l, frame = .run id l .retire := by
  cases htransition
  case aside hsame => exact .inl (hsame.course ▸ hended)
  case callProceeds hsame _ => exact .inl (hsame.course ▸ hended)
  case retires => exact .inr ⟨_, rfl⟩
  case runBegins | alarmUnwinds | closingUnwinds | reportUnwinds => cases hended
  all_goals exact .inl hended

/-- A course that has begun never becomes new again. -/
theorem Transition.course_of_new
    (htransition : Transition view thread id frame signal executor next executor')
    (hnew : executor'.course = .notStarted) : executor.course = .notStarted := by
  obtain hsame | ⟨l, -, -, -, hcourse⟩ | ⟨l, point, -, -, -, hend⟩ := htransition.course_cases
  · exact hsame.symm.trans hnew
  · rw [hcourse] at hnew
    cases hnew
  · rcases hend with hend | hend <;> rw [hend] at hnew <;> cases hnew

/-- A live run comes from a live run, or from the start of one. -/
theorem Transition.live_pushed
    (htransition : Transition view thread id frame signal executor next executor')
    (hcore : frame.isCore id = true) (hle : executor.course.idle + frame.live ≤ 1)
    {pushed : Frame} (hpushed : pushed ∈ next.frames)
    (hlive : 0 < within id Frame.live pushed) :
    (0 < frame.live ∧ executor'.course = executor.course) ∨
      executor'.course = .underWay thread := by
  have hlaw := htransition.idle_add_live hcore hle
  have hsum : within id Frame.live pushed ≤
      (next.frames.map (within id Frame.live)).sum :=
    List.le_sum_of_mem (List.mem_map_of_mem hpushed)
  obtain hsame | ⟨l, -, -, -, hcourse⟩ | ⟨l, point, -, -, hframes, -⟩ :=
    htransition.course_cases
  · rw [hsame] at hlaw
    exact .inl ⟨by omega, hsame⟩
  · exact .inr hcourse
  · simp [hframes] at hpushed

end Transitions

namespace System

section Live

variable {fragments : List Fragment} {host : Host} {permitted : Command → Prop}
  {system : System} {id : ExecutorId}

theorem ReachableUnder.live_total (id : ExecutorId)
    (hreach : (ofFragments fragments host).ReachableUnder permitted system) :
    (system.executor id).course.idle + system.total (within id Frame.live) = 1 := by
  refine hreach.summed_within id (fun executor => executor.course.idle) Frame.live (· = 1)
    (fun _ _ _ => True) (fun _ _ => trivial) ?_ ?_ (fun _ => rfl) ?_
  · rintro frame ⟨⟩ <;> rfl
  · intro thread executor executor' hsame
    rw [hsame.course]
  · intro view thread frame signal executor next executor' _ hcore htransition others htotal
    rw [htransition.idle_add_live hcore (by omega)]
    exact htotal

/-- Beside a live run there is no other, and the course stays as it is while another
frame moves. -/
theorem Advance.course_of_beside
    (hreach : (ofFragments fragments host).ReachableUnder permitted system) {after : System}
    {thread owner : ThreadId} {frame other : Frame} {rest : List Frame} {next : Next}
    (hadvance : system.Advance after thread frame rest next)
    (hbeside : system.Beside thread rest owner other) (hlive : 0 < within id Frame.live other) :
    (after.executor id).course = (system.executor id).course := by
  have htotal := hreach.live_total id
  have hle := hadvance.add_le_total (within id Frame.live) hbeside
  obtain hsame | ⟨l, -, -, hnew, -⟩ | ⟨l, point, rfl, hpoint, -, -⟩ :=
    (Frame.step_transition id hadvance.step).course_cases
  · exact hsame
  · rw [System.executor, hnew] at htotal
    simp [Course.idle] at htotal
    omega
  · simp [Frame.live, hpoint] at hle
    omega

/-- A live run is on the thread that the course names. -/
theorem ReachableUnder.course_of_live
    (hreach : (ofFragments fragments host).ReachableUnder permitted system) {thread : ThreadId}
    {frame : Frame} (hmem : frame ∈ system.frames thread) (hlive : 0 < within id Frame.live frame) :
    (system.executor id).course = .underWay thread := by
  have hcore := (within_pos id _ hlive).1
  refine hreach.everywhere id (fun executor thread frame => 0 < within id Frame.live frame →
    executor.course = .underWay thread) ?_ ?_ ?_ hmem hcore hlive
  · rintro executor thread frame ⟨⟩ <;> simp [within, Frame.live]
  · intro system after thread frame rest next hreach hadvance htransition hcore hframe
      pushed hpushed _ hlive
    have htotal := hreach.live_total id
    have hle := weight_le_total (within id Frame.live) (hadvance.frames ▸ List.mem_cons_self)
    rw [within, if_pos hcore] at hframe hle
    rcases htransition.live_pushed hcore (by omega) hpushed hlive with
      ⟨hmoving, hsame⟩ | hcourse
    · rw [hsame, hframe hmoving]
    · exact hcourse
  · intro system after thread frame rest next hreach hadvance _ owner other hbeside _ hother hlive
    rw [hadvance.course_of_beside hreach hbeside hlive]
    exact hother hlive

/-- There is at most one live run. -/
theorem ReachableUnder.live_unique
    (hreach : (ofFragments fragments host).ReachableUnder permitted system)
    {thread thread' : ThreadId} {l l' : Option ListenerId} {point point' : RunPoint}
    (hmem : .run id l point ∈ system.frames thread) (hpoint : point ≠ .start)
    (hmem' : .run id l' point' ∈ system.frames thread') (hpoint' : point' ≠ .start) :
    thread = thread' ∧ l = l' ∧ point = point' := by
  have htotal := hreach.live_total id
  obtain ⟨hthread, hsame⟩ := eq_of_total_le_one (within id Frame.live) (by omega) hmem hmem'
    (by simp [Frame.live, hpoint]) (by simp [Frame.live, hpoint'])
  rw [Frame.run.injEq] at hsame
  exact ⟨hthread, hsame.2⟩

/-- Beside a live run that moves there is no other. -/
theorem Advance.not_live_beside
    (hreach : (ofFragments fragments host).ReachableUnder permitted system) {after : System}
    {thread owner : ThreadId} {rest : List Frame} {next : Next} {l l' : Option ListenerId}
    {point point' : RunPoint} (hadvance : system.Advance after thread (.run id l point) rest next)
    (hpoint : point ≠ .start)
    (hbeside : system.Beside thread rest owner (.run id l' point')) : point' = .start := by
  by_contra hpoint'
  have htotal := hreach.live_total id
  have hboth := hadvance.add_le_total (within id Frame.live) hbeside
  simp [Frame.live, hpoint, hpoint'] at hboth
  omega

/-- While a run is live, the course is under way. -/
theorem ReachableUnder.course_of_run
    (hreach : (ofFragments fragments host).ReachableUnder permitted system)
    {thread : ThreadId} {l : Option ListenerId} {point : RunPoint}
    (hmem : .run id l point ∈ system.frames thread) (hpoint : point ≠ .start) :
    (system.executor id).course = .underWay thread :=
  hreach.course_of_live hmem (by simp [Frame.live, hpoint])

/-- While the course is under way, a run is live on the thread that it names. -/
theorem ReachableUnder.run_of_course
    (hreach : (ofFragments fragments host).ReachableUnder permitted system) {owner : ThreadId}
    (hcourse : (system.executor id).course = .underWay owner) :
    ∃ l point, .run id l point ∈ system.frames owner ∧ point ≠ .start := by
  have htotal := hreach.live_total id
  rw [hcourse, Course.idle_underWay, Nat.zero_add] at htotal
  obtain ⟨thread, frame, hmem, hlive⟩ := exists_of_total_pos _ (htotal ▸ Nat.one_pos)
  obtain rfl : owner = thread := by
    simpa [hcourse] using hreach.course_of_live hmem hlive
  obtain ⟨hcore, hweight⟩ := within_pos id _ hlive
  cases frame with
  | run other l point =>
    obtain rfl : other = id := by simpa [Frame.isCore] using hcore
    refine ⟨l, point, hmem, ?_⟩
    rintro rfl
    cases hweight
  | _ => cases hweight

/-- A fact about an executor that holds while its run is at some points past the first
one: the run hands it on, and every frame but a live run keeps it. -/
theorem ReachableUnder.at_points (id : ExecutorId) (among : RunPoint → Bool)
    (holds : Executor → Prop) (hstart : among .start = false)
    (hown : ∀ {system after : System} {thread frame rest next},
      (ofFragments fragments host).ReachableUnder permitted system →
      system.Advance after thread frame rest next →
      Transition (system.view thread) thread id frame (system.signal thread)
        (system.executor id) next (after.executor id) →
      frame.isCore id = true → ∀ l point, .run id l point ∈ next.frames → among point = true →
      (∀ l' point', frame = .run id l' point' → among point' = true →
        holds (system.executor id)) → holds (after.executor id))
    (hbeside : ∀ {system after : System} {thread frame rest next},
      (ofFragments fragments host).ReachableUnder permitted system →
      system.Advance after thread frame rest next →
      Transition (system.view thread) thread id frame (system.signal thread)
        (system.executor id) next (after.executor id) →
      (∀ l point, frame = .run id l point → point = .start) →
      ∀ owner l point, .run id l point ∈ system.frames owner → among point = true →
      holds (system.executor id) → holds (after.executor id))
    (hreach : (ofFragments fragments host).ReachableUnder permitted system) {thread : ThreadId}
    {l : Option ListenerId} {point : RunPoint} (hmem : .run id l point ∈ system.frames thread)
    (hpoint : among point = true) : holds (system.executor id) := by
  refine hreach.everywhere id (fun executor _ frame => ∀ l point, frame = .run id l point →
    among point = true → holds executor) ?_ ?_ ?_ hmem (by simp [Frame.isCore]) l point rfl hpoint
  · rintro executor thread _ ⟨⟩ l point ⟨⟩ hpoint
    rw [hstart] at hpoint
    cases hpoint
  · rintro system after thread frame rest next hreach hadvance htransition hcore hframe _ hpushed -
      l point rfl hpoint
    exact hown hreach hadvance htransition hcore l point hpushed hpoint hframe
  · rintro system after thread frame rest next hreach hadvance htransition owner _ hother - hholds
      l point rfl hpoint
    refine hbeside hreach hadvance htransition ?_ owner l point (hadvance.mem_of_beside hother)
      hpoint (hholds l point rfl hpoint)
    rintro l' point' rfl
    by_contra hlive
    rw [hadvance.not_live_beside hreach hlive hother, hstart] at hpoint
    cases hpoint

/-- What a run does once: the entries of a kind and the frames that are still to make one
never become more, but where a run begins. -/
theorem ReachableUnder.once
    (hreach : (ofFragments fragments host).ReachableUnder permitted system) (id : ExecutorId)
    (kind : Entry → Bool) (due : Frame → Nat)
    (hforwarded : ∀ receiver, kind (.forwarded receiver) = false)
    (hentry : ∀ frame : Frame, frame.IsEntry → due frame = 0)
    (hstep : ∀ {view thread frame signal executor next executor'},
      Transition view thread id frame signal executor next executor' →
      frame.isCore id = true →
      tally kind executor'.journal + executor'.course.fresh +
          (next.frames.map (within id due)).sum ≤
        tally kind executor.journal + executor.course.fresh + due frame) :
    tally kind (system.executor id).journal + (system.executor id).course.fresh +
      system.total (within id due) ≤ 1 := by
  refine hreach.summed_within id
    (fun executor => tally kind executor.journal + executor.course.fresh) due (· ≤ 1)
    (fun _ _ _ => True) (fun _ _ => trivial) hentry ?_ (fun _ => Nat.le_refl 1) ?_
  · intro thread executor executor' hsame
    rw [hsame.tally_eq hforwarded, hsame.course]
  · intro view thread frame signal executor next executor' _ hcore htransition others hle
    have hmoved := hstep htransition hcore
    omega

/-- The thread of a course is named once and for all. -/
theorem Advance.thread_of_course
    (hreach : (ofFragments fragments host).ReachableUnder permitted system) {after : System}
    {thread owner : ThreadId} {frame : Frame} {rest : List Frame} {next : Next}
    (hadvance : system.Advance after thread frame rest next)
    (hcourse : (system.executor id).course.thread? = some owner) :
    (after.executor id).course.thread? = some owner := by
  have hmem : frame ∈ system.frames thread := hadvance.frames ▸ List.mem_cons_self
  obtain hsame | ⟨l, -, -, hnew, -⟩ | ⟨l, point, rfl, hpoint, -, hend⟩ :=
    (Frame.step_transition id hadvance.step).course_cases
  · exact (congrArg Course.thread? hsame).trans hcourse
  · rw [System.executor, hnew] at hcourse
    cases hcourse
  · rw [hreach.course_of_run hmem hpoint] at hcourse
    rcases hend with hend | hend <;> exact (congrArg Course.thread? hend).trans hcourse

/-- A run that a panic unwound stays so. -/
theorem Advance.unwound_of_unwound
    (hreach : (ofFragments fragments host).ReachableUnder permitted system) {after : System}
    {thread owner : ThreadId} {frame : Frame} {rest : List Frame} {next : Next}
    (hadvance : system.Advance after thread frame rest next)
    (hunwound : (system.executor id).course = .unwound owner) :
    (after.executor id).course = .unwound owner := by
  obtain hsame | ⟨l, -, -, hnew, -⟩ | ⟨l, point, rfl, hpoint, -⟩ :=
    (Frame.step_transition id hadvance.step).course_cases
  · exact hsame.trans hunwound
  · rw [System.executor, hnew] at hunwound
    cases hunwound
  · rw [hreach.course_of_run (hadvance.frames ▸ List.mem_cons_self) hpoint] at hunwound
    cases hunwound

end Live

end System

end FragmentLifecycle
