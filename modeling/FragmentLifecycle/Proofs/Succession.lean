import FragmentLifecycle.Proofs.Growth

/-!
# What a thread did last

A frame that calls nothing is the innermost one of its thread until it moves.  So what
holds where it is pushed holds where it moves, unless another thread takes it back
(`System.ReachableUnder.innermost`), and what its thread has recorded before is the last
record of this thread.
-/

namespace FragmentLifecycle

/-- The last record of a thread. -/
def LastOf (thread : ThreadId) (entry : Entry) (journal : List Record) : Prop :=
  ∃ earlier middle, journal = earlier ++ ⟨thread, entry⟩ :: middle ∧
    ∀ record ∈ middle, record.thread ≠ thread

namespace LastOf

variable {thread other : ThreadId} {entry : Entry} {journal : List Record}

theorem self (journal : List Record) (thread : ThreadId) (entry : Entry) :
    LastOf thread entry (journal ++ [⟨thread, entry⟩]) :=
  ⟨journal, [], rfl, by simp⟩

theorem append (hlast : LastOf thread entry journal) (hother : other ≠ thread) (later : Entry) :
    LastOf thread entry (journal ++ [⟨other, later⟩]) := by
  obtain ⟨earlier, middle, rfl, hmiddle⟩ := hlast
  refine ⟨earlier, middle ++ [⟨other, later⟩], by simp, ?_⟩
  intro record hrecord
  rcases List.mem_append.mp hrecord with hold | hnew
  · exact hmiddle record hold
  · obtain rfl := List.mem_singleton.mp hnew
    exact hother

/-- What a thread did last, it did no earlier than anything else that it did. -/
theorem since {earlier later : List Record} {record : Record}
    (hlast : LastOf record.thread entry (earlier ++ record :: later)) :
    LastOf record.thread entry (record :: later) := by
  obtain ⟨before, middle, hsplit, hmiddle⟩ := hlast
  rcases List.append_eq_append_iff.mp hsplit with ⟨between, rfl, hlater⟩ | ⟨between, rfl, hlater⟩
  · exact ⟨between, middle, hlater, hmiddle⟩
  · cases between with
    | nil => exact ⟨[], middle, hlater.symm, hmiddle⟩
    | cons first between =>
      obtain ⟨-, rfl⟩ := List.cons.inj hlater
      exact absurd rfl (hmiddle record (by simp))

theorem of_cons {record : Record} (hlast : LastOf thread entry (record :: journal))
    (hother : record.entry ≠ entry) : LastOf thread entry journal := by
  obtain ⟨before, middle, hsplit, hmiddle⟩ := hlast
  cases before with
  | nil =>
    obtain ⟨rfl, -⟩ := List.cons.inj hsplit
    exact absurd rfl hother
  | cons first before =>
    obtain ⟨-, rfl⟩ := List.cons.inj hsplit
    exact ⟨before, middle, rfl, hmiddle⟩

end LastOf

/-- A step on another thread leaves the last record of a thread as it is. -/
theorem Transition.lastOf {view : LockView} {thread owner : ThreadId} {id : ExecutorId}
    {frame : Frame} {signal : Signal} {executor executor' : Executor} {next : Next}
    {entry : Entry}
    (htransition : Transition view thread id frame signal executor next executor')
    (howner : owner ≠ thread) (hlast : LastOf owner entry executor.journal) :
    LastOf owner entry executor'.journal := by
  rcases htransition.journal_cases with hsame | ⟨later, -, hlonger⟩
  · rwa [hsame]
  · rw [hlonger]
    exact hlast.append howner.symm later

namespace System

section Succession

variable {fragments : List Fragment} {host : Host} {permitted : Command → Prop}
  {system : System} {id : ExecutorId}

/-- A fact about frames of the lifecycle of `id` that call nothing: it holds where such a
frame is pushed, and is kept while other threads move. -/
theorem ReachableUnder.innermost (id : ExecutorId) (idle : Frame → Prop)
    (holds : System → ThreadId → Frame → Prop)
    (hidle : ∀ frame role, idle frame → ¬ frame.Awaits role)
    (hentry : ∀ frame : Frame, frame.IsEntry → ¬ idle frame)
    (hturn : ∀ {system after : System} {thread root}, system.Turnover after thread root →
      ∀ owner frame, after.frames owner = system.frames owner → holds system owner frame →
        holds after owner frame)
    (hpush : ∀ {system after : System} {thread frame rest next},
      (ofFragments fragments host).ReachableUnder permitted system →
      system.Advance after thread frame rest next →
      Transition (system.view thread) thread id frame (system.signal thread)
        (system.executor id) next (after.executor id) →
      frame.isCore id = true → ∀ pushed ∈ next.frames, idle pushed → holds after thread pushed)
    (hkeep : ∀ {system after : System} {thread frame rest next},
      (ofFragments fragments host).ReachableUnder permitted system →
      system.Advance after thread frame rest next →
      Transition (system.view thread) thread id frame (system.signal thread)
        (system.executor id) next (after.executor id) →
      ∀ owner other, owner ≠ thread → other ∈ system.frames owner → idle other →
        after.frames owner = system.frames owner → holds system owner other →
          holds after owner other)
    (hreach : (ofFragments fragments host).ReachableUnder permitted system) {thread : ThreadId}
    {frame : Frame} (hmem : frame ∈ system.frames thread) (hcore : frame.isCore id = true)
    (hframe : idle frame) : holds system thread frame := by
  refine hreach.invariant (fun system => ∀ thread, ∀ frame ∈ system.frames thread,
    frame.isCore id = true → idle frame → holds system thread frame) ?_ ?_ ?_ thread frame hmem
    hcore hframe
  · intro thread frame hmem
    cases hmem
  · intro system after thread root hturnover hholds owner frame hmem hcore hframe
    have hsame := hturnover.frames_of_core hmem hcore
    exact hturn hturnover owner frame hsame (hholds owner frame (hsame ▸ hmem) hcore hframe)
  · intro system after thread frame rest next hreach hadvance hholds owner other hmem hcore hother
    have htransition := Frame.step_transition id hadvance.step
    by_cases howner : owner = thread
    · subst howner
      rw [hadvance.own] at hmem
      rcases List.mem_append.mp hmem with hpushed | hrest
      · by_cases hmover : frame.isCore id = true
        · exact hpush hreach hadvance htransition hmover other hpushed hother
        · obtain ⟨hframes, -⟩ := htransition.outside (by simpa using hmover)
          exact absurd hother
            (hentry other (hframes other (List.mem_append_left _ hpushed) hcore))
      · -- a frame that stands below another one has called it
        obtain ⟨role, hawaits⟩ := (hadvance.frames ▸ hreach.linked owner).exists_callee hrest
        exact absurd hawaits (hidle other role hother)
    · have hsame := hadvance.frames_of_core howner hmem hcore
      have hbefore := hsame ▸ hmem
      exact hkeep hreach hadvance htransition owner other howner hbefore hother hsame
        (hholds owner other hbefore hcore hother)

/-- The last thing that a thread did before it asks for the failed state is to record the
cause. -/
theorem ReachableUnder.cause_of_failure
    (hreach : (ofFragments fragments host).ReachableUnder permitted system)
    {thread : ThreadId} {cause : Fault}
    (hmem : .fail id cause .request ∈ system.frames thread) :
    LastOf thread (.recorded cause) (system.executor id).journal := by
  refine hreach.innermost id (fun frame => frame = .fail id cause .request)
    (fun system thread _ => LastOf thread (.recorded cause) (system.executor id).journal)
    ?_ ?_ ?_ ?_ ?_ hmem (by simp [Frame.isCore]) rfl
  · rintro frame role rfl hawaits
    cases hawaits
  · rintro frame ⟨⟩ ⟨⟩
  · intro system after thread root hturn owner frame _ hlast
    rwa [hturn.executor_eq]
  · rintro system after thread frame rest next hreach hadvance htransition hcore _ hpushed rfl
    generalize system.signal thread = signal, system.executor id = executor,
      after.executor id = executor' at htransition
    cases htransition
    case aside houtside _ _ => simp [houtside] at hcore
    case causeAppended =>
      simp at hpushed
      rw [hpushed]
      exact .self _ _ _
    all_goals simp at hpushed
  · intro system after thread frame rest next _ _ htransition owner other howner _ _ _ hlast
    exact htransition.lastOf howner hlast

end Succession

end System

end FragmentLifecycle
