import FragmentLifecycle.Proofs.AtRest
import FragmentLifecycle.Proofs.CancelCalls
import FragmentLifecycle.Proofs.DepartureCall
import FragmentLifecycle.Proofs.Notifications

/-!
# What a departure has done so far

In a system at rest a departure of nodes becomes known.  While its call goes through the
listeners, the threads of the fragments that it has stopped may wind down.
`System.DepartureInvariant` tells where the call stands and what has become of every executor:
the watches that are still due are those of executors that nothing has touched, and of the
other fragments whose foreman departed each was asked and told.  Both kinds of steps keep it
(`System.DepartureInvariant.call_step`, `System.DepartureInvariant.worker_step`).
-/

namespace FragmentLifecycle

namespace Executor

/-- At most requests that changed nothing have been recorded. -/
structure IsSpared (before after : Executor) : Prop where
  same : after = { before with journal := after.journal }
  calls : callsMade after.journal = callsMade before.journal

/-- A request for the cancellation was accepted on `thread`, and the fragment has stopped. -/
structure IsAsked (executor : Executor) (thread : ThreadId) : Prop where
  stopped : executor.state.continues = false
  request : ⟨thread, .requested .running .cancellationRequested⟩ ∈ executor.journal

/-- The reporter was told of the cancellation on `thread`. -/
def IsTold (executor : Executor) (thread : ThreadId) : Prop :=
  ⟨thread, .entered .cancellation⟩ ∈ executor.journal

/-- From before to after, one request for the cancellation was accepted and the reporter was
told of it once, both on `thread`. -/
structure IsCancelledBy (before after : Executor) (thread : ThreadId) : Prop where
  unasked : tally (Entry.accepts .cancellationRequested) before.journal = 0
  accepted : tally (Entry.accepts .cancellationRequested) after.journal = 1
  request : ⟨thread, .requested .running .cancellationRequested⟩ ∈ after.journal
  untold : tally (Entry.isEntered (Call.tells .cancellationRequested)) before.journal = 0
  told : tally (Entry.isEntered (Call.tells .cancellationRequested)) after.journal = 1
  report : ⟨thread, .entered (.stateChanged .cancellationRequested)⟩ ∈ after.journal

variable {before after : Executor} {thread : ThreadId}

theorem IsSpared.refl (executor : Executor) : executor.IsSpared executor :=
  ⟨rfl, rfl⟩

/-- A fragment that has stopped is not asked to stop again. -/
theorem IsSpared.of_request (thread : ThreadId) (hstopped : before.state.continues = false) :
    before.IsSpared (before.request thread .cancellationRequested).2 := by
  have hdecision : before.lifecycle.state.decide .cancellationRequested = .ignore true := by
    rw [State.decide_cancellationRequested]
    exact if_neg (Bool.eq_false_iff.mp hstopped)
  constructor
  · simp [request, Lifecycle.request, hdecision, Decision.apply]
  · simp [callsMade]

theorem IsAsked.of_request (thread : ThreadId) (hstate : before.state = .running) :
    (before.request thread .cancellationRequested).2.IsAsked thread := by
  constructor
  · rw [state_request, hstate]
    rfl
  · rw [journal_request, hstate]
    exact List.mem_append_right _ List.mem_cons_self

theorem IsAsked.grows (hasked : before.IsAsked thread) (hgrows : before.Grows after) :
    after.IsAsked thread :=
  ⟨hgrows.stopped hasked.stopped, hgrows.journal.subset hasked.request⟩

theorem IsTold.grows (htold : before.IsTold thread) (hgrows : before.Grows after) :
    after.IsTold thread :=
  hgrows.journal.subset htold

end Executor

namespace System

/-- The systems that a departure of `nodes` leads to.  The call takes its steps, and so does the
thread of a fragment whose foreman departed, once this fragment has stopped.  Nobody makes
another departure known meanwhile. -/
inductive Departs (start : System) (nodes : NodeSet) : System → Prop
  | call : Departs start nodes (start.call (.depart nodes))
  | step {system after : System} {thread : ThreadId} (hdeparts : Departs start nodes system)
      (hmover : thread = start.threads.length ∨ ∃ id, start.IsAffected nodes id ∧
        (start.executor id).course = .underWay thread ∧
        (system.executor id).state.continues = false)
      (hsilent : ∀ frame rest, system.frames thread = frame :: rest →
        frame.isAnnouncement = false)
      (hstep : system.step thread = some after) : Departs start nodes after

/-- The call takes steps of its own in which it makes no other departure known. -/
theorem Departs.of_moves {start system after : System} {nodes : NodeSet} {count : Nat}
    (hdeparts : start.Departs nodes system)
    (hsilent : ∀ taken < count, ∀ middle,
      system.moves (List.replicate taken (.step start.threads.length)) = some middle →
      ∀ frame ∈ (middle.frames start.threads.length).head?, frame.isAnnouncement = false)
    (hmoves : system.moves (List.replicate count (.step start.threads.length)) = some after) :
    start.Departs nodes after := by
  induction count generalizing system with
  | zero =>
    obtain rfl := Option.some.inj hmoves
    exact hdeparts
  | succ count ih =>
    rw [List.replicate_succ] at hmoves
    obtain ⟨next, hstep, hrest⟩ := Option.bind_eq_some_iff.mp hmoves
    refine ih (hdeparts.step (.inl rfl) (fun frame rest hframes => ?_) hstep) ?_ hrest
    · exact hsilent 0 count.succ_pos system rfl frame (by rw [hframes]; rfl)
    · intro taken htaken middle hmiddle
      refine hsilent (taken + 1) (Nat.succ_lt_succ htaken) middle ?_
      rw [List.replicate_succ]
      exact Option.bind_eq_some_iff.mpr ⟨next, hstep, hmiddle⟩

/-- What the call has done to the executors, where it has still to look at the watches `due`
and is about to call the reporter of `telling`. -/
structure DepartureEffects (start : System) (nodes : NodeSet) (due : List Watch)
    (telling : Option ExecutorId) (system : System) : Prop where
  remaining : due <:+ start.world.registry.snapshot
  same : ∀ watch ∈ due, system.executor watch.executor = start.executor watch.executor
  grows : ∀ id, (start.executor id).Grows (system.executor id)
  spared : ∀ id, ¬ start.IsAffected nodes id →
    (start.executor id).IsSpared (system.executor id)
  cancelled : ∀ id, start.IsAffected nodes id → (∃ watch ∈ due, watch.executor = id) ∨
    ((system.executor id).IsAsked start.threads.length ∧
      (telling = some id ∨ (system.executor id).IsTold start.threads.length))

/-- Where the call stands and what it has done, and where the other threads stand. -/
structure DepartureInvariant (start : System) (nodes : NodeSet) (due : List Watch)
    (telling : Option ExecutorId) (system : System) : Prop where
  place : Departing nodes start.world.registry.snapshot (start.IsAffected nodes)
    (fun id => (start.executor id).fragment.Acknowledges) system.world due telling
    (system.frames start.threads.length) (system.signal start.threads.length)
  effects : start.DepartureEffects nodes due telling system
  own : ∀ id thread, start.IsAffected nodes id →
    (start.executor id).course = .underWay thread →
    ∀ frame ∈ system.frames thread, frame.isOwn id = true
  others : ∀ thread, thread ≠ start.threads.length →
    system.frames thread = start.frames thread ∨ ∃ id, start.IsAffected nodes id ∧
      (system.executor id).state.continues = false ∧
      ∀ frame ∈ system.frames thread, frame.isOwn id = true

section Effects

variable {start system after : System} {nodes : NodeSet} {due due' : List Watch}
  {telling telling' : Option ExecutorId}

/-- No executor changes, and the call leaves the watches of other foremen behind. -/
theorem DepartureEffects.unchanged (heffects : start.DepartureEffects nodes due telling system)
    (hexecutors : after.world.executors = system.world.executors) (hsuffix : due' <:+ due)
    (hdropped : ∀ watch ∈ due, watch ∉ due' → ¬ start.IsAffected nodes watch.executor) :
    start.DepartureEffects nodes due' telling after := by
  have hsame (id : ExecutorId) : after.executor id = system.executor id :=
    congrFun hexecutors id
  refine ⟨hsuffix.trans heffects.remaining, fun watch hmem => ?_, fun id => ?_, fun id hother => ?_,
    fun id haffected => ?_⟩
  · rw [hsame, heffects.same watch (hsuffix.subset hmem)]
  · rw [hsame]
    exact heffects.grows id
  · rw [hsame]
    exact heffects.spared id hother
  · rw [hsame]
    refine (heffects.cancelled id haffected).imp_left ?_
    rintro ⟨watch, hmem, rfl⟩
    by_contra hgone
    exact hdropped watch hmem (fun hstill => hgone ⟨watch, hstill, rfl⟩) haffected

/-- One executor changes that the call has not to look at any more. -/
theorem DepartureEffects.changes (id : ExecutorId)
    (heffects : start.DepartureEffects nodes due telling system)
    (hgrows : ∀ id, (system.executor id).Grows (after.executor id))
    (hkept : ∀ other, other ≠ id → after.executor other = system.executor other)
    (hsuffix : due' <:+ due) (hdue : ∀ watch ∈ due', watch.executor ≠ id)
    (hdropped : ∀ watch ∈ due, watch ∉ due' → watch.executor = id)
    (htelling : ∀ other, other ≠ id → telling = some other → telling' = some other)
    (hspared : ¬ start.IsAffected nodes id → (start.executor id).IsSpared (after.executor id))
    (hasked : start.IsAffected nodes id →
      (after.executor id).IsAsked start.threads.length ∧
        (telling' = some id ∨ (after.executor id).IsTold start.threads.length)) :
    start.DepartureEffects nodes due' telling' after := by
  refine ⟨hsuffix.trans heffects.remaining, fun watch hmem => ?_,
    fun id => (heffects.grows id).trans (hgrows id), fun other hother => ?_,
    fun other haffected => ?_⟩
  · rw [hkept _ (hdue watch hmem), heffects.same watch (hsuffix.subset hmem)]
  · by_cases hid : other = id
    · subst hid
      exact hspared hother
    · rw [hkept other hid]
      exact heffects.spared other hother
  · by_cases hid : other = id
    · subst hid
      exact .inr (hasked haffected)
    · rw [hkept other hid]
      refine (heffects.cancelled other haffected).imp ?_
        (And.imp_right (Or.imp_left (htelling other hid)))
      rintro ⟨watch, hmem, rfl⟩
      by_contra hgone
      exact hid (hdropped watch hmem fun hstill => hgone ⟨watch, hstill, rfl⟩)

end Effects

section Steps

variable {fragments : List Fragment} {host : Host} {permitted : Command → Prop}
  {start system after : System} {nodes : NodeSet} {due : List Watch} {telling : Option ExecutorId}
  {id : ExecutorId} {thread : ThreadId}

theorem frames_length (system : System) : system.frames system.threads.length = [] := by
  simp [System.frames, stack]

theorem frames_call (system : System) (command : Command) :
    (system.call command).frames system.threads.length = [command.frame] ∧
      (system.call command).signal system.threads.length = .go := by
  simp [System.frames, System.signal, stack, call]

theorem IsParked.ne_length (hparked : system.IsParked id thread) :
    thread ≠ system.threads.length := by
  rintro rfl
  obtain ⟨l, point, hrun, -⟩ := hparked.run
  rw [frames_length] at hrun
  cases hrun

theorem IsAtRest.begins (hreach : (ofFragments fragments host).ReachableUnder permitted start)
    (hrest : start.IsAtRest) :
    start.DepartureInvariant nodes start.world.registry.snapshot none
      (start.call (.depart nodes)) := by
  have hturn := start.turnover_of_call (.depart nodes)
  obtain ⟨hframes, hsignal⟩ := start.frames_call (.depart nodes)
  refine ⟨?_, ⟨List.suffix_refl _, fun _ _ => rfl, fun _ => .refl _, fun _ _ => .refl _, ?_⟩, ?_,
    fun thread hthread => .inl (hturn.others thread hthread).1⟩
  · rw [hframes, hsignal]
    exact .begins rfl (.inl rfl)
  · intro id haffected
    obtain ⟨added, hlisted⟩ := haffected.listed hreach
    exact .inl ⟨_, List.mem_map.mpr ⟨_, hlisted, rfl⟩, rfl⟩
  · intro id thread haffected hcourse
    have hparked := hrest.parked_of_affected hreach haffected hcourse
    rw [(hturn.others thread hparked.ne_length).1]
    exact hparked.own

/-- A watch that is still due is one of a run that stands, as the departure found it. -/
theorem DepartureEffects.listed (heffects : start.DepartureEffects nodes due telling system)
    {watch : Watch} (hmem : watch ∈ due) :
    ∃ added, (added, watch) ∈ start.world.registry.listeners := by
  obtain ⟨⟨added, _⟩, hlisted, rfl⟩ := List.mem_map.mp (heffects.remaining.subset hmem)
  exact ⟨added, hlisted⟩

/-- A fragment with a watch that is due goes on only if it runs. -/
theorem DepartureEffects.affected_of_continues
    (hreach : (ofFragments fragments host).ReachableUnder permitted start)
    (hrest : start.IsAtRest) (heffects : start.DepartureEffects nodes due telling system)
    {watch : Watch} (hmem : watch ∈ due) (hforeman : watch.foreman ∈ nodes)
    (hcontinues : (system.executor watch.executor).state.continues = true) :
    start.IsAffected nodes watch.executor := by
  obtain ⟨added, hlisted⟩ := heffects.listed hmem
  rw [heffects.same watch hmem] at hcontinues
  refine ⟨hrest.running_of_listed hreach hlisted hcontinues, ?_⟩
  have hwatch := (hrest.run_of_listed hreach hlisted).1
  rw [hwatch] at hforeman
  exact hforeman

theorem executor_of_request (hexecutors : after.world.executors =
      (system.world.request id thread .cancellationRequested).2.executors) :
    after.executor id = ((system.executor id).request thread .cancellationRequested).2 := by
  rw [System.executor, hexecutors, World.executors_snd_request, if_pos rfl, System.executor]

/-- The call asks the fragment of the watch that is due first, and changes nothing else. -/
theorem DepartureEffects.requests {watch : Watch} {rest : List Watch}
    (heffects : start.DepartureEffects nodes (watch :: rest) none system)
    (hgrows : ∀ id, (system.executor id).Grows (after.executor id))
    (hdistinct : (watch :: rest).Pairwise fun first second => first.executor ≠ second.executor)
    (hexecutors : after.world.executors = (system.world.request watch.executor thread
      .cancellationRequested).2.executors)
    (hspared : ¬ start.IsAffected nodes watch.executor →
      (start.executor watch.executor).IsSpared (after.executor watch.executor))
    (hasked : start.IsAffected nodes watch.executor →
      (after.executor watch.executor).IsAsked start.threads.length ∧
        (telling = some watch.executor ∨
          (after.executor watch.executor).IsTold start.threads.length)) :
    start.DepartureEffects nodes rest telling after := by
  refine heffects.changes watch.executor hgrows (fun other hother => ?_)
    (List.suffix_cons _ _) (fun other hmem => ?_) (fun other hmem hgone => ?_) (fun _ _ => nofun)
    hspared hasked
  · rw [System.executor, hexecutors, World.executors_snd_request, if_neg hother, System.executor]
  · exact ((List.pairwise_cons.mp hdistinct).1 other hmem).symm
  · rw [(List.mem_cons.mp hmem).resolve_right hgone]

/-- A fragment that the call has left behind has been asked. -/
theorem DepartureEffects.asked (heffects : start.DepartureEffects nodes due telling system)
    (haffected : start.IsAffected nodes id) (hdue : ∀ watch ∈ due, watch.executor ≠ id) :
    (system.executor id).IsAsked start.threads.length ∧
      (telling = some id ∨ (system.executor id).IsTold start.threads.length) :=
  (heffects.cancelled id haffected).resolve_left fun ⟨watch, hmem, hid⟩ => hdue watch hmem hid

/-- Only a fragment that the call has left behind changes. -/
theorem DepartureEffects.touches (heffects : start.DepartureEffects nodes due telling system)
    (haffected : start.IsAffected nodes id) (hdue : ∀ watch ∈ due, watch.executor ≠ id)
    (hgrows : ∀ id, (system.executor id).Grows (after.executor id))
    (hkept : ∀ other, other ≠ id → after.executor other = system.executor other) :
    start.DepartureEffects nodes due telling after := by
  refine heffects.changes id hgrows hkept (List.suffix_refl _) hdue
    (fun _ hmem hgone => absurd hmem hgone) (fun _ _ htelling => htelling) (absurd haffected)
    fun _ => ?_
  obtain ⟨hasked, htold⟩ := heffects.asked haffected hdue
  exact ⟨hasked.grows (hgrows id), htold.imp_right (·.grows (hgrows id))⟩

/-- What a step of the call does is what the invariant counts on. -/
theorem DepartureEffects.step
    (hreach : (ofFragments fragments host).ReachableUnder permitted start)
    (hrest : start.IsAtRest) (heffects : start.DepartureEffects nodes due telling system)
    (hgrows : ∀ id, (system.executor id).Grows (after.executor id)) {due' : List Watch}
    {telling' : Option ExecutorId}
    (hstep : DepartureStep nodes (start.IsAffected nodes) start.threads.length system.world
      after.world due telling due' telling') :
    start.DepartureEffects nodes due' telling' after := by
  have hdistinct := (hrest.snapshot_distinct hreach).sublist heffects.remaining.sublist
  cases hstep with
  | moves hexecutors =>
    exact heffects.unchanged hexecutors (List.suffix_refl _) fun _ hmem hgone =>
      absurd hmem hgone
  | @skips watch rest hforeman hexecutors =>
    refine heffects.unchanged hexecutors (List.suffix_cons _ _) fun other hmem hgone => ?_
    obtain rfl := (List.mem_cons.mp hmem).resolve_right hgone
    rintro ⟨-, hdeparted⟩
    obtain ⟨added, hlisted⟩ := heffects.listed hmem
    rw [(hrest.run_of_listed hreach hlisted).1] at hforeman
    exact hforeman hdeparted
  | @asks watch rest hforeman hcontinues hexecutors =>
    have haffected :=
      heffects.affected_of_continues hreach hrest List.mem_cons_self hforeman hcontinues
    refine heffects.requests hgrows hdistinct hexecutors (absurd haffected) fun _ => ⟨?_, .inl rfl⟩
    rw [executor_of_request hexecutors, heffects.same watch List.mem_cons_self]
    exact .of_request _ haffected.1
  | @passes watch rest hstopped hexecutors =>
    have hsame := heffects.same watch List.mem_cons_self
    refine heffects.requests hgrows hdistinct hexecutors (fun _ => ?_) fun haffected => ?_
    · rw [executor_of_request hexecutors, ← hsame]
      exact .of_request _ hstopped
    · replace hstopped : (system.executor watch.executor).state.continues = false := hstopped
      rw [hsame, haffected.1] at hstopped
      cases hstopped
  | @tells id rest haffected hother hexecutors =>
    have hafter (id : ExecutorId) : after.executor id = _ := congrFun hexecutors id
    refine heffects.changes id hgrows (fun other hother => ?_) (List.suffix_refl _) hother
      (fun _ hmem hgone => absurd hmem hgone) (fun other hne htelling => ?_) (absurd haffected)
      (fun _ => ⟨?_, .inr ?_⟩)
    · rw [hafter]
      exact overwrite_of_ne _ _ hother
    · exact absurd (Option.some.inj htelling).symm hne
    · exact (heffects.asked haffected hother).1.grows (hgrows id)
    · rw [hafter]
      simp [World.record, World.modify, overwrite, Executor.IsTold, Executor.record]
  | acts haffected hother hothers =>
    exact heffects.touches haffected hother hgrows hothers

/-! ### The steps -/

/-- The actions that the reporter plays when it is told of a cancellation. -/
def reportLength (system : System) (id : ExecutorId) : Nat :=
  ((system.executor id).fragment.script.onReport .cancellationRequested).actions.length

/-- The steps of its own that the call has still to take. -/
def departureCost (start system : System) : Nat :=
  stackCost start.reportLength (watchCost start.reportLength start.world.registry.snapshot)
    (system.frames start.threads.length)

/-- A step of the call moves it to another place.  Where the reporters acknowledge, it comes
nearer to its end. -/
theorem DepartureInvariant.call_step
    (hreach : (ofFragments fragments host).ReachableUnder permitted start)
    (hrest : start.IsAtRest)
    (hsystem : (ofFragments fragments host).ReachableUnder permitted system)
    (hinvariant : start.DepartureInvariant nodes due telling system)
    (hsilent : ∀ frame rest, system.frames start.threads.length = frame :: rest →
      frame.isAnnouncement = false)
    (hstep : system.step start.threads.length = some after) :
    (∃ due' telling', start.DepartureInvariant nodes due' telling' after) ∧
      ((∀ id, start.IsAffected nodes id → (start.executor id).fragment.Acknowledges) →
        departureCost start after < departureCost start system ∧
          after.world.exit = system.world.exit) := by
  obtain ⟨hplace, heffects, hown, hothers⟩ := hinvariant
  obtain ⟨frame, rest, next, hadvance⟩ := advance_of_step hstep
  have hgrows (id : ExecutorId) := (Frame.step_transition id hadvance.step).grows
  have hmove : DepartureMove nodes start.world.registry.snapshot (start.IsAffected nodes)
      (fun id => (start.executor id).fragment.Acknowledges) start.reportLength
      (watchCost start.reportLength start.world.registry.snapshot) start.threads.length
      system.world after.world frame rest next due telling := by
    rw [hadvance.frames] at hplace
    refine hplace.step hadvance.step (hsilent frame rest hadvance.frames) hsystem.not_released
      heffects.remaining (fun watch hmem => ?_) (fun watch hmem hforeman hcontinues => ?_)
      (fun id hreporter => ?_) (fun id => ?_) ?_ (fun id payload hframe hraised => ?_) ?_
    · obtain ⟨added, hlisted⟩ := heffects.listed hmem
      have hheld := (hrest.held_of_listed hreach hlisted).1
      rwa [← heffects.same watch hmem] at hheld
    · exact heffects.affected_of_continues hreach hrest hmem hforeman hcontinues
    · rwa [← (heffects.grows id).fragment] at hreporter
    · rw [reportLength, ← (heffects.grows id).fragment]
      rfl
    · exact (hrest.snapshot_distinct hreach).sublist heffects.remaining.sublist
    · subst hframe
      exact hsystem.lost_of_raised hadvance.frames hraised
    · obtain ⟨seen, hseen⟩ := heffects.remaining
      simp [← hseen, watchCost]
  obtain ⟨hforked, ⟨due', telling', hdone, hleads⟩, hnears⟩ := hmove
  have hsame {other : ThreadId} (hother : other ≠ start.threads.length) :
      after.frames other = system.frames other :=
    (hadvance.same_of_unforked hstep hforked hother).1
  refine ⟨⟨due', telling', ?_, heffects.step hreach hrest hgrows hdone, ?_, ?_⟩, fun hall => ?_⟩
  · rwa [hadvance.own, hadvance.ownSignal]
  · intro id thread haffected hcourse
    rw [hsame (hrest.parked_of_affected hreach haffected hcourse).ne_length]
    exact hown id thread haffected hcourse
  · intro thread hthread
    rw [hsame hthread]
    refine (hothers thread hthread).imp_right ?_
    rintro ⟨id, haffected, hstopped, hframes⟩
    exact ⟨id, haffected, (hgrows id).stopped hstopped, hframes⟩
  · rw [departureCost, departureCost, hadvance.own, hadvance.frames]
    exact hnears hall

/-- A step on the thread of a fragment that the call has stopped touches this fragment only. -/
theorem DepartureInvariant.worker_step
    (hreach : (ofFragments fragments host).ReachableUnder permitted start)
    (hrest : start.IsAtRest) (hinvariant : start.DepartureInvariant nodes due telling system)
    (haffected : start.IsAffected nodes id)
    (hcourse : (start.executor id).course = .underWay thread)
    (hstopped : (system.executor id).state.continues = false)
    (hsilent : ∀ frame rest, system.frames thread = frame :: rest → frame.isAnnouncement = false)
    (hstep : system.step thread = some after) :
    start.DepartureInvariant nodes due telling after := by
  obtain ⟨hplace, heffects, hown, hothers⟩ := hinvariant
  obtain ⟨frame, rest, next, hadvance⟩ := advance_of_step hstep
  have hparked := hrest.parked_of_affected hreach haffected hcourse
  have hgrows (id : ExecutorId) := (Frame.step_transition id hadvance.step).grows
  have hframes : ∀ frame ∈ system.frames thread, frame.isOwn id = true :=
    hown id thread haffected hcourse
  have hkeeps := Frame.step_own (hframes frame (hadvance.frames ▸ List.mem_cons_self))
    (hsilent frame rest hadvance.frames) hadvance.step
  have hafter : ∀ frame ∈ after.frames thread, frame.isOwn id = true := by
    rw [hadvance.own]
    intro frame hmem
    rcases List.mem_append.mp hmem with hpushed | hbelow
    · exact hkeeps.frames frame hpushed
    · exact hframes frame (hadvance.frames ▸ List.mem_cons_of_mem _ hbelow)
  have hsame {other : ThreadId} (hother : other ≠ thread) :=
    hadvance.same_of_unforked hstep hkeeps.forked hother
  -- a fragment that has stopped is behind the call
  have hdue : ∀ watch ∈ due, watch.executor ≠ id := by
    rintro watch hmem rfl
    rw [heffects.same watch hmem, haffected.1] at hstopped
    cases hstopped
  refine ⟨?_, heffects.touches haffected hdue hgrows hkeeps.others, ?_, ?_⟩
  · rw [(hsame hparked.ne_length.symm).1, (hsame hparked.ne_length.symm).2]
    refine hplace.of_journals ?_ fun id => (hgrows id).journal
    rintro rfl
    obtain ⟨added, hlisted⟩ := haffected.listed hreach
    exact hdue _ (List.mem_map.mpr ⟨_, hlisted, rfl⟩) rfl
  · intro other owner hother howner
    by_cases howned : owner = thread
    · subst howned
      obtain rfl := hparked.unique (hrest.parked_of_affected hreach hother howner)
      exact hafter
    · rw [(hsame howned).1]
      exact hown other owner hother howner
  · intro owner howner
    by_cases howned : owner = thread
    · subst howned
      exact .inr ⟨id, haffected, (hgrows id).stopped hstopped, hafter⟩
    · rw [(hsame howned).1]
      refine (hothers owner howner).imp_right ?_
      rintro ⟨other, hother, hdone, hkept⟩
      exact ⟨other, hother, (hgrows other).stopped hdone, hkept⟩

/-- Whatever the order of the steps, a departure keeps its invariant. -/
theorem Departs.invariant
    (hreach : (ofFragments fragments host).Reachable start) (hrest : start.IsAtRest)
    (hdeparts : start.Departs nodes system) :
    (ofFragments fragments host).Reachable system ∧
      ∃ due telling, start.DepartureInvariant nodes due telling system := by
  induction hdeparts with
  | call => exact ⟨.move (.call _) hreach rfl, _, _, hrest.begins hreach.unrestricted⟩
  | @step system after thread _ hmover hsilent hstep ih =>
    obtain ⟨hsystem, due, telling, hinvariant⟩ := ih
    refine ⟨.move (.step thread) hsystem hstep, ?_⟩
    rcases hmover with rfl | ⟨id, haffected, hcourse, hstopped⟩
    · exact (hinvariant.call_step hreach.unrestricted hrest hsystem.unrestricted hsilent hstep).1
    · exact ⟨due, telling, hinvariant.worker_step hreach.unrestricted hrest haffected hcourse
        hstopped hsilent hstep⟩

end Steps

end System

end FragmentLifecycle
