import FragmentLifecycle.Proofs.Departures

/-!
# The departure of a foreman

A departure that becomes known in a system at rest cancels the running fragments whose foremen
are among the departed nodes, and spares all others (`System.foreman_departure`).  The call
returns where the reporters that it calls do.  A reporter that panics ends it, and the fragments
that would have come next go on (`System.departure_broken_off`).
-/

namespace FragmentLifecycle

/-- Only the calls on an executor hold its setup lock. -/
theorem Frame.eq_of_holds_setup {frame : Frame} {id other : ExecutorId}
    (hown : frame.isOwn id = true) (hholds : frame.holds (.setup other) = true) :
    other = id := by
  cases frame <;> simp_all [isOwn, holds]

namespace System

/-- The thread has come to the end of its call, and no panic ended it. -/
def HasReturned (system : System) (thread : ThreadId) : Prop :=
  system.frames thread = [] ∧ ∃ reply, system.signal thread = .replied reply

/-- The reporter that was called for `watch` panicked and so ended the call, which has never
looked at the watches `due`. -/
structure IsBrokenOff (start : System) (nodes : NodeSet) (watch : Watch) (due : List Watch)
    (after : System) : Prop where
  order : watch :: due <:+ start.world.registry.snapshot
  affected : start.IsAffected nodes watch.executor
  panicked : 0 < tally Entry.isLostCancellation (after.executor watch.executor).journal
  cancelled : ∀ id, start.IsAffected nodes id → (∀ other ∈ due, other.executor ≠ id) →
    (start.executor id).IsCancelledBy (after.executor id) start.threads.length
  untouched : ∀ other ∈ due, after.executor other.executor = start.executor other.executor

section Departures

variable {fragments : List Fragment} {host : Host} {permitted : Command → Prop}
  {start system : System} {nodes : NodeSet} {due : List Watch} {telling : Option ExecutorId}
  {id : ExecutorId} {thread : ThreadId} {rest : List Frame}

/-! ### What the call has done in the end -/

/-- A request that was accepted and told was so once. -/
theorem ReachableUnder.isCancelledBy
    (hsystem : (ofFragments fragments host).ReachableUnder permitted system)
    (hreach : (ofFragments fragments host).ReachableUnder permitted start)
    (hrunning : (start.executor id).state = .running)
    (hasked : (system.executor id).IsAsked thread) (htold : (system.executor id).IsTold thread) :
    (start.executor id).IsCancelledBy (system.executor id) thread := by
  have hunasked : tally (Entry.accepts .cancellationRequested) (start.executor id).journal = 0 := by
    have hmost := accepted_le (hreach.faithful id) .cancellationRequested
    rw [← hreach.state_eq_replay id, hrunning, State.announces_cancellationRequested] at hmost
    exact Nat.le_zero.mp (Nat.le_of_succ_le_succ hmost)
  have haccepted :
      tally (Entry.accepts .cancellationRequested) (system.executor id).journal = 1 := by
    have hmost := accepted_le (hsystem.faithful id) .cancellationRequested
    have hleast := (tally_pos_iff (Entry.accepts .cancellationRequested) _).mpr
      ⟨_, hasked.request, rfl⟩
    omega
  have htotal := hreach.told_total id .cancellationRequested rfl
  have htotal' := hsystem.told_total id .cancellationRequested rfl
  have hleast := (tally_pos_iff (Entry.isEntered (Call.tells .cancellationRequested)) _).mpr
    ⟨_, htold, rfl⟩
  exact ⟨hunasked, haccepted, hasked.request, by omega, by omega, htold⟩

/-- The call has cancelled every affected fragment that it has looked at. -/
theorem DepartureInvariant.cancelled (hreach : (ofFragments fragments host).Reachable start)
    (hsystem : (ofFragments fragments host).Reachable system)
    (hinvariant : start.DepartureInvariant nodes due none system)
    (haffected : start.IsAffected nodes id) (hdue : ∀ watch ∈ due, watch.executor ≠ id) :
    (start.executor id).IsCancelledBy (system.executor id) start.threads.length := by
  obtain ⟨hasked, htold⟩ := hinvariant.effects.asked haffected hdue
  exact hsystem.unrestricted.isCancelledBy hreach.unrestricted haffected.1 hasked
    (htold.resolve_left nofun)

theorem Departs.cancelled (hreach : (ofFragments fragments host).Reachable start)
    (hrest : start.IsAtRest) (hdeparts : start.Departs nodes system)
    (hreturned : system.HasReturned start.threads.length) (haffected : start.IsAffected nodes id) :
    (start.executor id).IsCancelledBy (system.executor id) start.threads.length := by
  obtain ⟨hsystem, due, telling, hinvariant⟩ := hdeparts.invariant hreach hrest
  obtain ⟨hframes, reply, hsignal⟩ := hreturned
  have hplace := hinvariant.place
  rw [hframes, hsignal] at hplace
  obtain ⟨rfl, ⟨rfl, -⟩ | ⟨_, _, -, -, hraised⟩⟩ := hplace.over
  · exact hinvariant.cancelled hreach hsystem haffected nofun
  · cases hraised

/-- A panic that ends the call is one of the reporter that it called last. -/
theorem Departs.broken_off (hreach : (ofFragments fragments host).Reachable start)
    (hrest : start.IsAtRest) (hdeparts : start.Departs nodes system)
    (hframes : system.frames start.threads.length = []) {payload : Payload}
    (hsignal : system.signal start.threads.length = .raised payload) :
    ∃ watch due, start.IsBrokenOff nodes watch due system := by
  obtain ⟨hsystem, due, telling, hinvariant⟩ := hdeparts.invariant hreach hrest
  have hplace := hinvariant.place
  rw [hframes, hsignal] at hplace
  obtain ⟨rfl, ⟨-, reply, hreplied⟩ | ⟨_, _, ⟨haffected, -, watch, rfl, hlast⟩, hlost, -⟩⟩ :=
    hplace.over
  · cases hreplied
  · exact ⟨watch, due, hlast, haffected, hlost,
      fun id hid hdue => hinvariant.cancelled hreach hsystem hid hdue, hinvariant.effects.same⟩

/-! ### The call returns -/

/-- Nobody but the call is in the setup section of a fragment whose watch is due. -/
theorem DepartureInvariant.unlocked
    (hreach : (ofFragments fragments host).ReachableUnder permitted start)
    (hrest : start.IsAtRest) (hinvariant : start.DepartureInvariant nodes due telling system)
    {watch : Watch} (hmem : watch ∈ due) :
    (system.view start.threads.length).setupHeldElsewhere watch.executor = false := by
  by_contra hheld
  obtain ⟨owner, howner, frame, hframe, hholds⟩ :=
    heldElsewhere_iff.mp (Bool.not_eq_false _ ▸ hheld)
  obtain ⟨added, hlisted⟩ := hinvariant.effects.listed hmem
  rcases hinvariant.others owner howner with hsame | ⟨id, haffected, hstopped, hown⟩
  · obtain ⟨thread, -, hparked⟩ := hrest.parked_of_listed hreach hlisted
    have hlocked := held_iff.mpr ⟨owner, frame, hsame ▸ hframe, hholds⟩
    rw [hparked.unlocked] at hlocked
    cases hlocked
  · obtain rfl := Frame.eq_of_holds_setup (hown frame hframe) hholds
    rw [hinvariant.effects.same watch hmem, haffected.1] at hstopped
    cases hstopped

/-- Where the reporters acknowledge, a call that has not returned can take a step. -/
theorem DepartureInvariant.exists_step
    (hreach : (ofFragments fragments host).ReachableUnder permitted start)
    (hrest : start.IsAtRest)
    (hsystem : (ofFragments fragments host).ReachableUnder permitted system)
    (hinvariant : start.DepartureInvariant nodes due telling system)
    (hall : ∀ id, start.IsAffected nodes id → (start.executor id).fragment.Acknowledges)
    (hexit : system.world.exit = none) {frame : Frame}
    (hframes : system.frames start.threads.length = frame :: rest) :
    ∃ after, system.step start.threads.length = some after := by
  by_contra hstuck
  have hplace := hinvariant.place
  rw [hframes] at hplace
  obtain ⟨hfree, hawake⟩ := hplace.not_stopped hall
    (fun watch hmem => hinvariant.unlocked hreach hrest hmem) fun watch hmem => by
      obtain ⟨added, hlisted⟩ := hinvariant.effects.listed hmem
      have hopen := (hrest.held_of_listed hreach hlisted).2
      rwa [← hinvariant.effects.same watch hmem] at hopen
  have hnone : system.step start.threads.length = none :=
    Option.eq_none_iff_forall_ne_some.mpr fun after hafter => hstuck ⟨after, hafter⟩
  exact (hsystem.stuck_cases hexit hframes hnone).elim hfree hawake

/-- Where the reporters acknowledge, the call comes to its end by its own steps. -/
theorem Departs.returns (hreach : (ofFragments fragments host).Reachable start)
    (hrest : start.IsAtRest) (hdeparts : start.Departs nodes system)
    (hall : ∀ id, start.IsAffected nodes id → (start.executor id).fragment.Acknowledges)
    (hexit : system.world.exit = none) :
    ∃ count done, system.moves (List.replicate count (.step start.threads.length)) = some done ∧
      start.Departs nodes done ∧ done.HasReturned start.threads.length := by
  induction hcost : departureCost start system using Nat.strong_induction_on
    generalizing system with
  | _ cost ih =>
    obtain ⟨hsystem, due, telling, hinvariant⟩ := hdeparts.invariant hreach hrest
    have hplace := hinvariant.place
    cases hframes : system.frames start.threads.length with
    | nil =>
      rw [hframes] at hplace
      exact ⟨0, system, rfl, hdeparts, hframes, hplace.returned hall⟩
    | cons frame rest =>
      rw [hframes] at hplace
      have hsilent (top : Frame) (below : List Frame)
          (htop : system.frames start.threads.length = top :: below) :
          top.isAnnouncement = false := by
        obtain ⟨rfl, rfl⟩ := List.cons.inj (hframes.symm.trans htop)
        exact hplace.silent hall
      obtain ⟨after, hstep⟩ := hinvariant.exists_step hreach.unrestricted hrest
        hsystem.unrestricted hall hexit hframes
      obtain ⟨hnearer, hsame⟩ := (hinvariant.call_step hreach.unrestricted hrest
        hsystem.unrestricted hsilent hstep).2 hall
      obtain ⟨count, done, hmoves, hdone, hreturned⟩ := ih _ (hcost ▸ hnearer)
        (hdeparts.step (.inl rfl) hsilent hstep) (hsame.trans hexit) rfl
      refine ⟨count + 1, done, ?_, hdone, hreturned⟩
      rw [List.replicate_succ, moves, move, hstep]
      exact hmoves

end Departures

/-- A departure of nodes that becomes known in a system at rest spares every executor but the
running ones whose foremen departed.  When its call has returned, each of these was asked for its
cancellation once and its reporter was told of it once, by the call.  A panic of such a reporter
ends the call: this holds of the fragments up to that one, in the order of their listeners, and
the others are untouched.  The call returns where all these reporters do.  Nodes that register
change nothing.  A run that has come to its end has left no listener, and from its beginning on
all others have stayed, in their order. -/
theorem foreman_departure {fragments : List Fragment} {host : Host} {start : System}
    (hreach : (ofFragments fragments host).Reachable start) :
    (∀ nodes, start.IsAtRest → ∀ after, start.Departs nodes after →
      (∀ id, ¬ start.IsAffected nodes id →
        (start.executor id).IsSpared (after.executor id)) ∧
      (after.HasReturned start.threads.length → ∀ id, start.IsAffected nodes id →
        (start.executor id).IsCancelledBy (after.executor id) start.threads.length) ∧
      (∀ payload, after.frames start.threads.length = [] →
        after.signal start.threads.length = .raised payload →
        ∃ watch due, start.IsBrokenOff nodes watch due after) ∧
      ((∀ id, start.IsAffected nodes id → (start.executor id).fragment.Acknowledges) →
        after.world.exit = none → ∃ count done,
          after.moves (List.replicate count (.step start.threads.length)) = some done ∧
            start.Departs nodes done ∧ done.HasReturned start.threads.length)) ∧
    (∀ thread id nodes rest after,
      start.frames thread = .perform id (.register nodes) .start :: rest →
      start.step thread = some after →
      after.world = start.world ∧ after.frames thread = rest) ∧
    (∀ id thread, (start.executor id).course = .ended thread →
      ∀ entry ∈ start.world.registry.listeners, entry.2.executor ≠ id) ∧
    ∀ id after, start.ReachableApart id after → after.others id = start.others id ∧
      ∀ thread, (start.executor id).course = .notStarted →
        (after.executor id).course = .ended thread →
        after.world.registry.listeners = start.world.registry.listeners := by
  refine ⟨fun nodes hrest after hdeparts => ⟨?_, ?_, ?_, ?_⟩, ?_, ?_, ?_⟩
  · obtain ⟨-, due, telling, hinvariant⟩ := hdeparts.invariant hreach hrest
    exact hinvariant.effects.spared
  · exact fun hreturned id haffected => hdeparts.cancelled hreach hrest hreturned haffected
  · exact fun payload hframes hsignal => hdeparts.broken_off hreach hrest hframes hsignal
  · exact fun hall hexit => hdeparts.returns hreach hrest hall hexit
  · intro thread id nodes rest after hframes hstep
    obtain ⟨frame, below, next, hadvance⟩ := advance_of_step hstep
    obtain ⟨rfl, rfl⟩ := List.cons.inj (hframes.symm.trans hadvance.frames)
    have htaken := hadvance.step
    rw [hreach.unrestricted.signal_go hframes nofun] at htaken
    obtain ⟨hworld, rfl⟩ := Prod.mk.inj (Option.some.inj htaken)
    exact ⟨hworld.symm, hadvance.own⟩
  · exact fun id thread hended => hreach.unrestricted.not_listed (.inr ⟨thread, hended⟩)
  · intro id after hapart
    exact ⟨(hapart.others_eq hreach).2, fun thread hnew hended =>
      hapart.listeners_eq hreach hnew hended⟩

/-! ### Fragments that wait in their trees -/

/-- A fragment whose tree waits in its first advance until the fragment is to stop, with what
its reporter does when it is told of a cancellation. -/
def waitingFragment (foreman : Node) (onCancellation : Plan) : Fragment :=
  { Fragment.vacant with
    identity := { Fragment.vacant.identity with foreman }
    script :=
      { steps := [{ outcome := .park }]
        onReport := fun state => if state = .cancellationRequested then onCancellation else {} } }

/-- A run that waits in an advance of its tree is parked. -/
theorem Reachable.isParked {fragments : List Fragment} {host : Host} {system : System}
    (hreach : (ofFragments fragments host).Reachable system) {id : ExecutorId} {thread : ThreadId}
    {index : Nat} {l : Option ListenerId} {principal : Option Principal}
    (hframes : system.frames thread = [.call id (.next index) .parked,
      .run id l (.advancing principal), .perform id .run .waiting])
    (hunlocked : system.held (.setup id) = false) :
    (system.executor id).course = .underWay thread ∧ system.IsParked id thread := by
  have hrun : .run id l (.advancing principal) ∈ system.frames thread := by simp [hframes]
  refine ⟨hreach.unrestricted.course_of_run hrun (by simp), ⟨l, _, hrun, rfl⟩, ?_, hunlocked⟩
  simp [hframes, Frame.isOwn]

/-- Of two fragments inside an advance of their trees, the one whose foreman departs is
cancelled.  A third one has come to its end. -/
theorem foreman_departure_of_one : ∃ start nodes after,
    (ofFragments [waitingFragment ⟨"a", 1, 2, 3⟩ {}, waitingFragment ⟨"b", 1, 2, 3⟩ {}, .vacant]
      { slots := { free := 0 } }).Reachable start ∧ start.IsAtRest ∧
      start.Departs nodes after ∧ after.HasReturned start.threads.length ∧
      start.IsAffected nodes 0 ∧
      (start.executor 0).IsCancelledBy (after.executor 0) start.threads.length ∧
      (start.executor 1).state = .running ∧ (start.executor 1).IsSpared (after.executor 1) ∧
      ∀ entry ∈ start.world.registry.listeners, entry.2.executor ≠ 2 := by
  obtain ⟨start, hreach, hseen⟩ := exists_of_moves
    (ofFragments [waitingFragment ⟨"a", 1, 2, 3⟩ {}, waitingFragment ⟨"b", 1, 2, 3⟩ {}, .vacant]
      { slots := { free := 0 } })
    ((.call (.act 0 .run) :: List.replicate 23 (.step 0)) ++
      (.call (.act 1 .run) :: List.replicate 23 (.step 1)) ++
      .call (.act 2 .run) :: List.replicate 45 (.step 2))
    (fun system => (system.threads.map Thread.frames, fun id => system.held (.setup id),
      system.world.exit, (system.executor 0).state, (system.executor 1).state,
      (system.executor 2).course, fun id => (system.executor (id + 3)).course))
    ([[.call 0 (.next 0) .parked, .run 0 (some 0) (.advancing none), .perform 0 .run .waiting],
      [.call 1 (.next 0) .parked, .run 1 (some 1) (.advancing none), .perform 1 .run .waiting], []],
      fun _ => false, none, .running, .running, .ended 2, fun _ => .notStarted) rfl
  obtain ⟨hthreads, hunlocked, hexit, hfirst, hsecond, hended, hothers⟩ :
      _ ∧ _ ∧ _ ∧ _ ∧ _ ∧ _ ∧ _ := by
    simpa only [Prod.mk.injEq] using hseen
  have hframes (thread : ThreadId) : start.frames thread = _ :=
    (frames_eq_getD start thread).trans (by rw [hthreads])
  have hrest : start.IsAtRest := by
    intro id
    rcases id with _ | _ | _ | id
    · exact .inr (.inr ⟨0, hreach.isParked (hframes 0) (congrFun hunlocked 0)⟩)
    · exact .inr (.inr ⟨1, hreach.isParked (hframes 1) (congrFun hunlocked 1)⟩)
    · exact .inr (.inl ⟨2, hended⟩)
    · exact .inl (congrFun hothers id)
  let nodes : NodeSet := [⟨"a", 1, 2, 3⟩]
  have haffected : start.IsAffected nodes 0 := by
    refine ⟨hfirst, ?_⟩
    rw [hreach.unrestricted.fragment_eq]
    exact List.mem_singleton_self _
  have honly (id : ExecutorId) (hid : start.IsAffected nodes id) : id = 0 := by
    obtain ⟨-, hdeparted⟩ := hid
    rw [hreach.unrestricted.fragment_eq, List.mem_singleton] at hdeparted
    rcases id with _ | _ | _ | id
    · rfl
    all_goals simp [waitingFragment, Fragment.vacant] at hdeparted
  have hall (id : ExecutorId) (hid : start.IsAffected nodes id) :
      (start.executor id).fragment.Acknowledges := by
    obtain rfl := honly id hid
    rw [hreach.unrestricted.fragment_eq]
    exact ⟨List.forall_mem_nil _, ⟨_, rfl⟩, Outcome.noConfusion⟩
  obtain ⟨hdeparture, -, hlisteners, -⟩ := foreman_departure hreach
  obtain ⟨-, -, -, hreturns⟩ := hdeparture nodes hrest _ .call
  obtain ⟨count, after, -, hdeparts, hreturned⟩ := hreturns hall hexit
  obtain ⟨hspared, hcancelled, -, -⟩ := hdeparture nodes hrest after hdeparts
  exact ⟨start, nodes, after, hreach, hrest, hdeparts, hreturned, haffected,
    hcancelled hreturned 0 haffected, hsecond, hspared 1 (fun hid => Nat.one_ne_zero (honly 1 hid)),
    hlisteners 2 2 hended⟩

/-- Of two fragments inside an advance of their trees the foreman departs.  The reporter of the
first one panics when it is told of the cancellation, and nobody asks for the one of the
second. -/
theorem departure_broken_off : ∃ start nodes after,
    (ofFragments [waitingFragment ⟨"a", 1, 2, 3⟩ { outcome := .panic (.text "boom") },
      waitingFragment ⟨"a", 1, 2, 3⟩ {}] { slots := { free := 0 } }).Reachable start ∧
      start.IsAtRest ∧ start.Departs nodes after ∧ after.frames start.threads.length = [] ∧
      after.signal start.threads.length = .raised (.text "boom") ∧
      start.IsAffected nodes 1 ∧
      tally (Entry.accepts .cancellationRequested) (after.executor 1).journal = 0 ∧
      tally (Entry.isEntered (Call.tells .cancellationRequested))
        (after.executor 1).journal = 0 := by
  obtain ⟨start, hreach, hseen⟩ := exists_of_moves
    (ofFragments [waitingFragment ⟨"a", 1, 2, 3⟩ { outcome := .panic (.text "boom") },
      waitingFragment ⟨"a", 1, 2, 3⟩ {}] { slots := { free := 0 } })
    ((.call (.act 0 .run) :: List.replicate 23 (.step 0)) ++
      .call (.act 1 .run) :: List.replicate 23 (.step 1))
    (fun system => (system.threads.map Thread.frames, fun id => system.held (.setup id),
      (system.executor 1).state, (fun id => (system.executor (id + 2)).course),
      (List.range 11).all fun taken =>
        ((system.call (.depart [⟨"a", 1, 2, 3⟩])).moves (List.replicate taken (.step 2))).all
          fun middle => (middle.frames 2).head?.all fun frame => !frame.isAnnouncement,
      ((system.call (.depart [⟨"a", 1, 2, 3⟩])).moves (List.replicate 11 (.step 2))).map
        fun after => (after.frames 2, after.signal 2,
          tally (Entry.accepts .cancellationRequested) (after.executor 1).journal,
          tally (Entry.isEntered (Call.tells .cancellationRequested)) (after.executor 1).journal)))
    ([[.call 0 (.next 0) .parked, .run 0 (some 0) (.advancing none), .perform 0 .run .waiting],
      [.call 1 (.next 0) .parked, .run 1 (some 1) (.advancing none), .perform 1 .run .waiting]],
      fun _ => false, .running, fun _ => .notStarted, true,
      some ([], .raised (.text "boom"), 0, 0)) rfl
  obtain ⟨hthreads, hunlocked, hsecond, hothers, hsilent, hmoves⟩ : _ ∧ _ ∧ _ ∧ _ ∧ _ ∧ _ := by
    simpa only [Prod.mk.injEq] using hseen
  obtain ⟨after, hmoves, hafter⟩ := Option.map_eq_some_iff.mp hmoves
  obtain ⟨hover, hsignal, hunasked, huntold⟩ : _ ∧ _ ∧ _ ∧ _ := by
    simpa only [Prod.mk.injEq] using hafter
  have hlength : start.threads.length = 2 := by simpa using congrArg List.length hthreads
  have hframes (thread : ThreadId) : start.frames thread = _ :=
    (frames_eq_getD start thread).trans (by rw [hthreads])
  have hrest : start.IsAtRest := by
    intro id
    rcases id with _ | _ | id
    · exact .inr (.inr ⟨0, hreach.isParked (hframes 0) (congrFun hunlocked 0)⟩)
    · exact .inr (.inr ⟨1, hreach.isParked (hframes 1) (congrFun hunlocked 1)⟩)
    · exact .inl (congrFun hothers id)
  have haffected : start.IsAffected [⟨"a", 1, 2, 3⟩] 1 := by
    refine ⟨hsecond, ?_⟩
    rw [hreach.unrestricted.fragment_eq]
    exact List.mem_singleton_self _
  have hdeparts : start.Departs [⟨"a", 1, 2, 3⟩] after := by
    have htaken : (start.call (.depart [⟨"a", 1, 2, 3⟩])).moves
        (List.replicate 11 (.step start.threads.length)) = some after := by
      rw [hlength]
      exact hmoves
    refine Departs.call.of_moves ?_ htaken
    intro taken htaken middle hmiddle frame hframe
    rw [hlength] at hmiddle hframe
    have hall := List.all_eq_true.mp hsilent taken (List.mem_range.mpr htaken)
    rw [hmiddle, Option.all_some] at hall
    rw [Option.mem_def.mp hframe] at hall
    simpa using hall
  rw [← hlength] at hover hsignal
  exact ⟨start, _, after, hreach, hrest, hdeparts, hover, hsignal, haffected, hunasked, huntold⟩

end System

end FragmentLifecycle
