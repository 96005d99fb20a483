import FragmentLifecycle.Proofs.RunningTree

/-!
# The registered listeners

A registered listener is the watch of a run that has still to remove it, or that a panic has
unwound (`System.ReachableUnder.owned`).  So a run that has come to its end has left none, and
no executor has two.  The listeners stand in the order in which they were registered, and a
run adds and removes its own one only (`System.ReachableApart.others_eq`).  While a run with a
listener drives its tree, the tree is there (`System.ReachableUnder.treeHeld_of_listed`).
-/

namespace FragmentLifecycle

namespace Registry

variable {α : Type} {registry : Registry ListenerId α}

/-- The listeners stand in the order in which their identifiers were given. -/
def IsOrdered (registry : Registry ListenerId α) : Prop :=
  registry.listeners.Pairwise fun first second => first.1 < second.1

theorem IsOrdered.add (hordered : registry.IsOrdered) (hkeyed : registry.Keyed) (listener : α) :
    (registry.add listener).2.IsOrdered := by
  refine List.pairwise_append.mpr ⟨hordered, List.pairwise_singleton _ _, ?_⟩
  rintro first hfirst _ hsecond
  rw [List.mem_singleton.mp hsecond]
  exact hkeyed.below first hfirst

theorem IsOrdered.remove (hordered : registry.IsOrdered) (added : ListenerId) :
    (registry.remove added).2.IsOrdered :=
  List.Pairwise.filter _ hordered

end Registry

/-! ## Who registers and who removes -/

section Steps

variable {world : World} {view : LockView} {thread : ThreadId} {id : ExecutorId}
  {frame : Frame} {signal : Signal} {executor executor' : Executor} {next : Next}
  {added : ListenerId}

theorem Frame.ordered_registryAfter (frame : Frame) (hordered : world.registry.IsOrdered)
    (hkeyed : world.registry.Keyed) : (frame.registryAfter world).IsOrdered := by
  fun_cases frame.registryAfter world with
  | case1 => exact hordered.add hkeyed _
  | case2 => exact hordered.remove _
  | case3 => exact hordered

/-- A listener was there before, and is not the one that the step removes, or a run has just
registered its watch. -/
theorem Frame.mem_of_mem_registryAfter (frame : Frame) {entry : ListenerId × Watch}
    (hmem : entry ∈ (frame.registryAfter world).listeners) :
    (entry ∈ world.registry.listeners ∧ ∀ owner, frame ≠ .run owner (some entry.1) .unwatch) ∨
      ∃ owner l, frame = .run owner l .watch ∧ entry =
        (world.registry.nextId, ⟨owner, (world.executors owner).fragment.identity.foreman⟩) := by
  revert hmem
  fun_cases frame.registryAfter world with
  | case1 owner l =>
    intro hmem
    rcases Registry.mem_add.mp hmem with hold | hnew
    · exact .inl ⟨hold, by simp⟩
    · exact .inr ⟨owner, l, rfl, hnew⟩
  | case2 owner added =>
    intro hmem
    obtain ⟨hold, hother⟩ := Registry.mem_remove.mp hmem
    exact .inl ⟨hold, by simp [hother.symm]⟩
  | case3 frame _ hkeeps =>
    intro hmem
    exact .inl ⟨hmem, fun owner hframe => hkeeps owner entry.1 hframe⟩

/-- A run that has registered its watch keeps it until it removes it or is unwound. -/
theorem Transition.listener_kept {point : RunPoint}
    (htransition :
      Transition view thread id (.run id (some added) point) signal executor next executor')
    (hlisted : point.isUnlisted = false) (hwatched : point.isUnwatched = false)
    (hkeeps : point ≠ .unwatch) :
    executor'.course = .unwound thread ∨
      ∃ point', .run id (some added) point' ∈ next.frames ∧ point'.isUnwatched = false := by
  cases htransition
  case aside houtside _ _ => simp [Frame.isCore] at houtside
  case alarmUnwinds | closingUnwinds | reportUnwinds => exact .inl rfl
  all_goals first
  | exact .inr ⟨_, List.mem_cons_self, rfl⟩
  | exact .inr ⟨_, List.mem_cons_of_mem _ List.mem_cons_self, rfl⟩
  | exact absurd rfl hkeeps
  | exact Bool.noConfusion hlisted
  | exact Bool.noConfusion hwatched

end Steps

namespace System

/-- The run that registered the listener has still to remove it, or a panic has unwound it. -/
def IsOwned (system : System) (added : ListenerId) (watch : Watch) : Prop :=
  watch = system.watch watch.executor ∧
    ((∃ thread, (system.executor watch.executor).course = .unwound thread) ∨
      ∃ thread point, .run watch.executor (some added) point ∈ system.frames thread ∧
        point.isUnwatched = false)

/-- The listeners but the watch of `id`, in their order. -/
def others (system : System) (id : ExecutorId) : List (ListenerId × Watch) :=
  system.world.registry.listeners.filter fun entry => entry.2.executor ≠ id

/-- A move by which a run registers or removes its watch. -/
def Relists (system : System) (id : ExecutorId) (move : Move) : Prop :=
  ∃ thread l point rest, move = .step thread ∧
    system.frames thread = .run id l point :: rest ∧ (point = .watch ∨ point = .unwatch)

/-- The systems that lead from `start` while no run but that of `id` registers or removes a
watch. -/
inductive ReachableApart (id : ExecutorId) (start : System) : System → Prop
  | refl : ReachableApart id start start
  | move {system next : System} (move : Move) (hapart : ReachableApart id start system)
      (hothers : ∀ other, other ≠ id → ¬ system.Relists other move)
      (hmove : system.move move = some next) : ReachableApart id start next

section Listeners

variable {fragments : List Fragment} {host : Host} {permitted : Command → Prop}
  {start system after : System} {id : ExecutorId} {thread : ThreadId} {frame : Frame}
  {rest : List Frame} {next : Next} {added : ListenerId} {watch : Watch}

theorem ReachableUnder.ordered
    (hreach : (ofFragments fragments host).ReachableUnder permitted system) :
    system.world.registry.IsOrdered := by
  refine hreach.invariant (fun system => system.world.registry.IsOrdered) .nil ?_ ?_
  · intro system after thread root hturn hordered
    rw [hturn.registry]
    exact hordered
  · intro system after thread frame rest next hreach hadvance hordered
    rw [Frame.step_registry hadvance.step]
    exact frame.ordered_registryAfter hordered hreach.keyed

/-! ### Every listener has an owner -/

theorem IsOwned.turnover {root : Frame} (howned : system.IsOwned added watch)
    (hturn : system.Turnover after thread root) : after.IsOwned added watch := by
  obtain ⟨hwatch, howner⟩ := howned
  refine ⟨?_, ?_⟩
  · rw [System.watch, hturn.executor_eq]
    exact hwatch
  · rw [hturn.executor_eq]
    refine howner.imp_right ?_
    rintro ⟨owner, point, hmem, hpoint⟩
    have hcore : (Frame.run watch.executor (some added) point).isCore watch.executor = true := by
      simp [Frame.isCore]
    have hsame := (hturn.same_of_core hmem hcore).1
    exact ⟨owner, point, hsame ▸ hmem, hpoint⟩

theorem IsOwned.advance
    (hreach : (ofFragments fragments host).ReachableUnder permitted system)
    (howned : system.IsOwned added watch)
    (hadvance : system.Advance after thread frame rest next)
    (hkeeps : ∀ owner, frame ≠ .run owner (some added) .unwatch) : after.IsOwned added watch := by
  obtain ⟨hwatch, hunwound | ⟨owner, point, hmem, hpoint⟩⟩ := howned
  · obtain ⟨owner, hunwound⟩ := hunwound
    exact ⟨hwatch.trans (hadvance.watch_eq _).symm,
      .inl ⟨owner, hadvance.unwound_of_unwound hreach hunwound⟩⟩
  · refine ⟨hwatch.trans (hadvance.watch_eq _).symm, ?_⟩
    by_cases howner : owner = thread
    · subst howner
      rw [hadvance.frames] at hmem
      rcases List.mem_cons.mp hmem with rfl | hbelow
      · have hlisted := (hreach.watches_of_run (hadvance.frames ▸ List.mem_cons_self)).1
        have hstill : point ≠ .unwatch := by
          rintro rfl
          exact hkeeps _ rfl
        have htransition := Frame.step_transition watch.executor hadvance.step
        rcases htransition.listener_kept hlisted hpoint hstill with
          hunwound | ⟨point', hpushed, hpoint'⟩
        · exact .inl ⟨owner, hunwound⟩
        · exact .inr ⟨owner, point', hadvance.own ▸ List.mem_append_left _ hpushed, hpoint'⟩
      · exact .inr ⟨owner, point, hadvance.own ▸ List.mem_append_right _ hbelow, hpoint⟩
    · have hsame := (hadvance.same_of_busy howner (List.ne_nil_of_mem hmem)).1
      exact .inr ⟨owner, point, hsame ▸ hmem, hpoint⟩

theorem ReachableUnder.owned
    (hreach : (ofFragments fragments host).ReachableUnder permitted system)
    (hmem : (added, watch) ∈ system.world.registry.listeners) : system.IsOwned added watch := by
  refine hreach.invariant (fun system => ∀ added watch,
    (added, watch) ∈ system.world.registry.listeners → system.IsOwned added watch) ?_ ?_ ?_
    added watch hmem
  · intro added watch hmem
    cases hmem
  · intro system after thread root hturn hholds added watch hmem
    rw [hturn.registry] at hmem
    exact (hholds added watch hmem).turnover hturn
  · intro system after thread frame rest next hreach hadvance hholds added watch hmem
    rw [Frame.step_registry hadvance.step] at hmem
    rcases frame.mem_of_mem_registryAfter hmem with ⟨hold, hkeeps⟩ | ⟨owner, l, rfl, hentry⟩
    · exact (hholds added watch hold).advance hreach hadvance hkeeps
    · obtain ⟨rfl, rfl⟩ := Prod.mk.inj hentry
      obtain rfl := Frame.step_watch hadvance.step
      refine ⟨(hadvance.watch_eq _).symm, .inr ⟨thread, .announce, ?_, rfl⟩⟩
      rw [hadvance.own]
      exact List.mem_cons_self

/-- A registered listener belongs to a run that is under way or that a panic has unwound. -/
theorem ReachableUnder.course_of_listed
    (hreach : (ofFragments fragments host).ReachableUnder permitted system)
    (hmem : (added, watch) ∈ system.world.registry.listeners) :
    ∃ thread, (system.executor watch.executor).course = .unwound thread ∨
      (system.executor watch.executor).course = .underWay thread := by
  obtain ⟨-, ⟨thread, hunwound⟩ | ⟨thread, point, hrun, -⟩⟩ := hreach.owned hmem
  · exact ⟨thread, .inl hunwound⟩
  · have hlive : point ≠ .start := by
      rintro rfl
      cases (hreach.watches_of_run hrun).1
    exact ⟨thread, .inr (hreach.course_of_run hrun hlive)⟩

/-- A run that has not begun has no listener, and one that has come to its end has left
none. -/
theorem ReachableUnder.not_listed
    (hreach : (ofFragments fragments host).ReachableUnder permitted system)
    (hcourse : (system.executor id).course = .notStarted ∨
      ∃ thread, (system.executor id).course = .ended thread) :
    ∀ entry ∈ system.world.registry.listeners, entry.2.executor ≠ id := by
  rintro ⟨added, watch⟩ hmem rfl
  obtain ⟨owner, hlisted⟩ := hreach.course_of_listed hmem
  rcases hcourse with hnew | ⟨thread, hended⟩
  · rw [hnew] at hlisted
    exact hlisted.elim Course.noConfusion Course.noConfusion
  · rw [hended] at hlisted
    exact hlisted.elim Course.noConfusion Course.noConfusion

/-! ### The other listeners -/

/-- A run leaves the listeners of the other executors as they are, and in their order. -/
theorem Advance.others_eq
    (hreach : (ofFragments fragments host).ReachableUnder permitted system)
    (hadvance : system.Advance after thread frame rest next)
    (hown : ∀ owner l point, frame = .run owner l point → owner ≠ id →
      point ≠ .watch ∧ point ≠ .unwatch) : after.others id = system.others id := by
  have htop : frame ∈ system.frames thread := hadvance.frames ▸ List.mem_cons_self
  rw [System.others, Frame.step_registry hadvance.step]
  revert hown htop
  fun_cases frame.registryAfter system.world with
  | case1 owner l =>
    intro hown _
    by_cases howner : owner = id
    · simp [System.others, Registry.add, howner]
    · exact absurd rfl (hown owner l .watch rfl howner).1
  | case2 owner added =>
    intro hown htop
    by_cases howner : owner = id
    · subst howner
      rw [System.others, Registry.remove, List.filter_filter]
      refine List.filter_congr fun entry hmem => ?_
      have hwatches := (hreach.watches_of_run htop).2 rfl
      by_cases hsame : entry.1 = added
      · rw [hreach.keyed.unique entry hmem _ hwatches hsame]
        simp [watch]
      · simp [hsame]
    · exact absurd rfl (hown owner _ .unwatch rfl howner).2
  | case3 => exact fun _ _ => rfl

theorem ReachableApart.others_eq (hreach : (ofFragments fragments host).Reachable start)
    (hapart : start.ReachableApart id after) :
    (ofFragments fragments host).Reachable after ∧ after.others id = start.others id := by
  induction hapart with
  | refl => exact ⟨hreach, rfl⟩
  | @move system next move _ hothers hmove ih =>
    obtain ⟨hsystem, hsame⟩ := ih
    refine ⟨.move move hsystem hmove, Eq.trans ?_ hsame⟩
    cases move with
    | step thread =>
      obtain ⟨frame, rest, taken, hadvance⟩ := advance_of_step hmove
      refine hadvance.others_eq hsystem.unrestricted ?_
      rintro owner l point rfl howner
      constructor <;> rintro rfl
      · exact hothers owner howner ⟨thread, l, _, rest, rfl, hadvance.frames, .inl rfl⟩
      · exact hothers owner howner ⟨thread, l, _, rest, rfl, hadvance.frames, .inr rfl⟩
    | call command =>
      obtain rfl := Option.some.inj hmove
      rfl
    | abandon thread =>
      obtain ⟨root, hturn, -⟩ := turnover_of_abandon hmove
      rw [System.others, hturn.registry, System.others]

/-- From before its run to the normal end of it, the listeners are the same but for the other
runs. -/
theorem ReachableApart.listeners_eq (hreach : (ofFragments fragments host).Reachable start)
    (hapart : start.ReachableApart id after) (hnew : (start.executor id).course = .notStarted)
    (hended : (after.executor id).course = .ended thread) :
    after.world.registry.listeners = start.world.registry.listeners := by
  obtain ⟨hafter, hothers⟩ := hapart.others_eq hreach
  have hall {system : System} (hsystem : (ofFragments fragments host).Reachable system)
      (hcourse : (system.executor id).course = .notStarted ∨
        ∃ thread, (system.executor id).course = .ended thread) :
      system.others id = system.world.registry.listeners :=
    List.filter_eq_self.mpr fun entry hmem =>
      decide_eq_true (hsystem.unrestricted.not_listed hcourse entry hmem)
  rw [← hall hafter (.inr ⟨thread, hended⟩), hothers, hall hreach (.inl hnew)]

/-! ### What a run with a listener finds -/

/-- A run with a listener drives a tree that is there. -/
theorem ReachableUnder.treeHeld_of_listed
    (hreach : (ofFragments fragments host).ReachableUnder permitted system) {point : RunPoint}
    (hmem : .run id (some added) point ∈ system.frames thread) (hpoint : point.isRunning = true) :
    (system.executor id).treeHeld = true := by
  have hlive {point : RunPoint} (hpoint : point.isRunning = true) :
      point ≠ .start ∧ point ≠ .closing := by
    constructor <;> rintro rfl <;> cases hpoint
  refine hreach.everywhere id (fun executor _ frame => ∀ added point,
    frame = .run id (some added) point → point.isRunning = true → executor.treeHeld = true)
    ?_ ?_ ?_ hmem (by simp [Frame.isCore]) added point rfl hpoint
  · rintro executor thread _ ⟨⟩ added point ⟨⟩
  · rintro system after thread frame rest next hreach hadvance htransition hcore hframe
      _ hpushed - added point rfl hpoint
    have htop : frame ∈ system.frames thread := hadvance.frames ▸ List.mem_cons_self
    have hkept {point' : RunPoint} (hrun : frame = .run id (some added) point')
        (hpoint' : point' ≠ .start ∧ point' ≠ .closing)
        (hheld : (system.executor id).treeHeld = true) : (after.executor id).treeHeld = true := by
      refine (hadvance.treeHeld_of_held hreach hheld).resolve_right ?_
      rintro ⟨l, hclosing⟩
      exact hpoint'.2 (hreach.live_unique (hrun ▸ htop) hpoint'.1 hclosing (by simp)).2.2
    rcases htransition.running_pushed hcore hpushed hpoint with
      ⟨point', hrun, hrunning⟩ | ⟨rfl, -⟩ | ⟨hrun, -⟩
    · exact hkept hrun (hlive hrunning) (hframe added point' hrun hrunning)
    · cases (hreach.watches_of_run htop).1
    · exact hkept hrun (by simp) (hreach.treeHeld_of_registering (hrun ▸ htop) rfl)
  · rintro system after thread frame rest next hreach hadvance - owner _ hbeside - hother
      added point rfl hpoint
    refine (hadvance.treeHeld_of_held hreach (hother added point rfl hpoint)).resolve_right ?_
    rintro ⟨l, hclosing⟩
    exact (hlive hpoint).2
      (hreach.live_unique (hadvance.mem_of_beside hbeside) (hlive hpoint).1 hclosing (by simp)).2.2

theorem ReachableUnder.not_sending
    (hreach : (ofFragments fragments host).ReachableUnder permitted system) (id : ExecutorId) :
    (system.executor id).state ≠ .sending := by
  refine hreach.always id (fun executor => executor.state ≠ .sending)
    (fun _ => State.noConfusion) ?_
  intro system after thread frame rest next _ _ htransition hbefore
  rcases htransition.state_cases with hsame | ⟨target, -, hdecided⟩
  · exact hsame ▸ hbefore
  · rw [hdecided]
    exact State.apply_decide_ne_sending target hbefore

/-- A fragment that goes on while its tree is driven is running. -/
theorem ReachableUnder.running_of_continues
    (hreach : (ofFragments fragments host).ReachableUnder permitted system)
    {l : Option ListenerId} {point : RunPoint} (hmem : .run id l point ∈ system.frames thread)
    (hpoint : point.isRunning = true) (hcontinues : (system.executor id).state.continues = true) :
    (system.executor id).state = .running := by
  have hbegun := hreach.begun_of_running hmem hpoint
  have hsending := hreach.not_sending id
  generalize (system.executor id).state = state at *
  cases state with
  | awaitingAllocation => exact absurd rfl hbegun
  | sending => exact absurd rfl hsending
  | running => rfl
  | cancellationRequested | cancelled | finished | failed => cases hcontinues

end Listeners

end System

end FragmentLifecycle
