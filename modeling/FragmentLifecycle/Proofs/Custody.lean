import FragmentLifecycle.Proofs.OrphanedEntries

/-!
# Who removes an entry

An entry of the table is in the custody of the start that has made it, and then of the
thread that this start has asked for (`System.Custody`).  Nobody else removes it, so two
threads never host executors with the same handle, and a start that finds its handle taken
leaves everything but its own slot alone (`System.one_executor_per_handle`).
-/

namespace FragmentLifecycle

section Keepers

variable {handle : ExecutorId → Handle} {thread : ThreadId} {signal : Signal} {h h' : Host}
  {next : Next} {id : ExecutorId} {handle' : Handle} {refusal : Option String}

/-- A start hands its entry to the thread it starts, or keeps it until it takes it out. -/
theorem HostStep.start_cases {point : StartPoint}
    (hstep : HostStep handle thread (.start id refusal point) signal h next h')
    (hkeeps : (Frame.start id refusal point).keeps? = some id) :
    next = .fork (.answer .started) (.hosted id (handle id) .start) id ∨
      next = .goto (.start id refusal .withdraw) ∨
      h'.running = h.running.filter fun entry => entry.1 != handle id := by
  cases hstep
  case aside houtside _ _ => cases houtside
  case spawned => exact .inl rfl
  case spawnFailed => exact .inr (.inl rfl)
  case withdrawn => exact .inr (.inr rfl)
  all_goals cases hkeeps

/-- The thread of a fragment keeps its entry until its run has returned and it takes the
entry out, or until a panic leaves the run. -/
theorem HostStep.hosted_keeps_cases {point : HostedPoint}
    (hstep : HostStep handle thread (.hosted id handle' point) signal h next h')
    (hkeeps : (Frame.hosted id handle' point).keeps? = some id) :
    (∃ point', .hosted id handle' point' ∈ next.frames ∧
        (Frame.hosted id handle' point').keeps? = some id) ∨
      (point = .running ∧ ∃ payload, signal = .raised payload) ∨
      h'.running = h.running.filter fun entry => entry.1 != handle' := by
  cases hstep
  case aside houtside _ _ => cases houtside
  case runCalled => exact .inl ⟨.running, by simp, rfl⟩
  case runReturned => exact .inl ⟨.deregister, by simp, rfl⟩
  case runUnwound payload => exact .inr (.inl ⟨rfl, payload, rfl⟩)
  case deregistered => exact .inr (.inr (h.running_deregister handle'))
  all_goals cases hkeeps

theorem HostStep.next_of_reject
    (hstep : HostStep handle thread (.start id refusal .reject) signal h next h') :
    next = .reply (.answer (.refused (alreadyRunning (handle id)))) := by
  cases hstep
  case aside houtside _ _ => cases houtside
  case rejected => rfl

/-- An entry appears where a start finds the handle free. -/
theorem TableStep.inserted {frame : Frame} {entry : Handle × ExecutorId}
    (hstep : TableStep handle frame signal h next h') (hfresh : entry ∉ h.running)
    (hlisted : entry ∈ h'.running) :
    ∃ refusal, frame = .start entry.2 refusal .register ∧
      next = .goto (.start entry.2 refusal .spawn) ∧ entry.1 = handle entry.2 := by
  cases hstep with
  | kept hrunning _ _ | unwound _ _ _ _ _ _ hrunning => exact absurd (hrunning ▸ hlisted) hfresh
  | registered id refusal hframe hnext hfree hrunning =>
    rw [hrunning] at hlisted
    obtain rfl := List.mem_singleton.mp ((List.mem_append.mp hlisted).resolve_left hfresh)
    exact ⟨refusal, hframe, hnext, rfl⟩
  | removed id _ _ hrunning =>
    rw [hrunning] at hlisted
    exact absurd (List.mem_of_mem_filter hlisted) hfresh

end Keepers

namespace System

/-! ## The custody of an entry -/

/-- The systems that `start` leads to while an entry stays in the table. -/
inductive ListedSince (entry : Handle × ExecutorId) (start : System) : System → Prop where
  | refl (hlisted : entry ∈ start.world.host.running) : ListedSince entry start start
  | move {system next : System} (move : Move) (hsince : ListedSince entry start system)
      (hmove : system.move move = some next) (hlisted : entry ∈ next.world.host.running) :
      ListedSince entry start next

/-- While its entry was listed, `thread` has started the thread `owner` for the executor. -/
def HandedOn (entry : Handle × ExecutorId) (start system : System) (thread owner : ThreadId) :
    Prop :=
  ∃ before after, ListedSince entry start before ∧ before.step thread = some after ∧
    ListedSince entry after system ∧ before.stack owner = { frames := [] } ∧
    after.stack owner = { frames := [.hosted entry.2 entry.1 .start], hosts := some entry.2 }

/-- The entry that `thread` has made is kept by this thread, or by the one that it has
started since, or by nobody any more. -/
inductive Custody (handle : ExecutorId → Handle) (entry : Handle × ExecutorId)
    (start : System) (thread : ThreadId) (system : System) : Prop
  | kept {refusal : Option String} {point : StartPoint}
      (hframes : system.frames thread = [.start entry.2 refusal point])
      (hkeeps : (Frame.start entry.2 refusal point).keeps? = some entry.2)
  | handed {owner : ThreadId} {handle' : Handle} {point : HostedPoint}
      (hhanded : HandedOn entry start system thread owner)
      (hmem : .hosted entry.2 handle' point ∈ system.frames owner)
      (hkeeps : (Frame.hosted entry.2 handle' point).keeps? = some entry.2)
  | orphaned (horphaned : system.Orphaned handle entry.2)

section Custody

variable {fragments : List Fragment} {host : Host} {permitted : Command → Prop}
  {start system after : System} {thread owner mover : ThreadId} {frame : Frame}
  {rest : List Frame} {next : Next} {id : ExecutorId} {entry : Handle × ExecutorId}

theorem ListedSince.mem (hsince : ListedSince entry start system) :
    entry ∈ system.world.host.running := by
  cases hsince with
  | refl hlisted => exact hlisted
  | move _ _ _ hlisted => exact hlisted

theorem ListedSince.reachable (hsince : ListedSince entry start system) :
    start.Reachable system := by
  induction hsince with
  | refl => exact .refl
  | move move _ hmove _ ih => exact .move move ih hmove

theorem HandedOn.later (move : Move) (hhanded : HandedOn entry start system thread owner)
    (hmove : system.move move = some after) (hlisted : entry ∈ after.world.host.running) :
    HandedOn entry start after thread owner := by
  obtain ⟨before, started, hbefore, hstep, hsince, hfresh, hnew⟩ := hhanded
  exact ⟨before, started, hbefore, hstep, hsince.move move hmove hlisted, hfresh, hnew⟩

/-- The entry that a start has kept so far: it starts the thread, or keeps it on, or the
entry is gone. -/
private theorem Custody.advance_kept {refusal : Option String} {point : StartPoint}
    (hreach : (ofFragments fragments host).ReachableUnder permitted system)
    (hsince : ListedSince (handleIn fragments id, id) start system)
    (hframes : system.frames thread = [.start id refusal point])
    (hkeeps : (Frame.start id refusal point).keeps? = some id)
    (hmove : system.step mover = some after)
    (hadvance : system.Advance after mover frame rest next)
    (hlisted : (handleIn fragments id, id) ∈ after.world.host.running) :
    Custody (handleIn fragments) (handleIn fragments id, id) start thread after := by
  by_cases hmover : thread = mover
  · subst hmover
    obtain ⟨rfl, rfl⟩ : frame = .start id refusal point ∧ rest = [] := by
      simpa [hframes, eq_comm] using hadvance.frames
    rcases (hreach.host_step hadvance).start_cases hkeeps with rfl | rfl | hgone
    · obtain ⟨hfresh, hnew, -⟩ := stack_of_fork hmove hadvance
      have hstarted : .hosted id (handleIn fragments id) .start ∈
          after.frames system.threads.length := by
        rw [System.frames, hnew]
        exact List.mem_singleton_self _
      exact .handed ⟨system, after, hsince, hmove, .refl hlisted, hfresh, hnew⟩ hstarted rfl
    · exact .kept hadvance.own rfl
    · simp [hgone] at hlisted
  · refine .kept ?_ hkeeps
    rw [(hadvance.same_of_busy hmover (by simp [hframes])).1, hframes]

/-- The entry that a hosted thread has kept so far: it keeps the entry on, or leaves it
behind by a panic, or the entry is gone. -/
private theorem Custody.advance_handed {handle' : Handle} {point : HostedPoint}
    (hreach : (ofFragments fragments host).ReachableUnder permitted system)
    (hempty : host.running = [])
    (hhanded : HandedOn (handleIn fragments id, id) start system thread owner)
    (hmem : .hosted id handle' point ∈ system.frames owner)
    (hkeeps : (Frame.hosted id handle' point).keeps? = some id)
    (hmove : system.step mover = some after)
    (hadvance : system.Advance after mover frame rest next)
    (hlisted : (handleIn fragments id, id) ∈ after.world.host.running) :
    Custody (handleIn fragments) (handleIn fragments id, id) start thread after := by
  have hlater := hhanded.later (.step mover) hmove hlisted
  have hbeside_or : system.Beside mover rest owner (.hosted id handle' point) ∨
      (owner = mover ∧ frame = .hosted id handle' point) := by
    by_cases howner : owner = mover
    · subst howner
      rw [hadvance.frames] at hmem
      rcases List.mem_cons.mp hmem with htop | hrest
      · exact .inr ⟨rfl, htop.symm⟩
      · exact .inl (.inl ⟨rfl, hrest⟩)
    · exact .inl (.inr ⟨howner, hmem⟩)
  rcases hbeside_or with hbeside | ⟨rfl, rfl⟩
  · exact .handed hlater (hadvance.mem_of_beside_before hbeside) hkeeps
  · obtain rfl := (hreach.hosts_of_hosted hmem).1
    rcases (hreach.host_step hadvance).hosted_keeps_cases hkeeps with
      ⟨point', hpushed, hstill⟩ | ⟨rfl, payload, hraised⟩ | hgone
    · refine .handed hlater ?_ hstill
      rw [hadvance.own]
      exact List.mem_append_left _ hpushed
    · exact .orphaned (hadvance.orphaned_of_raised hreach hempty hmove hraised).2
    · simp [hgone] at hlisted

theorem Custody.step (hcustody : Custody (handleIn fragments) entry start thread system)
    (hreach : (ofFragments fragments host).ReachableUnder permitted system)
    (hempty : host.running = []) (hsince : ListedSince entry start system)
    (hmove : system.step mover = some after) (hlisted : entry ∈ after.world.host.running) :
    Custody (handleIn fragments) entry start thread after := by
  obtain ⟨frame, rest, next, hadvance⟩ := advance_of_step hmove
  obtain ⟨handle, id⟩ := entry
  obtain rfl : handle = handleIn fragments id := (hreach.table hempty).handles _ hsince.mem
  cases hcustody with
  | kept hframes hkeeps =>
    exact Custody.advance_kept hreach hsince hframes hkeeps hmove hadvance hlisted
  | handed hhanded hmem hkeeps =>
    exact Custody.advance_handed hreach hempty hhanded hmem hkeeps hmove hadvance hlisted
  | orphaned horphaned => exact .orphaned (horphaned.advance hadvance (hreach.table_step hadvance))

/-- Calls from outside and starts that are given up have no entry to keep. -/
theorem Custody.move {move : Move}
    (hcustody : Custody (handleIn fragments) entry start thread system)
    (hreach : (ofFragments fragments host).ReachableUnder permitted system)
    (hempty : host.running = []) (hsince : ListedSince entry start system)
    (hmove : system.move move = some after) (hlisted : entry ∈ after.world.host.running) :
    Custody (handleIn fragments) entry start thread after := by
  cases move with
  | step mover => exact hcustody.step hreach hempty hsince hmove hlisted
  | call command =>
    obtain rfl := Option.some.inj hmove
    obtain ⟨-, hfresh, hothers⟩ := stack_of_call system command
    have hsame {busy : ThreadId} (hbusy : system.frames busy ≠ []) :
        (system.call command).frames busy = system.frames busy := by
      rw [System.frames, hothers busy, System.frames]
      rintro rfl
      exact hbusy (by rw [System.frames, hfresh])
    cases hcustody with
    | kept hframes hkeeps => exact .kept ((hsame (by simp [hframes])).trans hframes) hkeeps
    | handed hhanded hmem hkeeps =>
      exact .handed (hhanded.later (.call command) rfl hlisted)
        (hsame (List.ne_nil_of_mem hmem) ▸ hmem) hkeeps
    | orphaned horphaned =>
      exact .orphaned (horphaned.of_same rfl (total_keeping_of_call _ _ command))
  | abandon given =>
    obtain ⟨root, hgives⟩ := givesUp_of_abandon hmove
    have hsame {keeper : Frame} {busy : ThreadId} (hmem : keeper ∈ system.frames busy)
        {id : ExecutorId} (hkeeps : keeper.keeps? = some id) :
        after.frames busy = system.frames busy := by
      rw [System.frames, hgives.others busy, System.frames]
      rintro rfl
      obtain rfl : keeper = root := by simpa [hgives.frames] using hmem
      rw [hgives.table.2] at hkeeps
      cases hkeeps
    cases hcustody with
    | kept hframes hkeeps =>
      exact .kept ((hsame (hframes ▸ List.mem_singleton_self _) hkeeps).trans hframes) hkeeps
    | handed hhanded hmem hkeeps =>
      exact .handed (hhanded.later (.abandon given) hmove hlisted)
        (hsame hmem hkeeps ▸ hmem) hkeeps
    | orphaned horphaned =>
      exact .orphaned (horphaned.of_same hgives.table.1 (hgives.total_keeping _ _))

/-- An entry stays in the custody of the start that has made it. -/
theorem ReachableUnder.custody
    (hreach : (ofFragments fragments host).ReachableUnder (fun _ => True) start)
    (hempty : host.running = [])
    (hcustody : Custody (handleIn fragments) entry start thread start)
    (hsince : ListedSince entry start system) :
    Custody (handleIn fragments) entry start thread system := by
  induction hsince with
  | refl => exact hcustody
  | move move hsince hmove hlisted ih =>
    exact ih.move (hreach.trans hsince.reachable.unrestricted) hempty hsince hmove hlisted

/-- Who has the custody of an entry is the one who removes it. -/
theorem Custody.remover {move : Move}
    (hcustody : Custody (handleIn fragments) entry start thread system)
    (hreach : (ofFragments fragments host).ReachableUnder permitted system)
    (hempty : host.running = []) (hsince : ListedSince entry start system)
    (hmove : system.move move = some after) (hgone : entry ∉ after.world.host.running) :
    ∃ remover, move = .step remover ∧
      (remover = thread ∨ HandedOn entry start system thread remover) := by
  have htable := hreach.table hempty
  obtain ⟨handle, id⟩ := entry
  obtain rfl : handle = handleIn fragments id := htable.handles _ hsince.mem
  cases move with
  | call command =>
    obtain rfl := Option.some.inj hmove
    exact absurd hsince.mem hgone
  | abandon given =>
    obtain ⟨root, hgives⟩ := givesUp_of_abandon hmove
    exact absurd (hgives.table.1 ▸ hsince.mem) hgone
  | step remover =>
    obtain ⟨frame, rest, next, hadvance⟩ := advance_of_step hmove
    have hstep := hreach.table_step hadvance
    have hweighs := ((hstep.mem_or_removed hsince.mem).resolve_left hgone).1
    have htop : frame ∈ system.frames remover := hadvance.frames ▸ List.mem_cons_self
    have hremover {owner : ThreadId} {keeper : Frame} (hmem : keeper ∈ system.frames owner)
        (hkeeps : keeper.keeps? = some id) : remover = owner :=
      (eq_of_total_le_one _ (htable.single _) htop hmem hweighs
        (by rw [Frame.keeping_of_keeps hkeeps]; exact Nat.one_pos)).1
    refine ⟨remover, rfl, ?_⟩
    cases hcustody with
    | kept hframes hkeeps => exact .inl (hremover (hframes ▸ List.mem_singleton_self _) hkeeps)
    | handed hhanded hmem hkeeps => exact .inr (hremover hmem hkeeps ▸ hhanded)
    | orphaned horphaned => exact absurd (horphaned.advance hadvance hstep).1 hgone

end Custody

/-! ## Starts that are turned away -/

/-- A thread inside the run of an executor that it hosts. -/
def RunsHosted (system : System) (thread : ThreadId) (id : ExecutorId) : Prop :=
  ∃ handle, .hosted id handle .running ∈ system.frames thread

/-- A start has ended with the error that its handle is taken. -/
def AnswersTaken (system : System) (thread : ThreadId) (id : ExecutorId) : Prop :=
  system.frames thread = [] ∧ system.signal thread =
    .replied (.answer (.refused (alreadyRunning (system.executor id).handle)))

/-- A start that has found its handle taken: all it still does is give its slot back and
answer with the error, or it has done so. -/
inductive TurnedAway (system : System) (thread : ThreadId) (id : ExecutorId) : Prop
  | rejecting {refusal : Option String}
      (hframes : system.frames thread = [.start id refusal .reject])
      (hreturns : system.world.exit = none → ∃ after, system.step thread = some after ∧
        after.world = system.world.setHost
          { system.world.host with slots := system.world.host.slots.release } ∧
        after.AnswersTaken thread id)
  | answered (hanswers : system.AnswersTaken thread id)

section Starts

variable {fragments : List Fragment} {host : Host} {permitted : Command → Prop}
  {system after later : System} {thread : ThreadId} {id : ExecutorId}
  {refusal : Option String}

/-- The frame of a start that gives its slot back can always take its step. -/
theorem ReachableUnder.turnedAway_of_reject
    (hreach : (ofFragments fragments host).ReachableUnder permitted system)
    (hframes : system.frames thread = [.start id refusal .reject]) :
    system.TurnedAway thread id := by
  refine .rejecting hframes fun hexit => ?_
  have hgo : system.signal thread = .go := hreach.signal_go hframes (by rintro role ⟨⟩)
  obtain ⟨after, hmove, hworld, hadvance⟩ := exists_advance hexit hframes (by rw [hgo]; rfl)
  refine ⟨after, hmove, hworld, hadvance.own, ?_⟩
  rw [hadvance.ownSignal, System.executor, hworld]
  rfl

/-- A start between the rejection and its end, on a stack that has begun. -/
private def Rejected (fragments : List Fragment) (id : ExecutorId) (refusal : Option String)
    (stack : Thread) : Prop :=
  (stack.frames = [.start id refusal .reject]) ∨
    (stack.frames = [] ∧
      stack.signal = .replied (.answer (.refused (alreadyRunning (handleIn fragments id)))))

private theorem Rejected.begun {stack : Thread}
    (hrejected : Rejected fragments id refusal stack) : stack ≠ { frames := [] } := by
  rintro rfl
  rcases hrejected with hframes | ⟨-, hsignal⟩
  · cases hframes
  · cases hsignal

private theorem ReachableUnder.rejected_later
    (hreach : (ofFragments fragments host).ReachableUnder permitted system)
    (hframes : system.frames thread = [.start id refusal .reject])
    (hlater : system.ReachableUnder permitted later) :
    Rejected fragments id refusal (later.stack thread) := by
  refine ReachableUnder.hosting_since
    (fun system => Rejected fragments id refusal (system.stack thread))
    hreach (.inl hframes) ?_ ?_ ?_ hlater
  · intro system command _ _ hrejected
    obtain ⟨-, hfresh, hothers⟩ := stack_of_call system command
    rw [hothers thread]
    · exact hrejected
    · rintro rfl
      exact hrejected.begun hfresh
  · intro system after given root _ hgives hrejected
    rw [hgives.others thread]
    · exact hrejected
    · -- only a start that waits for its slot is given up
      rintro rfl
      rcases hrejected with hframes | ⟨hframes, -⟩
      · obtain ⟨rfl, -⟩ := List.cons.inj (hgives.frames.symm.trans hframes)
        rcases hgives.host with ⟨_, _, hroot, -⟩ | ⟨houtside, -⟩
        · cases hroot
        · cases houtside
      · cases hgives.frames.symm.trans hframes
  · intro system after mover frame rest next hreach hmove hadvance hhost hrejected
    obtain ⟨-, hothers⟩ := stack_of_step hmove
    by_cases hmover : thread = mover
    · subst hmover
      rcases hrejected with hframes | ⟨hframes, -⟩
      · obtain ⟨rfl, rfl⟩ := List.cons.inj (hadvance.frames.symm.trans hframes)
        obtain rfl := hhost.next_of_reject
        exact .inr ⟨hadvance.own, hadvance.ownSignal⟩
      · cases hadvance.frames.symm.trans hframes
    · rcases hothers thread hmover with hsame | ⟨hfresh, -⟩
      · rw [hsame]
        exact hrejected
      · exact absurd hfresh hrejected.begun

theorem ReachableUnder.turnedAway_later
    (hreach : (ofFragments fragments host).ReachableUnder permitted system)
    (hframes : system.frames thread = [.start id refusal .reject])
    (hlater : system.ReachableUnder permitted later) : later.TurnedAway thread id := by
  rcases hreach.rejected_later hframes hlater with hstill | ⟨hended, hsignal⟩
  · exact (hreach.trans hlater).turnedAway_of_reject hstill
  · refine .answered ⟨hended, ?_⟩
    rw [(hreach.trans hlater).handle_eq]
    exact hsignal

/-- Two threads never host executors with the same handle. -/
theorem ReachableUnder.hosted_once
    (hreach : (ofFragments fragments host).ReachableUnder permitted system)
    (hempty : host.running = []) {other : ThreadId} {owner : ExecutorId}
    (hruns : system.RunsHosted thread id) (hruns' : system.RunsHosted other owner)
    (hhandle : (system.executor id).handle = (system.executor owner).handle) :
    thread = other ∧ id = owner := by
  obtain ⟨handle, hmem⟩ := hruns
  obtain ⟨handle', hmem'⟩ := hruns'
  rw [hreach.handle_eq, hreach.handle_eq] at hhandle
  obtain ⟨hthread, hframe⟩ := eq_of_total_le_one _ ((hreach.table hempty).single _) hmem hmem'
    (by rw [Frame.keeping_of_keeps rfl]; exact Nat.one_pos)
    (by rw [hhandle, Frame.keeping_of_keeps rfl]; exact Nat.one_pos)
  exact ⟨hthread, (Frame.hosted.inj hframe).1⟩

/-- One executor per handle, in every interleaving of starts, of fragments that end and of
threads that cannot be had.  Two threads of the host never run executors with the same
handle.  An entry of the table is made by a start, and only this start or the thread that
it has started takes it out.  A start that finds its handle taken once it has its slot
goes on to its error: it changes nothing but the slots, to which it returns its own. -/
theorem one_executor_per_handle (hempty : host.running = [])
    (hreach : (ofFragments fragments host).Reachable system) :
    (∀ thread other id owner, system.RunsHosted thread id → system.RunsHosted other owner →
        (system.executor id).handle = (system.executor owner).handle →
        thread = other ∧ id = owner) ∧
      (∀ move inserted entry, system.move move = some inserted →
        entry ∉ system.world.host.running → entry ∈ inserted.world.host.running →
        ∃ thread refusal, move = .step thread ∧
          system.frames thread = [.start entry.2 refusal .register] ∧
          ∀ later removal after, ListedSince entry inserted later →
            later.move removal = some after → entry ∉ after.world.host.running →
            ∃ remover, removal = .step remover ∧
              (remover = thread ∨ HandedOn entry inserted later thread remover)) ∧
      ∀ thread id refusal owner, system.frames thread = [.start id refusal .register] →
        system.world.host.executor? (system.executor id).handle = some owner →
        system.world.exit = none →
        ∃ rejecting, system.step thread = some rejecting ∧ rejecting.world = system.world ∧
          rejecting.frames thread = [.start id refusal .reject] ∧
          ∀ later, rejecting.Reachable later → later.TurnedAway thread id := by
  have hunder := hreach.unrestricted
  refine ⟨fun thread other id owner => hunder.hosted_once hempty, ?_, ?_⟩
  · intro move inserted entry hmove hfresh hlisted
    cases move with
    | call command =>
      obtain rfl := Option.some.inj hmove
      exact absurd hlisted hfresh
    | abandon given =>
      obtain ⟨root, hgives⟩ := givesUp_of_abandon hmove
      exact absurd (hgives.table.1 ▸ hlisted) hfresh
    | step thread =>
      obtain ⟨frame, rest, next, hadvance⟩ := advance_of_step hmove
      obtain ⟨refusal, rfl, rfl, -⟩ := (hunder.table_step hadvance).inserted hfresh hlisted
      obtain rfl := hunder.frames_of_hosting hadvance.frames rfl
      refine ⟨thread, refusal, rfl, hadvance.frames, ?_⟩
      intro later removal after hsince hremoval hgone
      have hinserted := (hreach.move (.step thread) hmove).unrestricted
      have hcustody : Custody (handleIn fragments) entry inserted thread inserted :=
        .kept hadvance.own rfl
      exact (hinserted.custody hempty hcustody hsince).remover
        (hinserted.trans hsince.reachable.unrestricted) hempty hsince hremoval hgone
  · intro thread id refusal owner hframes htaken hexit
    have hgo : system.signal thread = .go := hunder.signal_go hframes (by rintro role ⟨⟩)
    have hstep : (Frame.start id refusal .register).step system.world (system.view thread) thread
        (system.signal thread) = some (system.world, .goto (.start id refusal .reject)) := by
      rw [hgo]
      simp only [Frame.step, stepStart]
      rw [show system.world.host.executor? (system.world.executors id).handle = some owner from
        htaken]
    obtain ⟨rejecting, hmove, hworld, hadvance⟩ := exists_advance hexit hframes hstep
    refine ⟨rejecting, hmove, hworld, hadvance.own, fun later hlater => ?_⟩
    exact (hreach.move (.step thread) hmove).unrestricted.turnedAway_later hadvance.own
      hlater.unrestricted

/-- A second executor with the handle of a fragment that runs is turned away. -/
theorem one_executor_per_handle_of_second_start :
    ∃ system, (ofFragments [.vacant, .vacant] { slots := { free := 2 } }).Reachable system ∧
      system.RunsHosted 1 0 ∧ ∃ rejecting, system.step 2 = some rejecting ∧
        rejecting.world = system.world ∧
        ∀ later, rejecting.Reachable later → later.TurnedAway 2 1 := by
  obtain ⟨system, hreach, hend⟩ := exists_of_moves
    (ofFragments [.vacant, .vacant] { slots := { free := 2 } })
    (.call (.start 0 none) :: List.replicate 4 (.step 0) ++ List.replicate 5 (.step 1) ++
      .call (.start 1 none) :: List.replicate 2 (.step 2))
    (fun system => ((system.frames 1).getLast?, system.frames 2,
      system.world.host.executor? (system.executor 1).handle, system.world.exit))
    (some (.hosted 0 Fragment.vacant.identity.handle .running), [.start 1 none .register],
      some 0, none) rfl
  obtain ⟨hruns, hregisters, htaken, hexit⟩ : _ ∧ _ ∧ _ ∧ _ := by
    simpa only [Prod.mk.injEq] using hend
  obtain ⟨-, -, hturns⟩ := one_executor_per_handle rfl hreach
  obtain ⟨rejecting, hmove, hworld, -, hlater⟩ := hturns 2 1 none 0 hregisters htaken hexit
  exact ⟨system, hreach, ⟨_, List.mem_of_getLast? hruns⟩, rejecting, hmove, hworld, hlater⟩

end Starts

end System

end FragmentLifecycle
