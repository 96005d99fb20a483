import FragmentLifecycle.Proofs.HostTable

/-!
# Entries that nobody removes

A thread that a panic unwinds out of its run leaves its entry in the table without a
keeper, and for good (`System.ReachableUnder.orphaned_later`).  Every entry of the table
is kept by a frame or was left like that (`System.ReachableUnder.kept_or_unwound`).
-/

namespace FragmentLifecycle

section Threads

variable {handle : ExecutorId → Handle} {thread : ThreadId} {signal : Signal} {h h' : Host}
  {next : Next} {id : ExecutorId} {handle' : Handle} {point : HostedPoint}

theorem HostStep.next_of_dropped {payload : Payload}
    (hstep : HostStep handle thread (.hosted id handle' (.releaseUnwound payload)) signal h next
      h') : next = .raise payload := by
  cases hstep
  case aside houtside _ _ => cases houtside
  case slotDropped => rfl

theorem HostStep.of_run_raised {payload : Payload}
    (hstep : HostStep handle thread (.hosted id handle' .running) signal h next h')
    (hraised : signal = .raised payload) :
    next = .goto (.hosted id handle' (.releaseUnwound payload)) ∧ h' = h := by
  cases hstep
  case aside houtside _ _ => cases houtside
  case runReturned => cases hraised
  case runUnwound =>
    obtain rfl := Signal.raised.inj hraised
    exact ⟨rfl, rfl⟩

/-- A thread of a fragment unwinds where its run has raised a panic. -/
theorem HostStep.unwinding_cases
    (hstep : HostStep handle thread (.hosted id handle' point) signal h next h')
    (hunwinds : (∃ handle' payload, next.frames = [.hosted id handle' (.releaseUnwound payload)]) ∨
      (next.frames = [] ∧ ∃ payload, next.signal = .raised payload)) :
    ∃ payload, (point = .running ∧ signal = .raised payload) ∨ point = .releaseUnwound payload := by
  cases hstep
  case aside houtside _ _ => cases houtside
  case runUnwound payload => exact ⟨payload, .inl ⟨rfl, rfl⟩⟩
  case slotDropped payload => exact ⟨payload, .inr rfl⟩
  all_goals simp at hunwinds

/-- A run that raises a panic is over by it. -/
theorem Transition.unwound_of_raised {view : LockView} {l : Option ListenerId}
    {point : RunPoint} {executor executor' : Executor} {payload : Payload}
    (htransition : Transition view thread id (.run id l point) signal executor next executor')
    (hraised : next.signal = .raised payload) : executor'.course = .unwound thread := by
  cases htransition
  case aside houtside _ _ => simp [Frame.isCore] at houtside
  case alarmUnwinds | closingUnwinds | reportUnwinds => rfl
  all_goals cases hraised

end Threads

namespace System

/-- A thread that was started for an executor and that a panic unwound out of the run: it
has still to give its slot back, or has ended. -/
def Unwound (system : System) (id : ExecutorId) (thread : ThreadId) : Prop :=
  (system.stack thread).hosts = some id ∧
    ((∃ handle payload, system.frames thread = [.hosted id handle (.releaseUnwound payload)]) ∨
      (system.frames thread = [] ∧ ∃ payload, system.signal thread = .raised payload))

/-- An entry of the table that no frame keeps. -/
def Orphaned (system : System) (handle : ExecutorId → Handle) (id : ExecutorId) : Prop :=
  (handle id, id) ∈ system.world.host.running ∧
    system.total (Frame.keeping handle (handle id)) = 0

section Orphans

variable {fragments : List Fragment} {host : Host} {permitted : Command → Prop}
  {system after : System} {thread owner : ThreadId} {frame : Frame} {rest : List Frame}
  {next : Next} {id : ExecutorId} {handle : ExecutorId → Handle}

/-! ## Entries without a keeper -/

theorem Orphaned.of_same (horphaned : system.Orphaned handle id)
    (hrunning : after.world.host.running = system.world.host.running)
    (htotal : after.total (Frame.keeping handle (handle id)) =
      system.total (Frame.keeping handle (handle id))) : after.Orphaned handle id :=
  ⟨hrunning ▸ horphaned.1, htotal.trans horphaned.2⟩

/-- Only its keeper could remove the entry, and its handle is not free for another one. -/
theorem Orphaned.advance (horphaned : system.Orphaned handle id)
    (hadvance : system.Advance after thread frame rest next)
    (hstep : TableStep handle frame (system.signal thread) system.world.host next
      after.world.host) : after.Orphaned handle id := by
  obtain ⟨hmem, hnone⟩ := horphaned
  have hsum := hadvance.total_keeping handle (handle id)
  have hframe : frame.keeping handle (handle id) = 0 := by
    have hle := weight_le_total (Frame.keeping handle (handle id))
      (hadvance.frames ▸ List.mem_cons_self : frame ∈ system.frames thread)
    omega
  constructor
  · refine (hstep.mem_or_removed hmem).resolve_right ?_
    rintro ⟨hpos, -⟩
    dsimp only at hpos
    omega
  · rcases hstep.weight_le (handle id) with hle | ⟨hfree, -⟩
    · omega
    · exact absurd (List.mem_map_of_mem hmem) (Host.executor?_eq_none.mp hfree)

/-- An entry without a keeper stays for good. -/
theorem ReachableUnder.orphaned_later {later : System}
    (hreach : (ofFragments fragments host).ReachableUnder permitted system)
    (horphaned : system.Orphaned (handleIn fragments) id)
    (hlater : system.ReachableUnder permitted later) :
    later.Orphaned (handleIn fragments) id := by
  refine ReachableUnder.hosting_since (fun system => system.Orphaned (handleIn fragments) id)
    hreach horphaned ?_ ?_ ?_ hlater
  · intro system command _ _ horphaned
    exact horphaned.of_same rfl (total_keeping_of_call _ _ command)
  · intro system after given root _ hgives horphaned
    exact horphaned.of_same hgives.table.1 (hgives.total_keeping _ _)
  · intro system after thread frame rest next hreach _ hadvance _ horphaned
    exact horphaned.advance hadvance (hreach.table_step hadvance)

/-! ## Threads that a panic unwound -/

/-- A panic that leaves a hosted run has unwound it. -/
theorem ReachableUnder.unwound_of_raised
    (hreach : (ofFragments fragments host).ReachableUnder permitted system) {handle' : Handle}
    (hframes : system.frames thread = .hosted id handle' .running :: rest) {payload : Payload}
    (hraised : system.signal thread = .raised payload) :
    ∃ owner, (system.executor id).course = .unwound owner := by
  refine hreach.on_return id (fun executor _ caller signal => ∀ handle' payload,
    caller = .hosted id handle' .running → signal = .raised payload →
      ∃ owner, executor.course = .unwound owner) ?_ ?_ hframes (by simp [hraised]) handle' payload
    rfl hraised
  · rintro system after thread frame caller rest next - hadvance htransition hawaits hends -
      handle' payload rfl hraised
    generalize hrole : frame.role = role at hawaits
    cases hawaits
    obtain ⟨l, point, rfl⟩ := Frame.eq_run_of_role hrole
    exact ⟨thread, htransition.unwound_of_raised hraised⟩
  · intro system after mover frame rest next hreach hadvance htransition owner caller signal _ _
      hholds handle' payload hcaller hraised
    obtain ⟨owner, hunwound⟩ := hholds handle' payload hcaller hraised
    exact ⟨owner, hadvance.unwound_of_unwound hreach hunwound⟩

theorem Unwound.of_stack (hunwound : system.Unwound id thread)
    (hstack : after.stack thread = system.stack thread) : after.Unwound id thread := by
  simp only [Unwound, System.frames, System.signal, hstack] at hunwound ⊢
  exact hunwound

/-- The thread of a fragment gives its slot back and ends, or has ended. -/
theorem Unwound.step (hunwound : system.Unwound id owner)
    (hreach : (ofFragments fragments host).ReachableUnder permitted system)
    (hmove : system.step thread = some after)
    (hadvance : system.Advance after thread frame rest next) : after.Unwound id owner := by
  obtain ⟨hsame, hothers⟩ := stack_of_step hmove
  by_cases howner : owner = thread
  · subst howner
    obtain ⟨hhosts, ⟨handle', payload, hframes⟩ | ⟨hnone, -⟩⟩ := hunwound
    · obtain ⟨rfl, rfl⟩ : frame = .hosted id handle' (.releaseUnwound payload) ∧ rest = [] := by
        simpa [hframes, eq_comm] using hadvance.frames
      refine ⟨hsame.trans hhosts, .inr ?_⟩
      rw [hadvance.own, hadvance.ownSignal, (hreach.host_step hadvance).next_of_dropped]
      exact ⟨rfl, payload, rfl⟩
    · rw [hadvance.frames] at hnone
      cases hnone
  · rcases hothers owner howner with hkept | ⟨hfresh, -⟩
    · exact hunwound.of_stack hkept
    · rw [Unwound, hfresh] at hunwound
      cases hunwound.1

theorem Unwound.call (hunwound : system.Unwound id owner) (command : Command) :
    (system.call command).Unwound id owner := by
  obtain ⟨-, hfresh, hothers⟩ := stack_of_call system command
  by_cases howner : owner = system.threads.length
  · rw [Unwound, howner, hfresh] at hunwound
    cases hunwound.1
  · exact hunwound.of_stack (hothers owner howner)

theorem Unwound.givesUp {root : Frame} (hunwound : system.Unwound id owner)
    (hgives : system.GivesUp after thread root) : after.Unwound id owner := by
  by_cases howner : owner = thread
  · subst howner
    have hroot := hgives.frames
    obtain ⟨-, ⟨handle', payload, hframes⟩ | ⟨hnone, -⟩⟩ := hunwound
    · rw [hframes] at hroot
      obtain rfl := (List.cons.inj hroot).1
      rcases hgives.host with ⟨_, _, hstart, -⟩ | ⟨houtside, -⟩
      · cases hstart
      · cases houtside
    · rw [hnone] at hroot
      cases hroot
  · exact hunwound.of_stack (hgives.others owner howner)

/-- A thread becomes one that a panic unwound where its run has raised the panic. -/
theorem Unwound.step_cases (hunwound : after.Unwound id owner)
    (hreach : (ofFragments fragments host).ReachableUnder permitted system)
    (hmove : system.step thread = some after)
    (hadvance : system.Advance after thread frame rest next) :
    system.Unwound id owner ∨ (owner = thread ∧ ∃ handle' payload,
      frame = .hosted id handle' .running ∧ system.signal thread = .raised payload) := by
  obtain ⟨hsame, hothers⟩ := stack_of_step hmove
  by_cases howner : owner = thread
  · subst howner
    obtain ⟨hhosts, hends⟩ := hunwound
    rw [hsame] at hhosts
    have hlinked := hadvance.frames ▸ hreach.linked owner
    obtain ⟨handle', point, hlast⟩ := (hreach.hosted_of_hosts hhosts).resolve_right fun hnone => by
      simp [hadvance.frames] at hnone
    rw [hadvance.frames] at hlast
    rw [hadvance.own, hadvance.ownSignal] at hends
    cases rest with
    | cons caller below =>
      -- a frame that unwinds is called by nobody
      rcases hends with ⟨_, _, hframes⟩ | ⟨hnone, -⟩
      · obtain ⟨hnext, rfl, rfl⟩ : next.frames = [] ∧ caller = _ ∧ below = [] := by
          simpa [List.append_eq_singleton_iff] using hframes
        cases hlinked.1
      · simp at hnone
    | nil =>
      obtain rfl := Option.some.inj hlast
      rw [List.append_nil] at hends
      obtain ⟨payload, ⟨rfl, hraised⟩ | rfl⟩ := (hreach.host_step hadvance).unwinding_cases hends
      · exact .inr ⟨rfl, handle', payload, rfl, hraised⟩
      · exact .inl ⟨hhosts, .inl ⟨handle', payload, hadvance.frames⟩⟩
  · rcases hothers owner howner with hkept | ⟨-, frame', rest', reply, started, hosts, hfork, hnew⟩
    · exact .inl (hunwound.of_stack hkept.symm)
    · obtain ⟨rfl, -⟩ := (hreach.host_step hfork).forked_eq
      obtain ⟨-, ⟨handle', payload, hframes⟩ | ⟨hnone, -⟩⟩ := hunwound
      · rw [System.frames, hnew] at hframes
        cases hframes
      · rw [System.frames, hnew] at hnone
        cases hnone

theorem Unwound.of_givesUp {root : Frame} (hunwound : after.Unwound id owner)
    (hreach : (ofFragments fragments host).ReachableUnder permitted system)
    (hgives : system.GivesUp after thread root) : system.Unwound id owner := by
  by_cases howner : owner = thread
  · subst howner
    have hhosts : (system.stack owner).hosts = some id := by
      rw [← hunwound.1, hgives.own]
    rcases hreach.hosted_of_hosts hhosts with ⟨handle', point, hlast⟩ | ⟨hnone, -⟩
    · rw [hgives.frames] at hlast
      obtain rfl := Option.some.inj hlast
      rcases hgives.host with ⟨_, _, hstart, -⟩ | ⟨houtside, -⟩
      · cases hstart
      · cases houtside
    · rw [hgives.frames] at hnone
      cases hnone
  · exact hunwound.of_stack (hgives.others owner howner).symm

theorem Unwound.of_call {command : Command} (hunwound : (system.call command).Unwound id owner) :
    system.Unwound id owner := by
  obtain ⟨hnew, -, hothers⟩ := stack_of_call system command
  by_cases howner : owner = system.threads.length
  · rw [Unwound, howner, hnew] at hunwound
    cases hunwound.1
  · exact hunwound.of_stack (hothers owner howner).symm

/-- A panic that leaves a hosted run leaves the entry without a keeper. -/
theorem Advance.orphaned_of_raised
    (hreach : (ofFragments fragments host).ReachableUnder permitted system)
    (hempty : host.running = []) {handle' : Handle} {payload : Payload}
    (hmove : system.step thread = some after)
    (hadvance : system.Advance after thread (.hosted id handle' .running) rest next)
    (hraised : system.signal thread = .raised payload) :
    after.Unwound id thread ∧ after.Orphaned (handleIn fragments) id := by
  have htop : .hosted id handle' .running ∈ system.frames thread :=
    hadvance.frames ▸ List.mem_cons_self
  have hkeeps : (Frame.hosted id handle' .running).keeps? = some id := rfl
  have htable := hreach.table hempty
  obtain ⟨rfl, hhost⟩ := (hreach.host_step hadvance).of_run_raised hraised
  obtain rfl := hreach.frames_of_hosting hadvance.frames rfl
  refine ⟨⟨?_, .inl ⟨handle', payload, hadvance.own⟩⟩, ?_, ?_⟩
  · rw [(stack_of_step hmove).1]
    exact (hreach.hosts_of_hosted htop).2
  · rw [hhost]
    exact htable.listed thread _ htop id hkeeps
  · have hsum := hadvance.total_keeping (handleIn fragments) (handleIn fragments id)
    have hsingle := htable.single (handleIn fragments id)
    rw [Frame.keeping_of_keeps hkeeps, Next.keeping_eq_zero _ _ (by simp [Frame.keeps?])] at hsum
    omega

/-- A hosted run that a panic unwound has left its entry without a keeper. -/
theorem ReachableUnder.orphaned_of_unwound
    (hreach : (ofFragments fragments host).ReachableUnder permitted system)
    (hempty : host.running = []) (hunwound : system.Unwound id thread) :
    system.Orphaned (handleIn fragments) id ∧
      ∃ owner, (system.executor id).course = .unwound owner := by
  refine hreach.hosting (fun system => ∀ id thread, system.Unwound id thread →
    system.Orphaned (handleIn fragments) id ∧
      ∃ owner, (system.executor id).course = .unwound owner) ?_ ?_ ?_ ?_ id thread hunwound
  · intro id thread hunwound
    cases hunwound.1
  · intro system command _ _ hholds id thread hunwound
    obtain ⟨horphaned, hcourse⟩ := hholds id thread hunwound.of_call
    exact ⟨horphaned.of_same rfl (total_keeping_of_call _ _ command), hcourse⟩
  · intro system after given root hreach hgives hholds id thread hunwound
    obtain ⟨horphaned, hcourse⟩ := hholds id thread (hunwound.of_givesUp hreach hgives)
    refine ⟨horphaned.of_same hgives.table.1 (hgives.total_keeping _ _), ?_⟩
    rw [hgives.turnover.executor_eq]
    exact hcourse
  · intro system after mover frame rest next hreach hmove hadvance _ hholds id thread hunwound
    rcases hunwound.step_cases hreach hmove hadvance with
      hbefore | ⟨rfl, handle', payload, rfl, hraised⟩
    · obtain ⟨horphaned, owner, hcourse⟩ := hholds id thread hbefore
      exact ⟨horphaned.advance hadvance (hreach.table_step hadvance), owner,
        hadvance.unwound_of_unwound hreach hcourse⟩
    · obtain ⟨owner, hcourse⟩ := hreach.unwound_of_raised hadvance.frames hraised
      exact ⟨(hadvance.orphaned_of_raised hreach hempty hmove hraised).2, owner,
        hadvance.unwound_of_unwound hreach hcourse⟩

/-- An entry of the table is kept, or a panic unwound a run that it was made for. -/
theorem ReachableUnder.kept_or_unwound
    (hreach : (ofFragments fragments host).ReachableUnder permitted system)
    (hempty : host.running = []) {entry : Handle × ExecutorId}
    (hmem : entry ∈ system.world.host.running) :
    0 < system.total (Frame.keeping (handleIn fragments) entry.1) ∨
      ∃ thread, system.Unwound entry.2 thread := by
  refine hreach.hosting (fun system => ∀ entry ∈ system.world.host.running,
    0 < system.total (Frame.keeping (handleIn fragments) entry.1) ∨
      ∃ thread, system.Unwound entry.2 thread) ?_ ?_ ?_ ?_ entry hmem
  · intro entry hmem
    rw [ofFragments, hempty] at hmem
    cases hmem
  · intro system command _ _ hholds entry hmem
    rw [total_keeping_of_call]
    exact (hholds entry hmem).imp_right (Exists.imp fun _ hunwound => hunwound.call command)
  · intro system after given root _ hgives hholds entry hmem
    rw [hgives.table.1] at hmem
    rw [hgives.total_keeping]
    exact (hholds entry hmem).imp_right (Exists.imp fun _ hunwound => hunwound.givesUp hgives)
  · intro system after mover frame rest next hreach hmove hadvance _ hholds entry hmem
    have htable := hreach.table hempty
    have htop : frame ∈ system.frames mover := hadvance.frames ▸ List.mem_cons_self
    have hsum := hadvance.total_keeping (handleIn fragments) entry.1
    have hle := weight_le_total (Frame.keeping (handleIn fragments) entry.1) htop
    have hlater (hbefore : ∃ thread, system.Unwound entry.2 thread) :
        ∃ thread, after.Unwound entry.2 thread :=
      hbefore.imp fun _ hunwound => hunwound.step hreach hmove hadvance
    rcases (hreach.table_step hadvance).entry_cases hmem with
      ⟨hold, hweight⟩ | hpos | ⟨hold, id, handle', payload, rfl, hraised, rfl⟩
    · exact (hholds entry hold).imp (fun hpos => by omega) hlater
    · exact .inl (by omega)
    · by_cases hsame : handleIn fragments id = entry.1
      · -- it is the entry of the run that the panic has unwound
        have hlisted := htable.listed mover _ htop id rfl
        obtain rfl : (handleIn fragments id, id) = entry :=
          List.inj_on_of_nodup_map htable.nodup hlisted hold hsame
        exact .inr ⟨mover, (hadvance.orphaned_of_raised hreach hempty hmove hraised).1⟩
      · refine (hholds entry hold).imp (fun hpos => ?_) hlater
        have hweight : (Frame.hosted id handle' .running).keeping (handleIn fragments) entry.1 =
            0 := by simp [Frame.keeping, Frame.keeps?, hsame]
        omega

end Orphans

end System

end FragmentLifecycle
