import FragmentLifecycle.Proofs.SlotConservation

/-!
# Waiting for idleness

A call that waits for idleness takes note of the signals so far, looks at the table of
hosted fragments and goes to sleep until the next signal.  The end of a fragment signals
where it leaves the table empty, but a start that has no thread takes its entry back
without a signal.  Such a start is the only way in which a call comes to sleep on over an
empty table (`System.ReachableUnder.idle_wait_misses_withdrawals_only`), and it is one
(`System.idle_wait_misses_withdrawal`).
-/

namespace FragmentLifecycle

/-! ## Signals -/

/-- The table does not become empty without a signal. -/
structure Host.Signals (h h' : Host) : Prop where
  le : h.idleSignals ≤ h'.idleSignals
  emptied : h.running ≠ [] → h'.running = [] → h.idleSignals < h'.idleSignals

theorem Host.Signals.of_eq {h h' : Host} (hrunning : h'.running = h.running)
    (hsignals : h'.idleSignals = h.idleSignals) : h.Signals h' :=
  ⟨hsignals.ge, fun hlisted hempty => absurd (hrunning ▸ hempty) hlisted⟩

/-- The end of a fragment signals where it leaves the table empty. -/
theorem Host.signals_deregister (h : Host) (handle : Handle) : h.Signals (h.deregister handle) := by
  rw [deregister]
  split
  · exact ⟨Nat.le_succ _, fun _ _ => Nat.lt_succ_self _⟩
  · rename_i hlisted
    exact ⟨Nat.le_refl _, fun _ hempty => absurd (List.isEmpty_iff.mpr hempty) hlisted⟩

/-- Only a start that takes its entry back changes the table and does not signal. -/
theorem HostStep.signals_or_withdraws {handle : ExecutorId → Handle} {thread : ThreadId}
    {frame : Frame} {signal : Signal} {h h' : Host} {next : Next}
    (hstep : HostStep handle thread frame signal h next h') :
    h.Signals h' ∨ (∃ id refusal, frame = .start id refusal .withdraw) ∧
      h'.idleSignals = h.idleSignals := by
  cases hstep
  case withdrawn => exact .inr ⟨⟨_, _, rfl⟩, rfl⟩
  case registered => exact .inl ⟨Nat.le_refl _, fun _ hempty => by simp [Host.insert] at hempty⟩
  case deregistered => exact .inl (h.signals_deregister _)
  all_goals exact .inl (.of_eq rfl rfl)

theorem HostStep.idleSignals_of_withdraw {handle : ExecutorId → Handle} {thread : ThreadId}
    {id : ExecutorId} {refusal : Option String} {signal : Signal} {h h' : Host} {next : Next}
    (hstep : HostStep handle thread (.start id refusal .withdraw) signal h next h') :
    h'.idleSignals = h.idleSignals := by
  cases hstep with
  | withdrawn => rfl
  | aside houtside => cases houtside

/-! ## What a call that waits has seen -/

/-- A call that waits for idleness has taken note of no signal that is still to come.  It sleeps
without a new one only while a fragment is listed, or where it has missed something. -/
def HostPoint.IsInformed (h : Host) (missed : Nat → Prop) : HostPoint → Prop
  | .start => True
  | .listening signals => signals ≤ h.idleSignals
  | .asleep signals =>
      signals ≤ h.idleSignals ∧ (signals = h.idleSignals → h.running = [] → missed signals)
  | .waiting | .walk _ => False

/-- A signal that has come does not go away. -/
theorem HostPoint.IsInformed.of_le {h h' : Host} {missed missed' : Nat → Prop}
    {point : HostPoint} (hinformed : point.IsInformed h missed)
    (hle : h.idleSignals ≤ h'.idleSignals)
    (hmissed : ∀ signals, point = .asleep signals → signals = h'.idleSignals → h'.running = [] →
      (h.running = [] → missed signals) → missed' signals) : point.IsInformed h' missed' := by
  cases point with
  | start => trivial
  | listening signals => exact Nat.le_trans hinformed hle
  | asleep signals =>
    obtain ⟨hbefore, hsleeps⟩ := hinformed
    refine ⟨hbefore.trans hle, fun hlast hempty => hmissed signals rfl hlast hempty ?_⟩
    exact hsleeps (Nat.le_antisymm hbefore (hlast ▸ hle))
  | waiting | walk => cases hinformed

section Steps

variable {world after : World} {view : LockView} {thread : ThreadId} {signal : Signal}
  {point : HostPoint} {next : Next} {missed : Nat → Prop}

/-- Who goes to sleep has just seen a fragment in the table, and who returns has not. -/
theorem HostPoint.IsInformed.step (hinformed : point.IsInformed world.host missed)
    (hstep : stepHost world .waitIdle point signal = some (after, next)) :
    after = world ∧ (next = .done ∧ world.host.running = [] ∨
      ∃ point', next = .goto (.host .waitIdle point') ∧
        ∀ missed', point'.IsInformed world.host missed') := by
  revert hstep
  fun_cases stepHost world .waitIdle point signal
  all_goals rintro ⟨⟩
  case case1 => exact ⟨rfl, .inr ⟨_, rfl, fun _ => Nat.le_refl _⟩⟩
  case case8 hempty => exact ⟨rfl, .inl ⟨rfl, List.isEmpty_iff.mp hempty⟩⟩
  case case9 hlisted =>
    exact ⟨rfl, .inr ⟨_, rfl, fun _ =>
      ⟨hinformed, fun _ hempty => absurd (List.isEmpty_iff.mpr hempty) hlisted⟩⟩⟩
  case case11 => exact ⟨rfl, .inr ⟨_, rfl, fun _ => Nat.le_refl _⟩⟩
  all_goals cases hinformed

/-- A call on the host is made from outside only. -/
theorem Frame.of_pushed_host {frame : Frame} {call : HostCall}
    (hstep : frame.step world view thread signal = some (after, next))
    (hpushed : .host call point ∈ next.frames) : ∃ point', frame = .host call point' := by
  have hrole : frame.role = .host call := by
    have hlinks := Frame.step_links hstep
    cases next with
    | goto resumed =>
      obtain rfl := List.mem_singleton.mp hpushed
      exact hlinks.symm
    | call resumed callee =>
      obtain ⟨hresumed, hawaits⟩ := hlinks
      obtain rfl | rfl : .host call point = callee ∨ .host call point = resumed := by
        simpa using hpushed
      · cases hawaits with
        | @entry _ action _ hentry => cases action <;> cases hentry
      · exact hresumed.symm
    | reply | raise | fork => cases hpushed
  cases frame <;> cases hrole
  exact ⟨_, rfl⟩

end Steps

namespace System

/-- While a call of `thread` slept, a start that had no thread took the last entry of the
table.  This happened since `start` and before `system`. -/
def MissedWithdrawal (start : System) (permitted : Command → Prop) (system : System)
    (thread : ThreadId) (signals : Nat) : Prop :=
  ∃ before after mover id refusal, start.ReachableUnder permitted before ∧
    .host .waitIdle (.asleep signals) ∈ before.frames thread ∧
    before.frames mover = [.start id refusal .withdraw] ∧ before.step mover = some after ∧
    after.world.host.running = [] ∧ after.ReachableUnder permitted system

section Informed

variable {fragments : List Fragment} {host : Host} {permitted : Command → Prop}
  {system after : System} {thread : ThreadId}

theorem MissedWithdrawal.move {start : System} {signals : Nat} (move : Move)
    (hmissed : start.MissedWithdrawal permitted system thread signals)
    (hpermitted : move.Permitted permitted) (hmove : system.move move = some after) :
    start.MissedWithdrawal permitted after thread signals := by
  obtain ⟨before, emptied, mover, id, refusal, hreach, hsleeps, hstart, hstep, hempty, hlater⟩ :=
    hmissed
  exact ⟨before, emptied, mover, id, refusal, hreach, hsleeps, hstart, hstep, hempty,
    .move move hpermitted hlater hmove⟩

/-- A call that stays as it is remains informed, whichever thread moves. -/
theorem ReachableUnder.informed_of_step
    (hreach : (ofFragments fragments host).ReachableUnder permitted system)
    {mover : ThreadId} {frame : Frame} {rest : List Frame} {next : Next}
    (hstep : system.step mover = some after)
    (hadvance : system.Advance after mover frame rest next) {point : HostPoint}
    (hmem : .host .waitIdle point ∈ system.frames thread)
    (hinformed : point.IsInformed system.world.host
      ((ofFragments fragments host).MissedWithdrawal permitted system thread)) :
    point.IsInformed after.world.host
      ((ofFragments fragments host).MissedWithdrawal permitted after thread) := by
  have hmissed {signals : Nat}
      (hbefore : (ofFragments fragments host).MissedWithdrawal permitted system thread signals) :
      (ofFragments fragments host).MissedWithdrawal permitted after thread signals :=
    hbefore.move (.step mover) trivial hstep
  rcases (hreach.host_step hadvance).signals_or_withdraws with
    hsignals | ⟨⟨id, refusal, rfl⟩, hsame⟩
  · refine hinformed.of_le hsignals.le fun signals hasleep hlast hempty hsleeps => ?_
    by_cases hlisted : system.world.host.running = []
    · exact hmissed (hsleeps hlisted)
    · subst hasleep
      exact absurd (hinformed.1.trans_lt (hsignals.emptied hlisted hempty)) hlast.not_lt
  · refine hinformed.of_le hsame.ge fun signals hasleep _ hempty _ => ?_
    have hrest : rest = [] := hreach.frames_of_hosting hadvance.frames rfl
    exact ⟨system, after, mover, id, refusal, hreach, hasleep ▸ hmem, hrest ▸ hadvance.frames,
      hstep, hempty, .refl⟩

/-- Whoever waits for idleness is informed. -/
theorem ReachableUnder.informed
    (hreach : (ofFragments fragments host).ReachableUnder permitted system) {point : HostPoint}
    (hmem : .host .waitIdle point ∈ system.frames thread) :
    point.IsInformed system.world.host
      ((ofFragments fragments host).MissedWithdrawal permitted system thread) := by
  induction hreach generalizing thread point with
  | refl => cases hmem
  | @move system after move hpermitted hreach hmove ih =>
    have hkept {point : HostPoint} (hbefore : .host .waitIdle point ∈ system.frames thread)
        (hrunning : after.world.host.running = system.world.host.running)
        (hsignals : after.world.host.idleSignals = system.world.host.idleSignals) :
        point.IsInformed after.world.host
          ((ofFragments fragments host).MissedWithdrawal permitted after thread) := by
      refine (ih hbefore).of_le hsignals.ge fun signals _ _ hempty hsleeps => ?_
      exact (hsleeps (hrunning ▸ hempty)).move move hpermitted hmove
    cases move with
    | call command =>
      obtain rfl := Option.some.inj hmove
      obtain ⟨hnew, -, hothers⟩ := stack_of_call system command
      by_cases hthread : thread = system.threads.length
      · rw [hthread, System.frames, hnew] at hmem
        have hframe := List.mem_singleton.mp hmem
        cases command <;> cases hframe
        trivial
      · rw [System.frames, hothers thread hthread] at hmem
        exact hkept hmem rfl rfl
    | abandon mover =>
      obtain ⟨root, hgives⟩ := givesUp_of_abandon hmove
      by_cases hthread : thread = mover
      · rw [hthread, System.frames, hgives.own] at hmem
        cases hmem
      · rw [System.frames, hgives.others thread hthread] at hmem
        obtain ⟨id, refusal, -, hhost⟩ | ⟨-, hhost⟩ := hgives.host
        · exact hkept hmem (by rw [hhost]) (by rw [hhost])
        · exact hkept hmem (by rw [hhost]) (by rw [hhost])
    | step mover =>
      obtain ⟨frame, rest, next, hadvance⟩ := advance_of_step hmove
      rcases hadvance.mem_frames_cases hmem with ⟨hmover, hpushed⟩ | ⟨-, hforked⟩ | hbeside
      · obtain ⟨before, rfl⟩ := Frame.of_pushed_host hadvance.step hpushed
        have hmoved : .host .waitIdle before ∈ system.frames mover :=
          hadvance.frames ▸ List.mem_cons_self
        obtain ⟨hworld, ⟨rfl, -⟩ | ⟨point', rfl, hinformed⟩⟩ :=
          (ih hmoved).step hadvance.step
        · cases hpushed
        · cases List.mem_singleton.mp hpushed
          rw [hworld]
          exact hinformed _
      · cases next with
        | fork reply started hosts =>
          obtain ⟨rfl, -⟩ := (hreach.host_step hadvance).forked_eq
          simp at hforked
        | goto | call | reply | raise => cases hforked
      · have hbefore := hadvance.mem_of_beside hbeside
        exact hreach.informed_of_step hmove hadvance hbefore (ih hbefore)

/-- A signal that has come since it fell asleep wakes a call. -/
theorem ReachableUnder.wakes_of_signal
    (hreach : (ofFragments fragments host).ReachableUnder permitted system) {signals : Nat}
    (hsleeps : system.frames thread = [.host .waitIdle (.asleep signals)])
    (hlate : signals ≠ system.world.host.idleSignals) (hexit : system.world.exit = none) :
    ∃ after, system.step thread = some after := by
  have hgo : system.signal thread = .go := hreach.signal_go hsleeps (by rintro role ⟨⟩)
  obtain ⟨after, hafter, -⟩ := exists_advance hexit hsleeps (by
    rw [hgo, Frame.step, stepHost, if_neg hlate.symm])
  exact ⟨after, hafter⟩

/-- A call that sleeps on over an empty table has missed that a start took its entry back. -/
theorem ReachableUnder.wakes_or_missed
    (hreach : (ofFragments fragments host).ReachableUnder permitted system) {signals : Nat}
    (hsleeps : system.frames thread = [.host .waitIdle (.asleep signals)])
    (hempty : system.world.host.running = []) (hexit : system.world.exit = none) :
    (∃ after, system.step thread = some after) ∨
      (ofFragments fragments host).MissedWithdrawal permitted system thread signals := by
  obtain ⟨-, hmissed⟩ := hreach.informed (hsleeps ▸ List.mem_singleton_self _)
  by_cases hlast : signals = system.world.host.idleSignals
  · exact .inr (hmissed hlast hempty)
  · exact .inl (hreach.wakes_of_signal hsleeps hlast hexit)

/-- The step that empties the table wakes every call that sleeps, or it takes the entry of a
start back. -/
theorem ReachableUnder.wakes_all_or_withdraws
    (hreach : (ofFragments fragments host).ReachableUnder permitted system) {mover : ThreadId}
    (hstep : system.step mover = some after) (hlisted : system.world.host.running ≠ [])
    (hempty : after.world.host.running = []) :
    (∀ thread signals, system.frames thread = [.host .waitIdle (.asleep signals)] →
      after.world.exit = none → ∃ later, after.step thread = some later) ∨
      ∃ id refusal, system.frames mover = [.start id refusal .withdraw] := by
  obtain ⟨frame, rest, next, hadvance⟩ := advance_of_step hstep
  rcases (hreach.host_step hadvance).signals_or_withdraws with hsignals | ⟨⟨id, refusal, rfl⟩, -⟩
  · refine .inl fun thread signals hsleeps hexit => ?_
    have hinformed := hreach.informed (hsleeps ▸ List.mem_singleton_self _)
    have hother : thread ≠ mover := by
      rintro rfl
      obtain ⟨rfl, -⟩ := List.cons.inj (hsleeps.symm.trans hadvance.frames)
      exact hlisted ((hinformed.step hadvance.step).1 ▸ hempty)
    have hsleeps' := (hadvance.same_of_busy hother (by simp [hsleeps])).1.trans hsleeps
    exact (hreach.move (.step mover) trivial hstep).wakes_of_signal hsleeps'
      (hinformed.1.trans_lt (hsignals.emptied hlisted hempty)).ne hexit
  · exact .inr ⟨id, refusal, hreach.frames_of_hosting hadvance.frames rfl ▸ hadvance.frames⟩

/-- A start that takes its entry back wakes nobody. -/
theorem ReachableUnder.sleeps_on_of_withdrawn
    (hreach : (ofFragments fragments host).ReachableUnder permitted system) {mover : ThreadId}
    {id : ExecutorId} {refusal : Option String} {signals : Nat}
    (hwithdraws : system.frames mover = [.start id refusal .withdraw])
    (hstep : system.step mover = some after)
    (hsleeps : system.frames thread = [.host .waitIdle (.asleep signals)])
    (hstuck : system.step thread = none) : after.step thread = none := by
  have hlast : system.world.host.idleSignals = signals := by
    by_contra hlate
    obtain ⟨woken, hwoken⟩ := hreach.wakes_of_signal hsleeps (Ne.symm hlate) (exit_of_step hstep)
    rw [hstuck] at hwoken
    cases hwoken
  obtain ⟨frame, rest, next, hadvance⟩ := advance_of_step hstep
  have hother : thread ≠ mover := by
    rintro rfl
    rw [hwithdraws] at hsleeps
    cases hsleeps
  have hsleeps' := (hadvance.same_of_busy hother (by simp [hsleeps])).1.trans hsleeps
  obtain ⟨rfl, -⟩ := List.cons.inj (hwithdraws.symm.trans hadvance.frames)
  have hsame := (hreach.host_step hadvance).idleSignals_of_withdraw
  have hgo := (hreach.move (.step mover) trivial hstep).signal_go hsleeps' (by rintro role ⟨⟩)
  exact step_eq_none hsleeps' (by rw [hgo, Frame.step, stepHost, if_pos (hsame.trans hlast)])

/-- A call returns only as it sees the table empty. -/
theorem ReachableUnder.empty_of_idle_wait_returned
    (hreach : (ofFragments fragments host).ReachableUnder permitted system) {point : HostPoint}
    (hwaits : system.frames thread = [.host .waitIdle point])
    (hstep : system.step thread = some after) (hend : after.frames thread = []) :
    system.world.host.running = [] := by
  obtain ⟨frame, rest, next, hadvance⟩ := advance_of_step hstep
  obtain ⟨rfl, rfl⟩ := List.cons.inj (hwaits.symm.trans hadvance.frames)
  have hinformed := hreach.informed (hwaits ▸ List.mem_singleton_self _)
  rcases (hinformed.step hadvance.step).2 with ⟨-, hempty⟩ | ⟨point', rfl, -⟩
  · exact hempty
  · rw [hadvance.own] at hend
    cases hend

/-- Where every thread can be had, no call sleeps on over an empty table. -/
theorem ReachableUnder.idle_wait_misses_nothing
    (hreach : (ofFragments fragments host).ReachableUnder Command.Spawns system) {signals : Nat}
    (hsleeps : system.frames thread = [.host .waitIdle (.asleep signals)])
    (hempty : system.world.host.running = []) (hexit : system.world.exit = none) :
    ∃ after, system.step thread = some after := by
  refine (hreach.wakes_or_missed hsleeps hempty hexit).resolve_right ?_
  rintro ⟨before, after, mover, id, refusal, hbefore, -, hstart, -⟩
  exact hbefore.not_withdrawn (hstart ▸ List.mem_singleton_self _)

/-- What calls that wait for idleness miss, in every reachable system.  A call sleeps on over
an empty table only where a start has taken the last entry back while it slept.  Every other
step that empties the table wakes all who sleep, and such a step wakes nobody.  A call returns
only as it sees the table empty. -/
theorem ReachableUnder.idle_wait_misses_withdrawals_only
    (hreach : (ofFragments fragments host).ReachableUnder permitted system) :
    (∀ thread signals, system.frames thread = [.host .waitIdle (.asleep signals)] →
      system.world.host.running = [] → system.world.exit = none →
      (∃ after, system.step thread = some after) ∨
        (ofFragments fragments host).MissedWithdrawal permitted system thread signals) ∧
      (∀ mover after, system.step mover = some after → system.world.host.running ≠ [] →
        after.world.host.running = [] →
        (∀ thread signals, system.frames thread = [.host .waitIdle (.asleep signals)] →
          after.world.exit = none → ∃ later, after.step thread = some later) ∨
          ∃ id refusal, system.frames mover = [.start id refusal .withdraw]) ∧
      (∀ mover after id refusal, system.frames mover = [.start id refusal .withdraw] →
        system.step mover = some after →
        ∀ thread signals, system.frames thread = [.host .waitIdle (.asleep signals)] →
          system.step thread = none → after.step thread = none) ∧
      ∀ thread after point, system.frames thread = [.host .waitIdle point] →
        system.step thread = some after → after.frames thread = [] →
        system.world.host.running = [] :=
  ⟨fun _ _ hsleeps hempty hexit => hreach.wakes_or_missed hsleeps hempty hexit,
    fun _ _ hstep hlisted hempty => hreach.wakes_all_or_withdraws hstep hlisted hempty,
    fun _ _ _ _ hwithdraws hstep _ _ hsleeps hstuck =>
      hreach.sleeps_on_of_withdrawn hwithdraws hstep hsleeps hstuck,
    fun _ _ _ hwaits hstep hend => hreach.empty_of_idle_wait_returned hwaits hstep hend⟩

end Informed

/-- A call falls asleep over the entry of a start that then has no thread.  The start returns,
and the call sleeps on: it has missed that the entry was taken back. -/
theorem idle_wait_misses_withdrawal :
    ∃ system, (ofFragments [.vacant] { slots := { free := 1 } }).Reachable system ∧
      system.threads.length = 2 ∧ system.frames 0 = [] ∧
      system.frames 1 = [.host .waitIdle (.asleep 0)] ∧
      system.world.host.running = [] ∧ system.step 1 = none ∧
      (ofFragments [.vacant] { slots := { free := 1 } }).MissedWithdrawal (fun _ => True)
        system 1 0 := by
  obtain ⟨system, hreach, hend⟩ := exists_of_moves
    (ofFragments [.vacant] { slots := { free := 1 } })
    (.call (.start 0 (some "no thread")) :: List.replicate 3 (.step 0) ++
      .call (.host .waitIdle) :: List.replicate 2 (.step 1) ++ List.replicate 19 (.step 0))
    (fun system => (system.threads.length, system.frames 0, system.frames 1,
      system.world.host.running, system.world.exit, (system.step 1).isSome))
    (2, [], [.host .waitIdle (.asleep 0)], [], none, false) rfl
  obtain ⟨hthreads, hover, hsleeps, hempty, hexit, hstuck⟩ : _ ∧ _ ∧ _ ∧ _ ∧ _ ∧ _ := by
    simpa only [Prod.mk.injEq] using hend
  have hstuck : system.step 1 = none := by simpa using hstuck
  refine ⟨system, hreach, hthreads, hover, hsleeps, hempty, hstuck, ?_⟩
  have hmisses := (hreach.unrestricted.idle_wait_misses_withdrawals_only).1 1 0 hsleeps hempty hexit
  exact hmisses.resolve_left (by simp [hstuck])

end System

end FragmentLifecycle
