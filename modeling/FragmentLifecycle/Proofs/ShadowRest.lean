import FragmentLifecycle.Proofs.DeadlockFreedom
import FragmentLifecycle.Proofs.ShadowRuns

/-!
# Coming to rest beside concealed fragments

A system is at rest when none of its threads can take a step.  Where the calls that concealed
fragments are inside of are advances of their trees, nobody waits for these fragments
(`System.ReachableUnder.frees_of_still`).  So the shadow of a system at rest is at rest but for
calls that wait for idleness, and these settle (`System.Plays.exists_settled`).
-/

namespace FragmentLifecycle

/-- Waits to be woken up. -/
def Frame.isAsleep : Frame → Bool
  | .call _ _ .parked | .host _ (.asleep _) => true
  | _ => false

section GoesOn

variable {handle : ExecutorId → Handle} {veiled : Handle → Bool} {frame frame' : Frame}
  {signal signal' : Signal} (world : World) (view : LockView) (thread : ThreadId)

/-- Is at a point from which it can always go on. -/
def Frame.isFree : Frame → Bool
  | .call _ _ .parking | .depart _ (.walk _) | .host _ (.walk _) | .host _ (.listening _) => true
  | _ => false

theorem Frame.isSome_step_of_isFree (hfree : frame.isFree = true) :
    (frame.step world view thread .go).isSome = true := by
  revert hfree
  fun_cases Frame.isFree frame
  case case1 =>
    simp only [step, stepCall]
    split <;> simp
  case case2 nodes watches =>
    cases watches with
    | nil => simp [step, stepDepart]
    | cons =>
      simp only [step, stepDepart]
      split <;> simp
  case case3 call ids => cases ids <;> simp [step, stepHost]
  case case4 =>
    simp only [step, stepHost]
    split <;> simp
  case case5 => rintro ⟨⟩

theorem Frame.Lingers.isFree (hlingers : frame.Lingers handle veiled world signal)
    (hframe : frame.Alike handle veiled frame') (hsignal : signal.Alike veiled signal')
    (hawake : frame.isAsleep = false) :
    (frame.isFree = true ∧ signal = .go) ∧ frame'.isFree = true ∧ signal' = .go := by
  revert hlingers
  fun_cases Frame.Lingers handle veiled world frame signal
  all_goals intro hlingers
  case case2 | case6 => cases hawake
  case case7 => exact hlingers.elim
  all_goals
    cases hsignal
    cases hframe <;> exact ⟨⟨rfl, rfl⟩, rfl, rfl⟩

/-- A walker whose call has returned can go on. -/
theorem Frame.HeldUp.isSome_step (hheld : frame.HeldUp handle veiled frame') (reply : Reply) :
    (frame.step world view thread (.replied reply)).isSome = true := by
  cases hheld <;> simp [Frame.step, stepDepart, stepHost]

omit world view thread in
theorem Frame.HeldUp.isFree (hheld : frame.HeldUp handle veiled frame') :
    frame'.isFree = true := by
  cases hheld <;> rfl

/-- It waits for a cancellation. -/
theorem Frame.HeldUp.cancels {callee : Frame} (hheld : frame.HeldUp handle veiled frame')
    (hawaits : frame.Awaits callee.role) : ∃ id point, callee = .cancel id point := by
  generalize hrole : callee.role = role at hawaits
  cases hheld <;> cases hawaits <;> exact ⟨_, Frame.eq_cancel_of_role hrole⟩

theorem Frame.eq_of_isAsleep (hsleeps : frame.isAsleep = true) :
    (∃ id call, frame = .call id call .parked) ∨
      ∃ call signals, frame = .host call (.asleep signals) := by
  revert hsleeps
  fun_cases Frame.isAsleep frame
  · exact fun _ => .inl ⟨_, _, rfl⟩
  · exact fun _ => .inr ⟨_, _, rfl⟩
  · rintro ⟨⟩

/-- A call on the host is called by nobody. -/
theorem Linked.eq_nil_of_host {call : HostCall} {point : HostPoint} {rest : List Frame}
    (hlinked : Linked (.host call point :: rest)) : rest = [] := by
  cases rest with
  | nil => rfl
  | cons caller below =>
    cases hlinked.awaits with
    | @entry _ action _ hentry => cases action <;> cases hentry

/-- A frame that is called by another one stands on it. -/
theorem Linked.exists_callee_above {walker top : Frame} {inner below : List Frame}
    (hlinked : Linked (top :: inner ++ walker :: below)) :
    ∃ callee ∈ top :: inner, walker.Awaits callee.role := by
  induction inner generalizing top with
  | nil => exact ⟨top, List.mem_cons_self, hlinked.awaits⟩
  | cons next inner ih =>
    obtain ⟨callee, hcallee, hawaits⟩ := ih hlinked.tail
    exact ⟨callee, List.mem_cons_of_mem _ hcallee, hawaits⟩

end GoesOn

/-- The points of a call that looks at the table time and again. -/
def HostPoint.isLooking : HostPoint → Bool
  | .listening _ | .asleep _ => true
  | _ => false

/-- Only a call that waits for idleness comes to such a point. -/
theorem HostPoint.looking_of_start {world : World} {call : HostCall} {point : HostPoint}
    (hpushed : .host call point ∈ (startHostCall world call).2.frames)
    (hlooks : point.isLooking = true) : call = .waitIdle := by
  cases call with
  | waitIdle => rfl
  | running => cases hpushed
  | cancelAll =>
    cases List.mem_singleton.mp hpushed
    cases hlooks
  | cancel | unpause | finished | status =>
    simp only [startHostCall] at hpushed
    split at hpushed <;> simp_all [isLooking]

/-- A call stays at such points, or comes there if it waits for idleness. -/
theorem HostPoint.looking_cases {world after : World} {call : HostCall} {point point' : HostPoint}
    {signal : Signal} {next : Next} (hstep : stepHost world call point signal = some (after, next))
    (hpushed : .host call point' ∈ next.frames) (hlooks : point'.isLooking = true) :
    call = .waitIdle ∨ point.isLooking = true := by
  cases point with
  | listening | asleep => exact .inr rfl
  | start =>
    cases signal with
    | go =>
      have hstarts : startHostCall world call = (after, next) := Option.some.inj hstep
      have hpushed : .host call point' ∈ (startHostCall world call).2.frames := by rwa [hstarts]
      exact .inl (looking_of_start hpushed hlooks)
    | replied | raised => cases hstep
  | waiting =>
    cases signal <;> cases hstep <;> cases hpushed
  | walk ids =>
    cases ids <;> cases signal <;> cases hstep <;> simp at hpushed <;> simp_all [isLooking]

namespace System

/-- No thread can take a step. -/
def IsStill (system : System) : Prop :=
  ∀ thread, system.step thread = none

/-- The calls on collaborators of `id` that are in progress are advances of its tree. -/
def OnlyAdvances (system : System) (id : ExecutorId) : Prop :=
  ∀ thread call point, .call id call point ∈ system.frames thread → ∃ index, call = .next index

section Rest

variable {fragments : List Fragment} {host : Host} {permitted : Command → Prop}
  {handle : ExecutorId → Handle} {veiled : Handle → Bool} {asleep : ThreadId → Prop}
  {names : List ThreadId} {system shadow : System} {id : ExecutorId} {thread thread' : ThreadId}
  {frame : Frame} {rest : List Frame}

/-! ## Nobody waits for a concealed fragment -/

theorem ReachableUnder.not_failing_of_still
    (hreach : (ofFragments fragments host).ReachableUnder permitted system)
    (hstill : system.IsStill) (hexit : system.world.exit = none) {cause : Fault}
    {point : FailPoint} : .fail id cause point ∉ system.frames thread := by
  intro hmem
  obtain ⟨top, rest, hframes⟩ := exists_top hmem
  rcases List.mem_cons.mp (hframes ▸ hmem) with rfl | hbelow
  · rcases hreach.stuck_cases hexit hframes (hstill thread) with hblocked | hrests
    · cases hblocked
    · cases hrests
  · obtain ⟨role, hawaits⟩ := (hframes ▸ hreach.linked thread).exists_callee hbelow
    cases hawaits

/-- At rest, whoever works for a fragment under a lock waits for a call on a collaborator of it
that is no advance of its tree. -/
theorem ReachableUnder.frees_of_still
    (hreach : (ofFragments fragments host).ReachableUnder permitted system)
    (hstill : system.IsStill) (hexit : system.world.exit = none)
    (honly : system.OnlyAdvances id) : system.Frees id fun _ => False := by
  have hcalls {thread : ThreadId} {callee : Frame} (hmem : callee ∈ system.frames thread)
      {call : Call} (hrole : callee.role = .call id call) : ∃ index, call = .next index := by
    obtain ⟨point, rfl⟩ := Frame.eq_call_of_role hrole
    exact honly thread call point hmem
  have hstuck {thread : ThreadId} {frame : Frame} {rest : List Frame}
      (hframes : system.frames thread = frame :: rest) :=
    hreach.stuck_cases hexit hframes (hstill thread)
  -- what a frame beneath has called is on the stack above it
  have habove {thread : ThreadId} {frame : Frame} (hmem : frame ∈ system.frames thread)
      (hbusy : ¬ frame.Blocked system.world (system.view thread))
      (hawake : ¬ frame.Rests system.world thread) :
      ∃ callee ∈ system.frames thread, frame.Awaits callee.role := by
    obtain ⟨top, rest, hframes⟩ := exists_top hmem
    rcases List.mem_cons.mp (hframes ▸ hmem) with rfl | hbelow
    · exact ((hstuck hframes).elim hbusy hawake).elim
    · rw [hframes]
      exact (hframes ▸ hreach.linked thread).exists_callee_mem hbelow
  refine ⟨fun {thread l point} hmem hpoint => ?_, fun {thread point} hmem hpoint hbusy => ?_,
    fun {thread point} hmem hbusy => ?_, fun {thread rest} hframes => ?_⟩
  · obtain ⟨callee, hcallee, hawaits⟩ :=
      habove hmem (Frame.not_blocked_of_run hpoint) (by rintro ⟨⟩)
    generalize hrole : callee.role = role at hawaits
    cases hawaits with
    | build | running | alarm =>
      obtain ⟨index, hnext⟩ := hcalls hcallee hrole
      cases hnext
    | failure =>
      obtain ⟨point, rfl⟩ := Frame.eq_fail_of_role hrole
      exact hreach.not_failing_of_still hstill hexit hcallee
    | pause | next | close | stateReport | failureReport => rcases hpoint with ⟨⟨⟩⟩ | ⟨⟨⟩⟩
  · obtain ⟨callee, hcallee, hawaits⟩ := habove hmem hbusy (by rintro ⟨⟩)
    generalize hrole : callee.role = role at hawaits
    cases hawaits with
    | cancelClose => exact hpoint rfl
    | cancelReport =>
      obtain ⟨index, hnext⟩ := hcalls hcallee hrole
      cases hnext
  · obtain ⟨callee, hcallee, hawaits⟩ := habove hmem hbusy (by rintro ⟨⟩)
    generalize hrole : callee.role = role at hawaits
    cases hawaits with
    | closeRoot | closeContext =>
      obtain ⟨index, hnext⟩ := hcalls hcallee hrole
      cases hnext
    | closeFailure =>
      obtain ⟨point, rfl⟩ := Frame.eq_fail_of_role hrole
      exact hreach.not_failing_of_still hstill hexit hcallee
  · rcases hstuck hframes with hblocked | hrests
    · cases hblocked
    · cases hrests

/-- At rest, nobody is inside a cancellation of such a fragment. -/
theorem ReachableUnder.not_cancelling_of_still
    (hreach : (ofFragments fragments host).ReachableUnder permitted system)
    (hstill : system.IsStill) (hexit : system.world.exit = none)
    (honly : system.OnlyAdvances id) {point : CancelPoint} :
    .cancel id point ∉ system.frames thread := by
  intro hmem
  obtain ⟨-, hnobody⟩ := (hreach.frees_of_still hstill hexit honly).exists_of_cancel hreach hmem
  exact hnobody

/-! ## Waiting for idleness -/

/-- Who serves a call on the host was called to. -/
theorem Plays.called {calls : List (ThreadId × Command)}
    (hplays : (ofFragments fragments host).Plays calls system) {call : HostCall}
    {point : HostPoint} (hmem : .host call point ∈ system.frames thread) :
    (thread, .host call) ∈ calls ∧ (point.isLooking = true → call = .waitIdle) := by
  induction hplays generalizing thread point with
  | begin => cases hmem
  | @call calls system command hmanaged hplays ih =>
    obtain ⟨hnew, -, hothers⟩ := stack_of_call system command
    by_cases hthread : thread = system.threads.length
    · rw [hthread, System.frames, hnew, List.mem_singleton] at hmem
      cases command <;> cases hmem
      exact ⟨by simp [hthread], by rintro ⟨⟩⟩
    · rw [System.frames, hothers thread hthread] at hmem
      exact ⟨List.mem_append_left _ (ih hmem).1, (ih hmem).2⟩
  | @step calls system after mover hplays hstep hserved ih =>
    obtain ⟨frame, rest, next, hadvance⟩ := advance_of_step hstep
    rcases hadvance.mem_frames_cases hmem with ⟨rfl, hpushed⟩ | ⟨-, hforked⟩ | hbeside
    · obtain ⟨before, rfl⟩ := Frame.of_pushed_host hadvance.step hpushed
      obtain ⟨hcalled, hwaits⟩ := ih (hadvance.frames ▸ List.mem_cons_self)
      exact ⟨hcalled, fun hlooks =>
        (HostPoint.looking_cases hadvance.step hpushed hlooks).elim id hwaits⟩
    · cases next with
      | fork reply started hosts =>
        obtain ⟨id, handle, hrole⟩ := Frame.step_links hadvance.step
        obtain rfl := List.mem_singleton.mp hforked
        cases hrole
      | goto | call | reply | raise => cases hforked
    · exact ih (hadvance.mem_of_beside hbeside)
  | @leave calls system after mover signals hplays hwaits hleave ih =>
    obtain ⟨root, hgives⟩ := givesUp_of_abandon hleave
    by_cases hthread : thread = mover
    · rw [hthread, System.frames, hgives.own] at hmem
      cases hmem
    · rw [System.frames, hgives.others thread hthread] at hmem
      exact ih hmem

/-! ## Who goes on in the shadow -/

theorem isSome_step (hexit : system.world.exit = none)
    (hframes : system.frames thread = frame :: rest) : (system.step thread).isSome =
      (frame.step system.world (system.view thread) thread (system.signal thread)).isSome := by
  cases hstep : frame.step system.world (system.view thread) thread (system.signal thread) with
  | none => rw [step_eq_none hframes hstep]; rfl
  | some result =>
    obtain ⟨after, hafter, -⟩ := exists_advance hexit hframes hstep
    rw [hafter]
    rfl

/-- A thread in sight can go on where its counterpart can. -/
theorem Shadows.proceeds (hshadows : Shadows (handleIn fragments) veiled asleep names system shadow)
    (hreach : (ofFragments fragments host).ReachableUnder permitted system)
    (hempty : host.running = []) (hexit : system.world.exit = none)
    (hname : names[thread']? = some thread) (hframes : system.frames thread = frame :: rest)
    (hsight : frame.isConcealed (handleIn fragments) veiled = false)
    (hawake : frame.isAsleep = false) :
    (shadow.step thread').isSome = (system.step thread).isSome := by
  have hexit' := hshadows.worlds.exit hexit
  cases hshadows.abreast hname with
  | level _ hframesAlike hsignal hprincipal =>
    rw [hframes] at hframesAlike
    obtain ⟨frame', rest', hframe, hrest, hframes'⟩ := List.forall₂_cons_left_iff.mp hframesAlike
    rw [isSome_step hexit hframes, isSome_step hexit' hframes']
    by_cases hlingers :
        frame.Lingers (handleIn fragments) veiled system.world (system.signal thread)
    · obtain ⟨⟨hfree, hgo⟩, hfree', hgo'⟩ := hlingers.isFree _ hframe hsignal hawake
      rw [hgo, hgo', Frame.isSome_step_of_isFree _ _ _ hfree,
        Frame.isSome_step_of_isFree _ _ _ hfree']
    · have hrel := Frame.step_echoes
        (hshadows.mirrored hreach hempty hexit hname hprincipal) hframe hsignal hlingers
      generalize frame.step _ _ _ _ = result at hrel
      generalize frame'.step _ _ _ _ = result' at hrel
      cases hrel <;> rfl
  | held inner walker walker' below below' hheldFrames hframes' hinner hheld _ hreplied hgo =>
    rw [hframes] at hheldFrames
    cases inner with
    | nil =>
      obtain ⟨rfl, -⟩ := List.cons.inj hheldFrames
      obtain ⟨reply, hreply⟩ := hreplied rfl
      rw [isSome_step hexit hframes, isSome_step hexit' hframes', hreply, hgo,
        hheld.isSome_step, Frame.isSome_step_of_isFree _ _ _ hheld.isFree]
    | cons top inner =>
      obtain ⟨rfl, -⟩ := List.cons.inj hheldFrames
      rw [hinner frame List.mem_cons_self] at hsight
      cases hsight
  | left signals hnone =>
    rw [hframes] at hnone
    cases hnone
  | slept _ id call below below' hslept =>
    obtain ⟨rfl, -⟩ := List.cons.inj (hframes.symm.trans hslept)
    cases hawake

/-- What sleeps on in sight and is not parked is a call that waits for idleness, and its
counterpart looks at the table. -/
theorem ReachableUnder.listening_of_asleep {calls : List (ThreadId × Command)}
    (hreach : (ofFragments fragments host).ReachableUnder permitted system)
    (hplays : (ofFragments fragments host).Plays calls shadow) (hexit : system.world.exit = none)
    (hstuck : system.step thread = none) (hframes : system.frames thread = frame :: rest)
    (hawake : ¬ system.Slumbers (handleIn fragments) veiled thread)
    (hsleeps : frame.isAsleep = true) {frame' : Frame} {rest' : List Frame}
    (hframe : frame.Alike (handleIn fragments) veiled frame')
    (hframes' : shadow.frames thread' = frame' :: rest') :
    ∃ signals, shadow.frames thread' = [.host .waitIdle (.listening signals)] := by
  obtain ⟨id, call, rfl⟩ | ⟨call, signals, rfl⟩ := Frame.eq_of_isAsleep hsleeps
  · have hsight := hframe.in_sight
    rcases hreach.stuck_cases hexit hframes hstuck with hblocked | hrests
    · cases hblocked
    · cases hrests with
      | parked htoken => exact absurd ⟨id, call, rest, hframes, hsight, htoken⟩ hawake
  · cases hframe with
    | plain hplain => cases hplain
    | asleep =>
      obtain ⟨-, hwaits⟩ := hplays.called (hframes' ▸ List.mem_cons_self)
      obtain rfl := hwaits rfl
      obtain rfl := (hframes' ▸ hplays.reachable.linked thread').eq_nil_of_host
      exact ⟨_, hframes'⟩

/-- In the shadow of a system at rest nobody can go on but calls that wait for idleness. -/
theorem Shadows.still_or_listening {calls : List (ThreadId × Command)}
    (hshadows : Shadows (handleIn fragments) veiled
      (system.Slumbers (handleIn fragments) veiled) names system shadow)
    (hreach : (ofFragments fragments host).ReachableUnder permitted system)
    (hplays : (ofFragments fragments host).Plays calls shadow)
    (hempty : host.running = []) (hexit : system.world.exit = none) (hstill : system.IsStill)
    (honly : ∀ id, veiled (handleIn fragments id) = true → system.OnlyAdvances id)
    (thread' : ThreadId) : shadow.step thread' = none ∨
      ∃ signals, shadow.frames thread' = [.host .waitIdle (.listening signals)] := by
  by_cases hended : shadow.frames thread' = []
  · exact .inl (step_of_ended hended)
  obtain ⟨thread, hname⟩ := hshadows.exists_name (lt_length_of_frames hended)
  cases hshadows.abreast hname with
  | level hawake halike =>
    cases hframes : system.frames thread with
    | nil =>
      rw [hframes] at halike
      exact absurd (List.forall₂_nil_left_iff.mp halike) hended
    | cons frame rest =>
      cases hsleeps : frame.isAsleep with
      | false =>
        left
        rw [hframes] at halike
        obtain ⟨frame', rest', hframe, -⟩ := List.forall₂_cons_left_iff.mp halike
        have hproceeds :=
          hshadows.proceeds hreach hempty hexit hname hframes hframe.in_sight hsleeps
        rwa [hstill thread, Option.isSome_none, Option.isSome_eq_false_iff,
          Option.isNone_iff_eq_none] at hproceeds
      | true =>
        rw [hframes] at halike
        obtain ⟨frame', rest', hframe, -, hframes'⟩ := List.forall₂_cons_left_iff.mp halike
        exact .inr (hreach.listening_of_asleep hplays hexit (hstill thread) hframes hawake hsleeps
          hframe hframes')
  | held inner walker walker' below below' hframes hframes' hinner hheld _ hreplied =>
    cases inner with
    | nil =>
      obtain ⟨reply, hreply⟩ := hreplied rfl
      have hmoves := isSome_step hexit hframes
      rw [hreply, hheld.isSome_step, hstill thread] at hmoves
      cases hmoves
    | cons top inner =>
      have hlinked := hreach.linked thread
      rw [hframes] at hlinked
      obtain ⟨callee, hcallee, hawaits⟩ := hlinked.exists_callee_above
      obtain ⟨id, point, rfl⟩ := hheld.cancels hawaits
      have hmem : .cancel id point ∈ system.frames thread :=
        hframes ▸ List.mem_append_left _ hcallee
      exact absurd hmem
        (hreach.not_cancelling_of_still hstill hexit (honly id (hinner _ hcallee)))
  | left signals _ hframes' => exact .inr ⟨signals, hframes'⟩
  | slept _ id call below below' _ hframes' _ _ _ hgo htoken =>
    refine .inl (step_eq_none hframes' ?_)
    simp [hgo, Frame.step, stepCall, htoken]

/-! ## Settling -/

/-- A thread that can take no step cannot after others have moved that hold no locks. -/
theorem step_eq_none_of_same {after : System} (hworld : after.world = system.world)
    (hlocks : ∀ lock owner, (∃ frame ∈ after.frames owner, frame.holds lock = true) ↔
      ∃ frame ∈ system.frames owner, frame.holds lock = true)
    (hframes : after.frames thread = system.frames thread)
    (hsignal : after.signal thread = system.signal thread) (hexit : system.world.exit = none)
    (hstuck : system.step thread = none) : after.step thread = none := by
  have hview : after.view thread = system.view thread := by
    rw [view, view]
    congr 1
    · funext id
      rw [Bool.eq_iff_iff, heldElsewhere_iff, heldElsewhere_iff]
      exact exists_congr fun owner => and_congr_right fun _ => hlocks _ owner
    · funext id
      rw [Bool.eq_iff_iff, held_iff, held_iff]
      exact exists_congr fun owner => hlocks _ owner
  cases hstack : system.frames thread with
  | nil => exact step_of_ended (hframes.trans hstack)
  | cons frame rest =>
    have hsame := isSome_step (hworld ▸ hexit) (hframes.trans hstack)
    rw [hworld, hview, hsignal, ← isSome_step hexit hstack, hstuck] at hsame
    simpa using hsame

/-- A call that finds a fragment in the table goes to sleep. -/
theorem Plays.exists_asleep {start : System} {calls : List (ThreadId × Command)}
    (hplays : start.Plays calls system) (hexit : system.world.exit = none)
    (hserved : system.world.host.slots.waiting = [])
    (hlisted : system.world.host.running.isEmpty = false) {signals : Nat}
    (hframes : system.frames thread = [.host .waitIdle (.listening signals)])
    (hgo : system.signal thread = .go) :
    ∃ after, start.Plays calls after ∧ system.Idles after thread ∧ after.world = system.world ∧
      after.frames thread = [.host .waitIdle (.asleep signals)] ∧ after.signal thread = .go := by
  have hstep : (Frame.host .waitIdle (.listening signals)).step system.world (system.view thread)
      thread (system.signal thread) =
        some (system.world, .goto (.host .waitIdle (.asleep signals))) := by
    simp [hgo, Frame.step, stepHost, hlisted]
  exact hplays.exists_next hexit hserved hframes hstep rfl rfl fun _ _ => rfl

/-- A call that waits for idleness returns, or sleeps on. -/
theorem Plays.exists_settled_call {start : System} {calls : List (ThreadId × Command)}
    (hplays : start.Plays calls system) (hexit : system.world.exit = none)
    (hserved : system.world.host.slots.waiting = []) {signals : Nat}
    (hframes : system.frames thread = [.host .waitIdle (.listening signals)])
    (hgo : system.signal thread = .go) :
    ∃ after, start.Plays calls after ∧ system.Idles after thread ∧ after.world = system.world ∧
      after.step thread = none ∧
      ∀ frame ∈ after.frames thread, ∀ lock, frame.holds lock = false := by
  cases hlisted : system.world.host.running.isEmpty with
  | true =>
    have hstep : (Frame.host .waitIdle (.listening signals)).step system.world (system.view thread)
        thread (system.signal thread) = some (system.world, .done) := by
      simp [hgo, Frame.step, stepHost, hlisted]
    obtain ⟨after, hplays, hidles, hworld, hended, -⟩ :=
      hplays.exists_next hexit hserved hframes hstep rfl rfl fun _ _ => rfl
    exact ⟨after, hplays, hidles, hworld, step_of_ended hended, by simp [hended, Next.done]⟩
  | false =>
    have hsettled {after : System} (hworld : after.world = system.world)
        (hsleeps : after.frames thread =
          [.host .waitIdle (.asleep system.world.host.idleSignals)])
        (hgo : after.signal thread = .go) : after.step thread = none ∧
          ∀ frame ∈ after.frames thread, ∀ lock, frame.holds lock = false := by
      refine ⟨step_eq_none hsleeps (by simp [hgo, Frame.step, stepHost, hworld]), ?_⟩
      simp [hsleeps, Frame.holds]
    obtain ⟨asleep, hplays, hidles, hworld, hsleeps, hgo⟩ :=
      hplays.exists_asleep hexit hserved hlisted hframes hgo
    by_cases hlast : system.world.host.idleSignals = signals
    · exact ⟨asleep, hplays, hidles, hworld, hsettled hworld (hlast ▸ hsleeps) hgo⟩
    · -- an old signal wakes it up once more
      have hstep : (Frame.host .waitIdle (.asleep signals)).step asleep.world (asleep.view thread)
          thread (asleep.signal thread) = some (asleep.world,
            .goto (.host .waitIdle (.listening asleep.world.host.idleSignals))) := by
        simp [hgo, Frame.step, stepHost, hworld, hlast]
      obtain ⟨awake, hplays, hidles', hworld', hlistens, hgo⟩ := hplays.exists_next
        (hworld ▸ hexit) (hworld ▸ hserved) hsleeps hstep rfl rfl fun _ _ => rfl
      rw [hworld] at hworld' hlistens
      obtain ⟨after, hplays, hidles'', hworld'', hsleeps, hgo⟩ := hplays.exists_asleep
        (hworld' ▸ hexit) (hworld' ▸ hserved) (hworld' ▸ hlisted) hlistens hgo
      exact ⟨after, hplays, (hidles.trans hidles').trans hidles'', hworld''.trans hworld',
        hsettled (hworld''.trans hworld') hsleeps hgo⟩

/-- Where all that can go on are calls that wait for idleness, they settle, and the system is at
rest. -/
theorem Plays.exists_settled {calls : List (ThreadId × Command)}
    (hplays : (ofFragments fragments host).Plays calls system) (hexit : system.world.exit = none)
    (hserved : system.world.host.slots.waiting = []) (waiters : List ThreadId)
    (hstuck : ∀ thread, system.step thread = none ∨ thread ∈ waiters ∧
      ∃ signals, system.frames thread = [.host .waitIdle (.listening signals)]) :
    ∃ after, (ofFragments fragments host).Plays calls after ∧ after.IsStill ∧
      after.threads.length = system.threads.length ∧ after.world = system.world ∧
      ∀ thread, (∀ signals, system.frames thread ≠ [.host .waitIdle (.listening signals)]) →
        after.frames thread = system.frames thread ∧
          after.signal thread = system.signal thread := by
  induction waiters generalizing system with
  | nil =>
    exact ⟨system, hplays, fun thread => (hstuck thread).resolve_right (by simp), rfl, rfl,
      fun _ _ => ⟨rfl, rfl⟩⟩
  | cons waiter waiters ih =>
    by_cases hwaits : ∃ signals, system.frames waiter = [.host .waitIdle (.listening signals)]
    · obtain ⟨signals, hframes⟩ := hwaits
      have hgo := hplays.reachable.signal_go hframes (by rintro role ⟨⟩)
      obtain ⟨next, hplays', hidles, hworld, hsettled, hfree⟩ :=
        hplays.exists_settled_call hexit hserved hframes hgo
      have hlocks (lock : Lock) (owner : ThreadId) :
          (∃ frame ∈ next.frames owner, frame.holds lock = true) ↔
            ∃ frame ∈ system.frames owner, frame.holds lock = true := by
        by_cases howner : owner = waiter
        · subst howner
          rw [hframes]
          refine iff_of_false ?_ (by simp [Frame.holds])
          rintro ⟨frame, hmem, hholds⟩
          rw [hfree frame hmem lock] at hholds
          cases hholds
        · rw [(hidles.others owner howner).1]
      obtain ⟨after, hafter, hstill, hlength, hsame, hkept⟩ := ih hplays' (hworld ▸ hexit)
        (hworld ▸ hserved) fun thread => by
          by_cases hthread : thread = waiter
          · exact .inl (hthread ▸ hsettled)
          · obtain ⟨hframes', hsignal'⟩ := hidles.others thread hthread
            refine (hstuck thread).imp
              (step_eq_none_of_same hworld hlocks hframes' hsignal' hexit) ?_
            rw [hframes']
            rintro ⟨hmem, hlistens⟩
            exact ⟨(List.mem_cons.mp hmem).resolve_left hthread, hlistens⟩
      refine ⟨after, hafter, hstill, hlength.trans hidles.length, hsame.trans hworld,
        fun thread hbusy => ?_⟩
      have hthread : thread ≠ waiter := by
        rintro rfl
        exact hbusy signals hframes
      obtain ⟨hframes', hsignal'⟩ := hidles.others thread hthread
      rw [← hframes', ← hsignal']
      exact hkept thread (by rwa [hframes'])
    · refine ih hplays hexit hserved fun thread => (hstuck thread).imp_right ?_
      rintro ⟨hmem, hlistens⟩
      refine ⟨(List.mem_cons.mp hmem).resolve_left ?_, hlistens⟩
      rintro rfl
      exact hwaits hlistens

end Rest

end System

end FragmentLifecycle
