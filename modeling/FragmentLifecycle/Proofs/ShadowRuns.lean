import FragmentLifecycle.Execution.Schedule
import FragmentLifecycle.Proofs.IdleWaits
import FragmentLifecycle.Proofs.ShadowSteps

/-!
# Scripts and their shadows

A script makes calls on the manager and on the registry, in any interleaving with the threads
that serve them (`System.Plays`).  The script without the calls on concealed fragments casts
the shadow of the script (`System.Plays.exists_shadow`), in which any threads may be parked
that are parked in the script.
-/

namespace FragmentLifecycle

/-- Asks the manager or the registry, not an executor. -/
def Command.isManaged : Command → Bool
  | .act _ _ => false
  | .depart _ | .start _ _ | .host _ => true

theorem Command.isPlain_frame (command : Command) : command.frame.isPlain = true := by
  cases command <;> rfl

theorem Command.ne_act_of_isManaged {command : Command} (hmanaged : command.isManaged = true)
    (id : ExecutorId) (action : Action) : command ≠ .act id action := by
  rintro rfl
  cases hmanaged

namespace System

/-! ## Moves and their shadows -/

/-- Who gives up waiting for idleness leaves the world as it is. -/
theorem world_of_leave {system after : System} {thread : ThreadId} {signals : Nat}
    (hwaits : system.frames thread = [.host .waitIdle (.asleep signals)])
    (hleave : system.abandon thread = some after) :
    after.world = system.world ∧ after.threads.length = system.threads.length := by
  obtain ⟨stack, hstack, hmove⟩ := Option.bind_eq_some_iff.mp hleave
  have hframes : stack.frames = [.host .waitIdle (.asleep signals)] := by
    simpa [System.frames, System.stack, hstack] using hwaits
  simp only [hframes, Option.some.injEq] at hmove
  subst hmove
  exact ⟨rfl, List.length_set⟩

/-- A call from outside is not parked. -/
theorem not_slumbers_of_call {handle : ExecutorId → Handle} {veiled : Handle → Bool}
    (system : System) (command : Command) :
    ¬ (system.call command).Slumbers handle veiled system.threads.length := by
  rintro ⟨id, call, rest, hframes, -⟩
  rw [System.frames, (stack_of_call system command).1] at hframes
  obtain ⟨hframe, -⟩ := List.cons.inj hframes
  cases command <;> cases hframe

/-- Who is parked without a token was so before another thread came or went. -/
theorem Turnover.slumbers_before {handle : ExecutorId → Handle} {veiled : Handle → Bool}
    {system after : System} {thread owner : ThreadId} {root : Frame}
    (hturn : system.Turnover after thread root) (hslumbers : after.Slumbers handle veiled owner) :
    system.Slumbers handle veiled owner := by
  obtain ⟨id, call, rest, hframes, hsight, htoken⟩ := hslumbers
  have hcore : (Frame.call id call .parked).isCore id = true := by simp [Frame.isCore]
  have hsame := hturn.frames_of_core (hframes ▸ List.mem_cons_self) hcore
  exact ⟨id, call, rest, hsame.symm.trans hframes, hsight, hturn.tokens ▸ htoken⟩

/-- A call from outside changes nothing of what has ended the process. -/
theorem IsBroughtDown.of_call {handle : ExecutorId → Handle} {veiled : Handle → Bool}
    {system : System} (hdown : system.IsBroughtDown handle veiled) (command : Command) :
    (system.call command).IsBroughtDown handle veiled := by
  obtain ⟨thread, id, exhaustion, hmem, hveiled⟩ := hdown
  refine ⟨thread, id, exhaustion, ?_, hveiled⟩
  rw [(stays_of_call system command (lt_length_of_frames (List.ne_nil_of_mem hmem))).frames]
  exact hmem

/-- Who is parked without a token after a step of another thread was so before. -/
theorem Advance.slumbers_before {handle : ExecutorId → Handle} {veiled : Handle → Bool}
    {system after : System} {thread owner : ThreadId} {frame : Frame} {rest : List Frame}
    {next : Next} (hadvance : system.Advance after thread frame rest next)
    (hother : owner ≠ thread) (hslumbers : after.Slumbers handle veiled owner) :
    system.Slumbers handle veiled owner := by
  obtain ⟨id, call, below, hframes, hsight, htoken⟩ := hslumbers
  have hcore : (Frame.call id call .parked).isCore id = true := by simp [Frame.isCore]
  have hsame := hadvance.frames_of_core hother (hframes ▸ List.mem_cons_self) hcore
  refine ⟨id, call, below, hsame.symm.trans hframes, hsight, ?_⟩
  by_contra hset
  rw [Bool.not_eq_false] at hset
  have hkept : frame.tokensAfter system.world thread owner = true :=
    (Frame.tokensAfter_of_token hset).resolve_right fun hsame => hother hsame.1
  rw [(Frame.step_shared hadvance.step).2, hkept] at htoken
  cases htoken

namespace Shadows

variable {fragments : List Fragment} {host : Host} {permitted permitted' : Command → Prop}
  {veiled : Handle → Bool} {asleep : ThreadId → Prop} {names : List ThreadId}
  {system after shadow : System} {thread : ThreadId} {command : Command}

/-- Whatever a thread does next, the shadow follows or stays. -/
theorem step (hshadows : Shadows (handleIn fragments) veiled asleep names system shadow)
    (hreach : (ofFragments fragments host).ReachableUnder permitted system)
    (hreach' : (ofFragments fragments host).ReachableUnder permitted' shadow)
    (hempty : host.running = []) (hqueue : host.slots.queue = [])
    (hmanaged : ∀ command, permitted command → ∀ id action, command ≠ .act id action)
    (hsilent : ∀ fragment ∈ fragments, veiled fragment.identity.handle = true →
      fragment.script.AnnouncesNothing)
    (hreturns : ∀ id, veiled (handleIn fragments id) = true →
      (system.executor id).ReturnsFromReports)
    (hstep : system.step thread = some after)
    (hasleep : ∀ {owner}, asleep owner →
      owner ≠ thread ∧ after.Slumbers (handleIn fragments) veiled owner)
    (hserved : after.world.host.slots.waiting = []) :
    Shadows (handleIn fragments) veiled asleep names after shadow ∨
      ∃ names' thread' after', names <+: names' ∧ shadow.step thread' = some after' ∧
        Shadows (handleIn fragments) veiled asleep names' after after' := by
  obtain ⟨frame, rest, next, hadvance⟩ := advance_of_step hstep
  have htop : frame ∈ system.frames thread := hadvance.frames ▸ List.mem_cons_self
  have hawake : ¬ asleep thread := fun hslept => (hasleep hslept).1 rfl
  by_cases hkept : thread ∈ names
  · obtain ⟨thread', hname⟩ := List.getElem?_of_mem hkept
    cases hshadows.abreast hname with
    | level _ hframes hsignal hprincipal =>
      rw [hadvance.frames] at hframes
      obtain ⟨frame', rest', hframe, hrest, hframes'⟩ := List.forall₂_cons_left_iff.mp hframes
      by_cases hlingers :
          frame.Lingers (handleIn fragments) veiled system.world (system.signal thread)
      · exact .inl (hshadows.step_lingering hreach hstep hadvance hserved hname hframes' hframe
          hrest hsignal hprincipal hawake hlingers)
      · obtain ⟨names', after', hextends, hstep', hafter⟩ := hshadows.step_echoed hreach hreach'
          hempty hqueue hstep hadvance hserved hname hasleep hframes' hframe hrest hsignal
          hprincipal hlingers
        exact .inr ⟨names', thread', after', hextends, hstep', hafter⟩
    | held inner walker walker' below below' hframes hframes' hinner hheld hrest hreplied hgo
        hprincipal =>
      cases inner with
      | nil =>
        obtain ⟨reply, hreply⟩ := hreplied rfl
        exact .inl (hshadows.step_released hstep hserved hname hframes hframes' hheld hrest hreply
          hgo hprincipal hawake)
      | cons top inner =>
        have hmem : top ∈ system.frames thread := by
          rw [hframes]
          exact List.mem_cons_self
        have hsilent' : top.isAnnouncement = false :=
          hreach.silent_of_concealed hmanaged hsilent hmem (hinner top List.mem_cons_self)
        exact .inl (hshadows.step_held hreach hempty hstep hserved hname hframes hframes' hinner
          hheld hrest hgo hprincipal hsilent' hreturns)
    | left signals hframes =>
      rw [hadvance.frames] at hframes
      cases hframes
    | slept hslept => exact absurd hslept hawake
  · have hsilent' : frame.isAnnouncement = false :=
      hreach.silent_of_concealed hmanaged hsilent htop (hshadows.concealed hkept frame htop)
    exact .inl (hshadows.step_concealed hreach hempty hstep hadvance hserved hkept hsilent')

/-- A call on a concealed fragment is not made in the shadow. -/
theorem call_concealed (hshadows : Shadows (handleIn fragments) veiled asleep names system shadow)
    (hconcealed : command.frame.isConcealed (handleIn fragments) veiled = true) :
    Shadows (handleIn fragments) veiled asleep names (system.call command) shadow where
  sublist := by
    rw [call, List.length_append]
    exact hshadows.sublist.trans (List.range_sublist.mpr (Nat.le_add_right _ _))
  length := hshadows.length
  abreast hname := (hshadows.abreast hname).of_stays
    (stays_of_call system command (hshadows.lt_length hname)) (.refl _ _) fun _ => id
  concealed {owner} howner frame hmem := by
    obtain ⟨hnew, -, hothers⟩ := stack_of_call system command
    by_cases hlast : owner = system.threads.length
    · rw [System.frames, hlast, hnew] at hmem
      obtain rfl := List.mem_singleton.mp hmem
      exact hconcealed
    · rw [System.frames, hothers owner hlast] at hmem
      exact hshadows.concealed howner frame hmem
  granted := hshadows.granted
  workers := hshadows.workers
  worlds := hshadows.worlds
  exited hexit := (hshadows.exited hexit).imp_right (·.of_call command)

/-- Any other call is made in the shadow, too. -/
theorem call_kept (hshadows : Shadows (handleIn fragments) veiled asleep names system shadow)
    (hreach : (ofFragments fragments host).ReachableUnder permitted system)
    (hreach' : (ofFragments fragments host).ReachableUnder permitted' shadow)
    (hqueue : host.slots.queue = [])
    (hasleep : ∀ {owner}, asleep owner →
      (system.call command).Slumbers (handleIn fragments) veiled owner)
    (hsight : command.frame.isConcealed (handleIn fragments) veiled = false) :
    Shadows (handleIn fragments) veiled asleep (names ++ [system.threads.length])
      (system.call command) (shadow.call command) := by
  obtain ⟨hnew, -, hothers⟩ := stack_of_call system command
  obtain ⟨hnew', -⟩ := stack_of_call shadow command
  have hbegun : Abreast (handleIn fragments) veiled asleep (system.call command)
      system.threads.length (shadow.call command) shadow.threads.length := by
    refine .level (fun hslept => not_slumbers_of_call system command (hasleep hslept)) ?_ ?_ ?_
    · rw [System.frames, System.frames, hnew, hnew']
      exact .cons (.plain command.isPlain_frame hsight) .nil
    · rw [System.signal, System.signal, hnew, hnew']
      exact .go
    · exact (hreach'.principal_of_unborn (Nat.le_refl _)).trans
        (hreach.principal_of_unborn (Nat.le_refl _)).symm
  refine hshadows.extend (by simp [call]) (by simp [call])
    (fun hname => (hshadows.abreast hname).of_stays
      (stays_of_call _ _ (hshadows.lt_length hname))
      (stays_of_call _ _ (hshadows.lt_length' hname)) fun _ => id) hbegun
    (fun {owner} howner hold frame hmem => ?_) hshadows.granted
    ((hreach.queued hqueue).not_granted (Nat.le_refl _))
    ((hreach'.queued hqueue).not_granted (Nat.le_refl _)) hshadows.workers hshadows.worlds
    fun hexit => (hshadows.exited hexit).imp_right (·.of_call command)
  rw [System.frames, hothers owner hold] at hmem
  exact hshadows.concealed howner frame hmem

/-- A wait for idleness is given up, and the shadow goes on waiting. -/
theorem leave (hshadows : Shadows (handleIn fragments) veiled asleep names system shadow)
    (hreach : (ofFragments fragments host).ReachableUnder permitted system) {signals : Nat}
    (hwaits : system.frames thread = [.host .waitIdle (.asleep signals)])
    (hleave : system.abandon thread = some after) :
    Shadows (handleIn fragments) veiled asleep names after shadow := by
  obtain ⟨hworld, hlength⟩ := world_of_leave hwaits hleave
  obtain ⟨root, hgives⟩ := givesUp_of_abandon hleave
  have hstays {owner} (howner : owner ≠ thread) : system.Stays after owner := by
    have hsame := hgives.others owner howner
    exact ⟨congrArg Thread.frames hsame, congrArg Thread.signal hsame, by rw [hworld]⟩
  have hgo : system.signal thread = .go := hreach.signal_go hwaits (by rintro role ⟨⟩)
  refine ⟨hlength ▸ hshadows.sublist, hshadows.length, fun {owner owner'} howner => ?_,
    fun {owner} howner frame hmem => ?_, hworld ▸ hshadows.granted, ?_, hworld ▸ hshadows.worlds,
    fun hexit => ?_⟩
  · by_cases hother : owner = thread
    · subst hother
      have hframes : after.frames owner = [] := congrArg Thread.frames hgives.own
      have hsignal : after.signal owner = .go := (congrArg Thread.signal hgives.own).trans hgo
      cases hshadows.abreast howner with
      | level _ halike =>
        rw [hwaits] at halike
        obtain ⟨frame', rest', hframe, hrest, hframes'⟩ := List.forall₂_cons_left_iff.mp halike
        cases hrest
        cases hframe with
        | plain hplain => cases hplain
        | asleep => exact .left _ hframes hframes' hsignal
      | held inner walker walker' rest rest' hheldFrames _ _ hheld =>
        rw [hwaits] at hheldFrames
        cases inner with
        | nil =>
          obtain ⟨rfl, -⟩ := List.cons.inj hheldFrames
          cases hheld
        | cons top inner => cases inner <;> cases hheldFrames
      | left _ hnone =>
        rw [hwaits] at hnone
        cases hnone
      | slept _ _ _ _ _ hslept =>
        rw [hwaits] at hslept
        cases hslept
    · exact (hshadows.abreast howner).of_stays (hstays hother) (.refl _ _) fun _ => id
  · by_cases hother : owner = thread
    · rw [hother, System.frames, hgives.own] at hmem
      cases hmem
    · rw [(hstays hother).frames] at hmem
      exact hshadows.concealed howner frame hmem
  · simpa only [System.executor, hworld] using hshadows.workers
  · rw [hworld] at hexit ⊢
    refine (hshadows.exited hexit).imp_right ?_
    rintro ⟨owner, id, exhaustion, hmem, hveiled⟩
    refine ⟨owner, id, exhaustion, ?_, hveiled⟩
    rw [(hstays ?_).frames]
    · exact hmem
    · rintro rfl
      simp [hwaits] at hmem

/-- At the start there is nothing to conceal. -/
theorem of_start (hempty : host.running = []) (hqueue : host.slots.queue = []) :
    Shadows (handleIn fragments) veiled asleep [] (ofFragments fragments host)
      (ofFragments fragments host) where
  sublist := List.nil_sublist _
  length := rfl
  abreast hname := by simp at hname
  concealed _ frame hmem := by cases hmem
  granted hname := by simp at hname
  workers _ _ _ hworker := by cases hworker
  worlds :=
    { executors := fun _ _ => rfl
      running := by simp [ofFragments, Host.inSight, hempty]
      watches := rfl
      served := ⟨(List.append_eq_nil_iff.mp hqueue).2, (List.append_eq_nil_iff.mp hqueue).2⟩
      exit := id }
  exited _ := .inl rfl

end Shadows

/-! ## Scripts -/

/-- What calls on the manager and the registry can lead to, in any interleaving, where no start
has to wait for a slot: the calls, in the order in which they are made and each with its thread,
and the system. -/
inductive Plays (start : System) : List (ThreadId × Command) → System → Prop
  | begin : Plays start [] start
  | call {calls : List (ThreadId × Command)} {system : System} (command : Command)
      (hmanaged : command.isManaged = true) (hplays : Plays start calls system) :
      Plays start (calls ++ [(system.threads.length, command)]) (system.call command)
  | step {calls : List (ThreadId × Command)} {system after : System} (thread : ThreadId)
      (hplays : Plays start calls system) (hstep : system.step thread = some after)
      (hserved : after.world.host.slots.waiting = []) : Plays start calls after
  | leave {calls : List (ThreadId × Command)} {system after : System} {thread : ThreadId}
      {signals : Nat} (hplays : Plays start calls system)
      (hwaits : system.frames thread = [.host .waitIdle (.asleep signals)])
      (hleave : system.abandon thread = some after) : Plays start calls after

theorem Plays.reachable {start system : System} {calls : List (ThreadId × Command)}
    (hplays : start.Plays calls system) :
    start.ReachableUnder (fun command => command.isManaged = true) system := by
  induction hplays with
  | begin => exact .refl
  | call command hmanaged _ ih => exact .move (.call command) hmanaged ih rfl
  | step thread _ hstep _ ih => exact .move (.step thread) trivial ih hstep
  | @leave _ _ _ thread _ _ _ hleave ih => exact .move (.abandon thread) trivial ih hleave

/-- The same call on another thread, which has the name of the first one. -/
def Renamed (names : List ThreadId) (call call' : ThreadId × Command) : Prop :=
  call'.2 = call.2 ∧ names[call'.1]? = some call.1

theorem Renamed.of_extends {names names' : List ThreadId} {call call' : ThreadId × Command}
    (hrenamed : Renamed names call call') (hextends : names <+: names') :
    Renamed names' call call' := by
  obtain ⟨more, rfl⟩ := hextends
  exact ⟨hrenamed.1, (List.getElem?_append_left
    (List.getElem?_eq_some_iff.mp hrenamed.2).1).trans hrenamed.2⟩


/-! ### Going to sleep -/

/-- Only one thread has moved, and it has changed nothing but its token. -/
structure Idles (system after : System) (thread : ThreadId) : Prop where
  length : after.threads.length = system.threads.length
  others : ∀ other, other ≠ thread →
    after.frames other = system.frames other ∧ after.signal other = system.signal other
  world : after.world = { system.world with tokens := after.world.tokens }
  tokens : ∀ other, other ≠ thread → after.world.tokens other = system.world.tokens other

section Idles

variable {start system after later : System} {calls : List (ThreadId × Command)}
  {thread thread' : ThreadId} {frame : Frame} {rest : List Frame}

theorem Idles.refl (system : System) (thread : ThreadId) : system.Idles system thread :=
  ⟨rfl, fun _ _ => ⟨rfl, rfl⟩, rfl, fun _ _ => rfl⟩

theorem Idles.trans (hbefore : system.Idles after thread) (hafter : after.Idles later thread) :
    system.Idles later thread where
  length := hafter.length.trans hbefore.length
  others other hother :=
    ⟨(hafter.others other hother).1.trans (hbefore.others other hother).1,
      (hafter.others other hother).2.trans (hbefore.others other hother).2⟩
  world := by rw [hafter.world, hbefore.world]
  tokens other hother := (hafter.tokens other hother).trans (hbefore.tokens other hother)

theorem Shadows.of_iff {handle : ExecutorId → Handle} {veiled : Handle → Bool}
    {asleep asleep' : ThreadId → Prop} {names : List ThreadId} {shadow : System}
    (hshadows : Shadows handle veiled asleep names system shadow)
    (hsame : ∀ owner, asleep owner ↔ asleep' owner) :
    Shadows handle veiled asleep' names system shadow := by
  obtain rfl : asleep = asleep' := funext fun owner => propext (hsame owner)
  exact hshadows

/-- The shadow goes on alone where nobody else can tell. -/
theorem Shadows.of_idles {handle : ExecutorId → Handle} {veiled : Handle → Bool}
    {asleep asleep' : ThreadId → Prop} {names : List ThreadId} {shadow after' : System}
    (hshadows : Shadows handle veiled asleep names system shadow)
    (hidles : shadow.Idles after' thread') (hname : names[thread']? = some thread)
    (hsame : ∀ owner, owner ≠ thread → (asleep owner ↔ asleep' owner))
    (hown : Abreast handle veiled asleep' system thread after' thread') :
    Shadows handle veiled asleep' names system after' where
  sublist := hshadows.sublist
  length := hidles.length.trans hshadows.length
  abreast {owner owner'} howner := by
    by_cases hother : owner' = thread'
    · subst hother
      obtain rfl : owner = thread := Option.some.inj (howner.symm.trans hname)
      exact hown
    · have happart : owner ≠ thread := by
        rintro rfl
        exact hother (hshadows.injective howner hname)
      have hstays : shadow.Stays after' owner' :=
        ⟨(hidles.others owner' hother).1, (hidles.others owner' hother).2, by rw [hidles.world]⟩
      exact ((hshadows.abreast howner).of_iff (hsame owner happart)).of_stays (.refl _ _) hstays
        fun _ => (hidles.tokens owner' hother).trans
  concealed := hshadows.concealed
  granted := by
    rw [hidles.world]
    exact hshadows.granted
  workers := by
    unfold System.executor
    rw [hidles.world]
    exact hshadows.workers
  worlds := by
    obtain ⟨hexecutors, hrunning, hwatches, hserved, hexit⟩ := hshadows.worlds
    rw [hidles.world]
    exact ⟨hexecutors, hrunning, hwatches, hserved, hexit⟩
  exited := by
    rw [hidles.world]
    exact hshadows.exited

variable (hplays : start.Plays calls system) (hexit : system.world.exit = none)
  (hserved : system.world.host.slots.waiting = [])

include hplays hexit hserved

/-- A step that nobody else can tell. -/
theorem Plays.exists_next {world : World} {next : Next}
    (hframes : system.frames thread = frame :: rest)
    (hstep : frame.step system.world (system.view thread) thread (system.signal thread) =
      some (world, next))
    (hforked : next.forked = []) (hworld : world = { system.world with tokens := world.tokens })
    (htokens : ∀ other, other ≠ thread → world.tokens other = system.world.tokens other) :
    ∃ after, start.Plays calls after ∧ system.Idles after thread ∧ after.world = world ∧
      after.frames thread = next.frames ++ rest ∧ after.signal thread = next.signal := by
  obtain ⟨after, hafter, rfl, hadvance⟩ := exists_advance hexit hframes hstep
  have hlength := hadvance.length_threads hafter
  rw [hforked, List.length_nil, Nat.add_zero] at hlength
  exact ⟨after, hplays.step thread hafter (by rw [hworld, hserved]),
    ⟨hlength, fun _ => hadvance.same_of_unforked hafter hforked, hworld, htokens⟩, rfl,
    hadvance.own, hadvance.ownSignal⟩

/-- Who looks at a fragment that goes on parks. -/
theorem Plays.exists_looked {id : ExecutorId} {call : Call}
    (hframes : system.frames thread = .call id call .parking :: rest)
    (hgo : system.signal thread = .go) (hcontinues : (system.executor id).state.continues = true) :
    ∃ after, start.Plays calls after ∧ system.Idles after thread ∧ after.world = system.world ∧
      after.frames thread = .call id call .parked :: rest ∧ after.signal thread = .go := by
  rw [System.executor] at hcontinues
  have hstep : (Frame.call id call .parking).step system.world (system.view thread) thread
      (system.signal thread) = some (system.world, .goto (.call id call .parked)) := by
    simp [hgo, Frame.step, stepCall, hcontinues]
  exact hplays.exists_next hexit hserved hframes hstep rfl rfl fun _ _ => rfl

/-- Such a thread comes to be parked without a token. -/
theorem Plays.exists_parked {id : ExecutorId} {call : Call}
    (hframes : system.frames thread = .call id call .parking :: rest)
    (hgo : system.signal thread = .go) (hcontinues : (system.executor id).state.continues = true) :
    ∃ after, start.Plays calls after ∧ system.Idles after thread ∧
      after.frames thread = .call id call .parked :: rest ∧ after.signal thread = .go ∧
      after.world.tokens thread = false := by
  obtain ⟨parked, hplays, hidles, hworld, hframes, hgo⟩ :=
    hplays.exists_looked hexit hserved hframes hgo hcontinues
  cases htoken : parked.world.tokens thread with
  | false => exact ⟨parked, hplays, hidles, hframes, hgo, htoken⟩
  | true =>
    -- the token is used up, and the second look finds none
    have hstep : (Frame.call id call .parked).step parked.world (parked.view thread) thread
        (parked.signal thread) =
          some (parked.world.setToken thread false, .goto (.call id call .parking)) := by
      simp [hgo, Frame.step, stepCall, htoken]
    obtain ⟨woken, hplays, hidles', hworld', hframes, hgo⟩ := hplays.exists_next (hworld ▸ hexit)
      (hworld ▸ hserved) hframes hstep rfl rfl fun _ => overwrite_of_ne _ _
    obtain ⟨after, hplays, hidles'', hworld'', hframes, hgo⟩ := hplays.exists_looked
      (by rw [hworld', hworld]; exact hexit) (by rw [hworld', hworld]; exact hserved) hframes hgo
      (by rw [System.executor, hworld', hworld]; exact hcontinues)
    refine ⟨after, hplays, (hidles.trans hidles').trans hidles'', hframes, hgo, ?_⟩
    simp [hworld'', hworld', World.setToken, overwrite]

end Idles

/-! ### The shadow of a script -/

section Scripts

variable {fragments : List Fragment} {host : Host} {permitted : Command → Prop}
  {veiled : Handle → Bool} {asleep : ThreadId → Prop} {names : List ThreadId}
  {start system after shadow : System} {thread : ThreadId} {frame : Frame} {rest : List Frame}
  {next : Next} {calls calls' : List (ThreadId × Command)}

/-- Where a thread has parked, its counterpart can be parked, too. -/
theorem Shadows.falls_asleep
    (hshadows : Shadows (handleIn fragments) veiled (fun owner => asleep owner ∧ owner ≠ thread)
      names after shadow)
    (hreach : (ofFragments fragments host).ReachableUnder permitted system)
    (hstep : system.step thread = some after)
    (hadvance : system.Advance after thread frame rest next)
    (hslept : asleep thread) (hslumbers : after.Slumbers (handleIn fragments) veiled thread)
    (hplays : start.Plays calls shadow) :
    ∃ shadow', start.Plays calls shadow' ∧
      Shadows (handleIn fragments) veiled asleep names after shadow' := by
  obtain ⟨id, call, below, hframes, hsight, -⟩ := hslumbers
  have hshown {frame : Frame} (hmem : frame = .call id call .parked) :
      ¬ frame.isConcealed (handleIn fragments) veiled = true := by
    rintro hconcealed
    rw [hmem] at hconcealed
    exact Bool.false_ne_true (hsight.symm.trans hconcealed)
  have hkept : thread ∈ names := by
    by_contra hgone
    exact hshown rfl (hshadows.concealed hgone _ (hframes ▸ List.mem_cons_self))
  obtain ⟨thread', hname⟩ := List.getElem?_of_mem hkept
  cases hshadows.abreast hname with
  | level _ halike hsignal hprincipal =>
    rw [hframes] at halike
    obtain ⟨frame', rest', hframe, hrest, hframes'⟩ := List.forall₂_cons_left_iff.mp halike
    cases hframe with
    | plain hplain => cases hplain
    | parked =>
      obtain ⟨rfl, rfl, hworld, hcontinues⟩ := hadvance.parks hreach hframes
      have hstate := Executor.eq_of_seen Executor.state (fun _ => rfl)
        (hshadows.worlds.executors id hsight)
      have hgo : after.signal thread = .go :=
        (hreach.move (.step thread) trivial hstep).signal_go hframes (by rintro role ⟨⟩)
      have hgo' : shadow.signal thread' = .go := by
        rw [hgo] at hsignal
        generalize shadow.signal thread' = signal' at hsignal
        cases hsignal
        rfl
      obtain ⟨shadow', hplays', hidles, hparked, hsignal', htoken⟩ := hplays.exists_parked
        (hshadows.worlds.exit (hworld ▸ exit_of_step hstep)) hshadows.worlds.served.2 hframes' hgo'
        (by rw [System.executor, hstate, hworld]; exact hcontinues)
      refine ⟨shadow', hplays', hshadows.of_idles hidles hname
        (fun owner hother => and_iff_left hother) ?_⟩
      refine .slept hslept id call rest rest' hframes hparked hsight hrest hgo hsignal' htoken ?_
      rw [hidles.world]
      exact hprincipal
  | held inner walker walker' below below' hheldFrames _ hinner hheld =>
    rw [hframes] at hheldFrames
    cases inner with
    | nil =>
      obtain ⟨rfl, -⟩ := List.cons.inj hheldFrames
      cases hheld
    | cons top inner =>
      exact absurd (hinner top List.mem_cons_self) (hshown (List.cons.inj hheldFrames).1.symm)
  | left _ hnone =>
    rw [hframes] at hnone
    cases hnone
  | slept hawake => exact absurd rfl hawake.2

/-- The calls that are not addressed to concealed fragments. -/
def callsInSight (fragments : List Fragment) (veiled : Handle → Bool)
    (calls : List (ThreadId × Command)) : List (ThreadId × Command) :=
  calls.filter fun call => !call.2.frame.isConcealed (handleIn fragments) veiled

/-- A script without the calls on concealed fragments casts the shadow of the script.  Any
threads are parked there for good that are parked in the end, and have no token. -/
theorem Plays.exists_shadow (asleep : ThreadId → Prop)
    (hplays : (ofFragments fragments host).Plays calls system)
    (hempty : host.running = []) (hqueue : host.slots.queue = [])
    (hsilent : ∀ fragment ∈ fragments, veiled fragment.identity.handle = true →
      fragment.script.AnnouncesNothing)
    (hreturns : ∀ id, veiled (handleIn fragments id) = true →
      (system.executor id).ReturnsFromReports)
    (hasleep : ∀ {owner}, asleep owner → system.Slumbers (handleIn fragments) veiled owner) :
    ∃ names calls' shadow, (ofFragments fragments host).Plays calls' shadow ∧
      Shadows (handleIn fragments) veiled asleep names system shadow ∧
      List.Forall₂ (Renamed names) (callsInSight fragments veiled calls) calls' := by
  induction hplays generalizing asleep with
  | begin => exact ⟨[], [], _, .begin, .of_start hempty hqueue, .nil⟩
  | @call calls system command hmanaged hplays ih =>
    obtain ⟨names, calls', shadow, hplays', hshadows, hcalls⟩ :=
      ih asleep hreturns
        fun hslept => (turnover_of_call system command).slumbers_before (hasleep hslept)
    cases hconcealed : command.frame.isConcealed (handleIn fragments) veiled with
    | true =>
      refine ⟨names, calls', shadow, hplays', hshadows.call_concealed hconcealed, ?_⟩
      simpa [callsInSight, hconcealed] using hcalls
    | false =>
      refine ⟨names ++ [system.threads.length], calls' ++ [(shadow.threads.length, command)],
        shadow.call command, hplays'.call command hmanaged,
        hshadows.call_kept hplays.reachable hplays'.reachable hqueue hasleep hconcealed, ?_⟩
      rw [callsInSight, List.filter_append, List.filter_cons_of_pos (by simp [hconcealed])]
      refine List.rel_append (hcalls.imp fun _ _ hcall => hcall.of_extends (List.prefix_append _ _))
        (.cons ⟨rfl, ?_⟩ .nil)
      simp [hshadows.length]
  | @step calls system after thread hplays hstep hserved ih =>
    obtain ⟨frame, rest, next, hadvance⟩ := advance_of_step hstep
    have hbefore (id : ExecutorId) (hveiled : veiled (handleIn fragments id) = true) :
        (system.executor id).ReturnsFromReports :=
      (hreturns id hveiled).of_grows (Frame.step_transition id hadvance.step).grows
    -- the mover is awake up to here
    obtain ⟨names, calls', shadow, hplays', hshadows, hcalls⟩ :=
      ih (fun owner => asleep owner ∧ owner ≠ thread) hbefore
        fun hslept => hadvance.slumbers_before hslept.2 (hasleep hslept.1)
    obtain ⟨names', shadow', hextends, hplays'', hshadows'⟩ : ∃ names' shadow', names <+: names' ∧
        (ofFragments fragments host).Plays calls' shadow' ∧ Shadows (handleIn fragments) veiled
          (fun owner => asleep owner ∧ owner ≠ thread) names' after shadow' := by
      rcases hshadows.step hplays.reachable hplays'.reachable hempty hqueue
        (fun _ => Command.ne_act_of_isManaged) hsilent hbefore hstep
        (fun hslept => ⟨hslept.2, hasleep hslept.1⟩) hserved with
        hstays | ⟨names', thread', after', hextends, hstep', hafter⟩
      · exact ⟨names, shadow, List.prefix_rfl, hplays', hstays⟩
      · exact ⟨names', after', hextends, hplays'.step thread' hstep' hafter.worlds.served.2, hafter⟩
    have hcalls' := hcalls.imp fun _ _ hcall => hcall.of_extends hextends
    by_cases hslept : asleep thread
    · obtain ⟨later, hlater, hasleep'⟩ := hshadows'.falls_asleep hplays.reachable hstep hadvance
        hslept (hasleep hslept) hplays''
      exact ⟨names', calls', later, hlater, hasleep', hcalls'⟩
    · refine ⟨names', calls', shadow', hplays'', ?_, hcalls'⟩
      refine hshadows'.of_iff fun owner => and_iff_left_of_imp ?_
      rintro howner rfl
      exact hslept howner
  | @leave calls system after thread signals hplays hwaits hleave ih =>
    obtain ⟨root, hgives⟩ := givesUp_of_abandon hleave
    obtain ⟨names, calls', shadow, hplays', hshadows, hcalls⟩ :=
      ih asleep (fun id hveiled => hgives.turnover.executor_eq id ▸ hreturns id hveiled)
        fun hslept => hgives.turnover.slumbers_before (hasleep hslept)
    exact ⟨names, calls', shadow, hplays', hshadows.leave hplays.reachable hwaits hleave, hcalls⟩

end Scripts

end System

end FragmentLifecycle
