import FragmentLifecycle.Proofs.Shadows
import FragmentLifecycle.Proofs.WakeUps

/-!
# How a shadow follows
-/

namespace FragmentLifecycle

/-- One that is not concealed differs in nothing that is seen. -/
theorem World.Shadows.of_same {handle : ExecutorId → Handle} {veiled : Handle → Bool}
    {world after shadow : World} (hworlds : world.Shadows handle veiled shadow)
    (hsame : world.SameInSight handle veiled after) (hserved : after.host.slots.waiting = [])
    (hexit : world.exit = none) : after.Shadows handle veiled shadow where
  executors id hsight :=
    (hworlds.executors id hsight).trans (congrArg _ (hsame.executors id hsight).symm)
  running := hworlds.running.trans hsame.running.symm
  watches := hworlds.watches.trans hsame.watches.symm
  served := ⟨hserved, hworlds.served.2⟩
  exit _ := hworlds.exit hexit

/-- Two steps that look alike start a thread both, or none does. -/
theorem Next.Alike.forked_cases {handle : ExecutorId → Handle} {veiled : Handle → Bool}
    {next next' : Next} (halike : next.Alike handle veiled next') :
    (next.forked = [] ∧ next'.forked = []) ∨
      ∃ reply started hosts reply' started' hosts', next = .fork reply started hosts ∧
        next' = .fork reply' started' hosts' ∧ started.Alike handle veiled started' := by
  have hforked := halike.forked
  cases next with
  | fork reply started hosts =>
    cases next' with
    | fork reply' started' hosts' =>
      cases hforked with
      | cons hstarted _ => exact .inr ⟨_, _, _, _, _, _, rfl, rfl, hstarted⟩
    | goto | call | reply | raise => cases hforked
  | goto | call | reply | raise =>
    cases next' with
    | fork => cases hforked
    | goto | call | reply | raise => exact .inl ⟨rfl, rfl⟩

/-- No plan makes a departure of nodes known. -/
def Script.AnnouncesNothing (script : Script) : Prop :=
  ∀ call nodes, .depart nodes ∉ (script.planOf call).actions

theorem Script.announcesNothing_of_empty : ({} : Script).AnnouncesNothing := by
  intro call nodes hmem
  cases call <;> simp [planOf] at hmem

/-- A cancellation that ends without a panic has an answer. -/
theorem Frame.step_cancel_ends {world after : World} {view : LockView} {thread : ThreadId}
    {signal : Signal} {id : ExecutorId} {point : CancelPoint} {next : Next}
    (hstep : (Frame.cancel id point).step world view thread signal = some (after, next))
    (hends : next.frames = []) (hcalm : ∀ payload, signal ≠ .raised payload) :
    ∃ reply, next.signal = .replied reply := by
  revert hstep
  simp only [Frame.step]
  fun_cases stepCancel world view thread id point signal
  all_goals
    intro hstep
    cases hstep
  all_goals first
  | exact ⟨_, rfl⟩
  | exact absurd rfl (hcalm _)
  | cases hends

/-- A walker whose call has returned goes on where its counterpart is. -/
theorem Frame.HeldUp.released {handle : ExecutorId → Handle} {veiled : Handle → Bool}
    {world after : World} {view : LockView} {thread : ThreadId} {walker walker' : Frame}
    {reply : Reply} {next : Next} (hheld : walker.HeldUp handle veiled walker')
    (hstep : walker.step world view thread (.replied reply) = some (after, next)) :
    after = world ∧ ∃ resumed, next = .goto resumed ∧ resumed.Alike handle veiled walker' := by
  cases hheld <;> simp only [Frame.step, stepDepart, stepHost, Option.some.injEq,
    Prod.mk.injEq] at hstep <;> obtain ⟨rfl, rfl⟩ := hstep
  · exact ⟨rfl, _, rfl, .walk⟩
  · exact ⟨rfl, _, rfl, .round⟩

/-- Who has a step without a counterpart neither hosts nor runs a fragment. -/
theorem Frame.Lingers.passing {handle : ExecutorId → Handle} {veiled : Handle → Bool}
    {world : World} {frame : Frame} {signal : Signal}
    (hlingers : frame.Lingers handle veiled world signal) :
    frame.isHosting = false ∧ ∀ id l point, frame ≠ .run id l point := by
  cases frame with
  | start | hosted | run => cases hlingers
  | _ => exact ⟨rfl, by simp⟩

/-- What a run does to the watches in sight. -/
theorem RunPoint.watchesAfter_filter (watch : Watch) (listens : Bool) (point : RunPoint)
    (watches : List Watch) (sees : Watch → Bool) (hsees : sees watch = true) :
    (point.watchesAfter watch listens watches).filter sees =
      point.watchesAfter watch listens (watches.filter sees) := by
  cases point
  case watch => simp [watchesAfter, hsees]
  case unwatch =>
    cases listens with
    | true => simp only [watchesAfter, if_true, List.filter_filter, Bool.and_comm]
    | false => rfl
  all_goals rfl

namespace System

section Moves

variable {fragments : List Fragment} {host : Host} {permitted permitted' : Command → Prop}
  {handle : ExecutorId → Handle} {veiled : Handle → Bool} {asleep : ThreadId → Prop}
  {names : List ThreadId} {system after shadow after' : System} {thread thread' : ThreadId}
  {frame frame' : Frame}
  {rest rest' : List Frame} {next next' : Next}

/-- A thread got its name before the last one, or it is the last one. -/
theorem getElem?_snoc {started : ThreadId} (hname : (names ++ [started])[thread']? = some thread) :
    names[thread']? = some thread ∨ (thread' = names.length ∧ thread = started) := by
  rcases Nat.lt_or_ge thread' names.length with hlt | hge
  · rw [List.getElem?_append_left hlt] at hname
    exact .inl hname
  · rw [List.getElem?_append_right hge, List.getElem?_singleton] at hname
    split at hname
    · rename_i hzero
      exact .inr ⟨Nat.le_antisymm (Nat.sub_eq_zero_iff_le.mp hzero) hge,
        (Option.some.inj hname).symm⟩
    · cases hname

/-- A thread that has not begun has no grant. -/
theorem Queued.not_granted (hqueued : system.Queued) (hunborn : system.threads.length ≤ thread) :
    thread ∉ system.world.host.slots.granted := by
  intro hgranted
  obtain ⟨id, refusal, hframes⟩ := hqueued.waits thread (List.mem_append_left _ hgranted)
  exact absurd (lt_length_of_frames (by simp [hframes])) (Nat.not_lt.mpr hunborn)

/-- Where concealed fragments announce nothing, their frames do not. -/
theorem ReachableUnder.silent_of_concealed
    (hreach : (ofFragments fragments host).ReachableUnder permitted system)
    (hmanaged : ∀ command, permitted command → ∀ id action, command ≠ .act id action)
    (hsilent : ∀ fragment ∈ fragments, veiled fragment.identity.handle = true →
      fragment.script.AnnouncesNothing)
    (hmem : frame ∈ system.frames thread)
    (hconcealed : frame.isConcealed (handleIn fragments) veiled = true) :
    frame.isAnnouncement = false := by
  by_contra hannounces
  rw [Bool.not_eq_false] at hannounces
  revert hannounces
  fun_cases Frame.isAnnouncement frame
  · rintro -
    rename_i id nodes
    rcases hreach.action_cases hmanaged hmem with hunpause | ⟨call, hplanned⟩
    · cases hunpause
    · rw [hreach.fragment_eq] at hplanned
      have hveiled : veiled (handleIn fragments id) = true := hconcealed
      cases hfragment : fragments[id]? with
      | none =>
        rw [hfragment] at hplanned
        exact Script.announcesNothing_of_empty call nodes hplanned
      | some fragment =>
        rw [handleIn, hfragment] at hveiled
        rw [hfragment] at hplanned
        exact hsilent fragment (List.mem_of_getElem? hfragment) hveiled call nodes hplanned
  · rintro ⟨⟩

/-- Frames that neither host nor run a fragment leave the host and the registry. -/
theorem ReachableUnder.shared_of_passing
    (hreach : (ofFragments fragments host).ReachableUnder permitted system)
    (hadvance : system.Advance after thread frame rest next)
    (houtside : frame.isHosting = false) (hrun : ∀ id l point, frame ≠ .run id l point) :
    after.world.host = system.world.host ∧ after.world.registry = system.world.registry ∧
      next.forked = [] := by
  obtain ⟨hhost, hforked⟩ := (hreach.host_step hadvance).eq_of_outside houtside
  refine ⟨hhost, ?_, hforked⟩
  rw [Frame.step_registry hadvance.step]
  cases frame with
  | run id l point => exact absurd rfl (hrun id l point)
  | _ => rfl

/-- The process goes on after a step of a concealed frame, or this frame has ended it. -/
theorem Advance.goes_on_or_brought_down (hadvance : system.Advance after thread frame rest next)
    (hconcealed : frame.isConcealed handle veiled = true) :
    after.world.exit = system.world.exit ∨ after.IsBroughtDown handle veiled := by
  rcases Frame.step_exit hadvance.step with hsame | ⟨id, exhaustion, rfl, rfl⟩
  · exact .inl hsame
  · refine .inr ⟨thread, id, exhaustion, ?_, hconcealed⟩
    rw [hadvance.own]
    exact List.mem_cons_self

namespace Shadows

/-- A thread moves and the shadow stays. -/
theorem alone (hshadows : Shadows handle veiled asleep names system shadow)
    (hstep : system.step thread = some after)
    (hadvance : system.Advance after thread frame rest next)
    (hsame : system.world.SameInSight handle veiled after.world)
    (hserved : after.world.host.slots.waiting = [])
    (hgranted : ∀ other ∈ names, (other ∈ after.world.host.slots.granted ↔
      other ∈ system.world.host.slots.granted))
    (hexited : after.world.exit = system.world.exit ∨ after.IsBroughtDown handle veiled)
    (hforked : ∀ pushed ∈ next.forked, pushed.isConcealed handle veiled = true)
    (hkept : ∀ {thread'}, names[thread']? = some thread →
      Abreast handle veiled asleep after thread shadow thread')
    (hgone : thread ∉ names → ∀ pushed ∈ next.frames, pushed.isConcealed handle veiled = true) :
    Shadows handle veiled asleep names after shadow where
  sublist := by
    rw [hadvance.length_threads hstep]
    exact hshadows.sublist.trans (List.range_sublist.mpr (Nat.le_add_right _ _))
  length := hshadows.length
  abreast {owner owner'} hname := by
    by_cases howner : owner = thread
    · subst howner
      exact hkept hname
    · exact (hshadows.abreast hname).of_stays
        (hadvance.stays hstep (hshadows.lt_length hname) howner) (.refl _ _) fun _ => id
  concealed {owner} howner pushed hmem := by
    rcases hadvance.mem_frames_cases hmem with ⟨rfl, hnew⟩ | ⟨-, hnew⟩ | hbeside
    · exact hgone howner pushed hnew
    · exact hforked pushed hnew
    · exact hshadows.concealed howner pushed (hadvance.mem_of_beside hbeside)
  granted hname := (hshadows.granted hname).trans
    (hgranted _ (List.mem_of_getElem? hname)).symm
  workers id hsight := by
    have hsame : after.executor id = system.executor id := hsame.executors id hsight
    rw [hsame]
    exact hshadows.workers id hsight
  worlds := hshadows.worlds.of_same hsame hserved (exit_of_step hstep)
  exited hexit := .inr (hexited.resolve_left (exit_of_step hstep ▸ hexit))

/-- A thread and its counterpart have begun, which are new on both sides. -/
theorem extend (hshadows : Shadows handle veiled asleep names system shadow)
    (hlength : after.threads.length = system.threads.length + 1)
    (hlength' : after'.threads.length = shadow.threads.length + 1)
    (habreast : ∀ {owner owner'}, names[owner']? = some owner →
      Abreast handle veiled asleep after owner after' owner')
    (hnew : Abreast handle veiled asleep after system.threads.length after' shadow.threads.length)
    (hconcealed : ∀ {owner}, owner ∉ names → owner ≠ system.threads.length →
      ∀ pushed ∈ after.frames owner, pushed.isConcealed handle veiled = true)
    (hgranted : ∀ {owner owner'}, names[owner']? = some owner →
      (owner' ∈ after'.world.host.slots.granted ↔ owner ∈ after.world.host.slots.granted))
    (hfresh : system.threads.length ∉ after.world.host.slots.granted)
    (hfresh' : shadow.threads.length ∉ after'.world.host.slots.granted)
    (hworkers : ∀ id, veiled (handle id) = false → ∀ owner',
      (after'.executor id).worker = some owner' →
        ∃ owner, names[owner']? = some owner ∧ (after.executor id).worker = some owner)
    (hworlds : after.world.Shadows handle veiled after'.world)
    (hexited : after.world.exit ≠ none → after'.world.exit = after.world.exit ∨
      after.IsBroughtDown handle veiled) :
    Shadows handle veiled asleep (names ++ [system.threads.length]) after after' where
  sublist := by
    rw [hlength, List.range_succ]
    exact hshadows.sublist.append (List.Sublist.refl _)
  length := by
    rw [hlength', hshadows.length, List.length_append, List.length_singleton]
  abreast hname := by
    rcases getElem?_snoc hname with hold | ⟨rfl, rfl⟩
    · exact habreast hold
    · exact hshadows.length ▸ hnew
  concealed howner := by
    rw [List.mem_append, List.mem_singleton, not_or] at howner
    exact hconcealed howner.1 howner.2
  granted hname := by
    rcases getElem?_snoc hname with hold | ⟨rfl, rfl⟩
    · exact hgranted hold
    · exact iff_of_false (hshadows.length ▸ hfresh') hfresh
  workers id hsight owner' hworker := by
    obtain ⟨owner, hname, howner⟩ := hworkers id hsight owner' hworker
    exact ⟨owner, (List.getElem?_append_left (List.getElem?_eq_some_iff.mp hname).1).trans hname,
      howner⟩
  worlds := hworlds
  exited := hexited

/-- Runs record counterparts. -/
theorem workers_of_alike (hshadows : Shadows handle veiled asleep names system shadow)
    (hname : names[thread']? = some thread)
    (hadvance : system.Advance after thread frame rest next)
    (hadvance' : shadow.Advance after' thread' frame' rest' next')
    (hframe : frame.Alike handle veiled frame') {id : ExecutorId}
    (hsight : veiled (handle id) = false) {owner' : ThreadId}
    (hworker : (after'.executor id).worker = some owner') :
    ∃ owner, names[owner']? = some owner ∧ (after.executor id).worker = some owner := by
  rw [System.executor, (Frame.step_transition id hadvance.step).worker_eq]
  rw [System.executor, (Frame.step_transition id hadvance'.step).worker_eq] at hworker
  have hrun {runner : ExecutorId} {l l' : Option ListenerId} {point : RunPoint}
      (hworker : (Frame.run runner l' point).workerAfter id thread'
        (shadow.world.executors id).worker = some owner') :
      ∃ owner, names[owner']? = some owner ∧ (Frame.run runner l point).workerAfter id thread
        (system.world.executors id).worker = some owner := by
    have hbefore := hshadows.workers id hsight owner'
    cases point
    case enrol =>
      simp only [Frame.workerAfter] at hworker ⊢
      split at hworker
      · obtain rfl := Option.some.inj hworker
        exact ⟨thread, hname, if_pos ‹_›⟩
      · rw [if_neg ‹_›]
        exact hbefore hworker
    case retire =>
      simp only [Frame.workerAfter] at hworker ⊢
      split at hworker
      · cases hworker
      · rw [if_neg ‹_›]
        exact hbefore hworker
    all_goals exact hbefore hworker
  cases hframe with
  | plain =>
    cases frame with
    | run => exact hrun hworker
    | _ => exact hshadows.workers id hsight owner' hworker
  | run => exact hrun hworker
  | _ => exact hshadows.workers id hsight owner' hworker

/-- Who gets a token in the shadow is the counterpart of a thread that gets one. -/
theorem token_of_alike (hshadows : Shadows handle veiled asleep names system shadow)
    (hadvance : system.Advance after thread frame rest next)
    (hadvance' : shadow.Advance after' thread' frame' rest' next')
    (hframe : frame.Alike handle veiled frame') {owner owner' : ThreadId}
    (hname : names[owner']? = some owner) (htoken : after.world.tokens owner = false)
    (hquiet : shadow.world.tokens owner' = false) : after'.world.tokens owner' = false := by
  rw [(Frame.step_shared hadvance.step).2] at htoken
  rw [(Frame.step_shared hadvance'.step).2]
  fun_cases frame'.tokensAfter shadow.world thread' with
  | case1 id =>
    cases hframe with
    | plain _ hsight =>
      have hworkers := hshadows.workers id hsight
      simp only [Frame.tokensAfter, World.wakeWorker] at htoken ⊢
      split
      · exact hquiet
      · rename_i worker' hworker'
        obtain ⟨worker, hnamed, hworker⟩ := hworkers worker' hworker'
        rw [System.executor] at hworker
        rw [hworker] at htoken
        by_cases howner : owner' = worker'
        · obtain rfl : owner = worker := Option.some.inj (hname.symm.trans (howner ▸ hnamed))
          simp [World.setToken, overwrite] at htoken
        · simpa [World.setToken, overwrite, howner] using hquiet
  | case2 id call =>
    by_cases howner : owner' = thread'
    · simp [World.setToken, overwrite, howner]
    · simpa [World.setToken, overwrite, howner] using hquiet
  | case3 => exact hquiet

/-- The threads that two alike steps start are abreast. -/
theorem begun_alike (hreach : (ofFragments fragments host).ReachableUnder permitted system)
    (hreach' : (ofFragments fragments host).ReachableUnder permitted' shadow)
    {reply reply' : Reply} {started started' : Frame} {hosts hosts' : ExecutorId}
    (hstep : system.step thread = some after)
    (hadvance : system.Advance after thread frame rest (.fork reply started hosts))
    (hstep' : shadow.step thread' = some after')
    (hadvance' : shadow.Advance after' thread' frame' rest' (.fork reply' started' hosts'))
    (hother : system.threads.length ≠ thread) (hother' : shadow.threads.length ≠ thread')
    (hstarted : started.Alike handle veiled started')
    (hasleep : asleep system.threads.length →
      after.Slumbers handle veiled system.threads.length) :
    Abreast handle veiled asleep after system.threads.length after' shadow.threads.length := by
  obtain ⟨-, hnew, -⟩ := stack_of_fork hstep hadvance
  obtain ⟨-, hnew', -⟩ := stack_of_fork hstep' hadvance'
  have hprincipal : after.world.principals system.threads.length = none :=
    ((Frame.step_principal hadvance.step).1 _ hother).trans
      (hreach.principal_of_unborn (Nat.le_refl _))
  have hprincipal' : after'.world.principals shadow.threads.length = none :=
    ((Frame.step_principal hadvance'.step).1 _ hother').trans
      (hreach'.principal_of_unborn (Nat.le_refl _))
  refine .level (fun hslept => ?_) ?_ ?_ (hprincipal'.trans hprincipal.symm)
  · obtain ⟨id, call, below, hparked, -⟩ := hasleep hslept
    rw [System.frames, hnew] at hparked
    obtain ⟨rfl, -⟩ := List.cons.inj hparked
    obtain ⟨id, handle, hrole⟩ := Frame.step_links hadvance.step
    cases hrole
  · rw [System.frames, System.frames, hnew, hnew']
    exact .cons hstarted .nil
  · rw [System.signal, System.signal, hnew, hnew']
    exact .go

/-- A thread and its counterpart move, and what they do looks alike. -/
theorem together (hshadows : Shadows handle veiled asleep names system shadow)
    (hreach : (ofFragments fragments host).ReachableUnder permitted system)
    (hreach' : (ofFragments fragments host).ReachableUnder permitted' shadow)
    (hqueue : host.slots.queue = []) (hname : names[thread']? = some thread)
    (hasleep : ∀ {owner}, asleep owner → owner ≠ thread ∧ after.Slumbers handle veiled owner)
    (hstep : system.step thread = some after)
    (hadvance : system.Advance after thread frame rest next)
    (hstep' : shadow.step thread' = some after')
    (hadvance' : shadow.Advance after' thread' frame' rest' next')
    (hframe : frame.Alike handle veiled frame')
    (hechoes : Echoes handle veiled thread thread' (after.world, next) (after'.world, next'))
    (hrest : List.Forall₂ (Frame.Alike handle veiled) rest rest')
    (hhosts : after.world.host.Alike veiled thread thread' after'.world.host)
    (hgranted : ∀ {other}, other ≠ thread → (other ∈ after.world.host.slots.granted ↔
      other ∈ system.world.host.slots.granted))
    (hgranted' : ∀ {other'}, other' ≠ thread' → (other' ∈ after'.world.host.slots.granted ↔
      other' ∈ shadow.world.host.slots.granted))
    (hwatches : after'.world.registry.snapshot = after.world.watchesInSight handle veiled) :
    ∃ names', names <+: names' ∧ Shadows handle veiled asleep names' after after' := by
  have hworlds : after.world.Shadows handle veiled after'.world :=
    ⟨hechoes.executors, hhosts.running, hwatches, hhosts.served, hechoes.exit.trans⟩
  have hborn := hshadows.lt_length hname
  have hborn' := hshadows.lt_length' hname
  have happart {owner owner'} (howner : names[owner']? = some owner) (hother : owner ≠ thread) :
      owner' ≠ thread' := by
    rintro rfl
    exact hother (Option.some.inj (howner.symm.trans hname))
  have habreast {owner owner'} (howner : names[owner']? = some owner) :
      Abreast handle veiled asleep after owner after' owner' := by
    by_cases hother : owner = thread
    · subst hother
      obtain rfl := hshadows.injective howner hname
      refine .level (fun hslept => (hasleep hslept).1 rfl) ?_ ?_ hechoes.principal
      · rw [hadvance.own, hadvance'.own]
        exact List.rel_append hechoes.next.frames hrest
      · rw [hadvance.ownSignal, hadvance'.ownSignal]
        exact hechoes.next.signal
    · exact (hshadows.abreast howner).of_stays
        (hadvance.stays hstep (hshadows.lt_length howner) hother)
        (hadvance'.stays hstep' (hshadows.lt_length' howner) (happart howner hother))
        fun hslept hquiet => by
          obtain ⟨-, -, -, -, -, -, htoken⟩ := hasleep hslept
          exact hshadows.token_of_alike hadvance hadvance' hframe howner htoken hquiet
  have hworkers (id : ExecutorId) (hsight : veiled (handle id) = false) (owner' : ThreadId)
      (hworker : (after'.executor id).worker = some owner') :
      ∃ owner, names[owner']? = some owner ∧ (after.executor id).worker = some owner :=
    hshadows.workers_of_alike hname hadvance hadvance' hframe hsight hworker
  have hgrants {owner owner'} (howner : names[owner']? = some owner) :
      owner' ∈ after'.world.host.slots.granted ↔ owner ∈ after.world.host.slots.granted := by
    by_cases hother : owner = thread
    · subst hother
      obtain rfl := hshadows.injective howner hname
      exact hhosts.granted
    · rw [hgranted hother, hgranted' (happart howner hother)]
      exact hshadows.granted howner
  have hlength := hadvance.length_threads hstep
  have hlength' := hadvance'.length_threads hstep'
  have hmover {owner} (howner : owner ∉ names) : owner ≠ thread := by
    rintro rfl
    exact howner (List.mem_of_getElem? hname)
  rcases hechoes.next.forked_cases with
    ⟨hforked, hforked'⟩ | ⟨reply, started, hosts, reply', started', hosts', rfl, rfl, hstarted⟩
  · rw [hforked, List.length_nil, Nat.add_zero] at hlength
    rw [hforked', List.length_nil, Nat.add_zero] at hlength'
    refine ⟨names, List.prefix_rfl, hlength ▸ hshadows.sublist, hlength'.trans hshadows.length,
      habreast, fun {owner} howner pushed hmem => ?_, hgrants, hworkers, hworlds,
      fun _ => .inl hechoes.exit⟩
    rw [(hadvance.same_of_unforked hstep hforked (hmover howner)).1] at hmem
    exact hshadows.concealed howner pushed hmem
  · obtain ⟨-, -, hkept⟩ := stack_of_fork hstep hadvance
    have hfresh : system.threads.length ≠ thread := Nat.ne_of_gt hborn
    have hfresh' : shadow.threads.length ≠ thread' := Nat.ne_of_gt hborn'
    have hbegun := begun_alike hreach hreach' hstep hadvance hstep' hadvance' hfresh hfresh'
      hstarted fun hslept => (hasleep hslept).2
    refine ⟨names ++ [system.threads.length], List.prefix_append _ _,
      hshadows.extend hlength hlength' habreast hbegun (fun {owner} howner hold pushed hmem => ?_)
        hgrants ?_ ?_ hworkers hworlds fun _ => .inl hechoes.exit⟩
    · rw [System.frames, hkept owner (hmover howner) hold] at hmem
      exact hshadows.concealed howner pushed hmem
    · rw [hgranted hfresh]
      exact (hreach.queued hqueue).not_granted (Nat.le_refl _)
    · rw [hgranted' hfresh']
      exact (hreach'.queued hqueue).not_granted (Nat.le_refl _)

/-- A concealed thread moves. -/
theorem step_concealed (hshadows : Shadows (handleIn fragments) veiled asleep names system shadow)
    (hreach : (ofFragments fragments host).ReachableUnder permitted system)
    (hempty : host.running = []) (hstep : system.step thread = some after)
    (hadvance : system.Advance after thread frame rest next)
    (hserved : after.world.host.slots.waiting = []) (hgone : thread ∉ names)
    (hsilent : frame.isAnnouncement = false) :
    Shadows (handleIn fragments) veiled asleep names after shadow := by
  have hconcealed := hshadows.concealed hgone frame (hadvance.frames ▸ List.mem_cons_self)
  obtain ⟨hsame, hpushed⟩ := hreach.concealed_step hempty hadvance hconcealed hsilent
  refine hshadows.alone hstep hadvance hsame hserved (fun other hother => ?_)
    (hadvance.goes_on_or_brought_down hconcealed)
    (fun pushed hmem => hpushed pushed (List.mem_append_right _ hmem)) (fun hname => ?_)
    (fun _ pushed hmem => hpushed pushed (List.mem_append_left _ hmem))
  · refine (hreach.host_step hadvance).mem_granted hshadows.worlds.served.1 ?_
    rintro rfl
    exact hgone hother
  · exact absurd (List.mem_of_getElem? hname) hgone

/-- A thread moves that is held up by concealed frames. -/
theorem step_held (hshadows : Shadows (handleIn fragments) veiled asleep names system shadow)
    (hreach : (ofFragments fragments host).ReachableUnder permitted system)
    (hempty : host.running = []) (hstep : system.step thread = some after)
    (hserved : after.world.host.slots.waiting = []) (hname : names[thread']? = some thread)
    {inner : List Frame} {walker walker' : Frame} {top : Frame}
    (hframes : system.frames thread = top :: inner ++ walker :: rest)
    (hframes' : shadow.frames thread' = walker' :: rest')
    (hinner : ∀ frame ∈ top :: inner, frame.isConcealed (handleIn fragments) veiled = true)
    (hheld : walker.HeldUp (handleIn fragments) veiled walker')
    (hrest : List.Forall₂ (Frame.Alike (handleIn fragments) veiled) rest rest')
    (hgo : shadow.signal thread' = .go)
    (hprincipal : shadow.world.principals thread' =
      ambient (top :: inner) (system.world.principals thread))
    (hsilent : top.isAnnouncement = false)
    (hreturns : ∀ id, veiled (handleIn fragments id) = true →
      (system.executor id).ReturnsFromReports) :
    Shadows (handleIn fragments) veiled asleep names after shadow := by
  obtain ⟨frame, below, next, hadvance⟩ := advance_of_step hstep
  obtain ⟨rfl, rfl⟩ := List.cons.inj (hadvance.frames.symm.trans hframes)
  have hconcealed := hinner frame List.mem_cons_self
  obtain ⟨hsame, hpushed⟩ := hreach.concealed_step hempty hadvance hconcealed hsilent
  have houtside : frame.isHosting = false := by
    by_contra hhosting
    have hlone := hreach.frames_of_hosting hadvance.frames (by simpa using hhosting)
    simp at hlone
  obtain ⟨hhost, hforked⟩ := (hreach.host_step hadvance).eq_of_outside houtside
  refine hshadows.alone hstep hadvance hsame hserved (fun _ _ => by rw [hhost])
    (hadvance.goes_on_or_brought_down hconcealed) (by simp [hforked]) (fun {owner'} howner => ?_)
    (fun hgone => absurd (List.mem_of_getElem? hname) hgone)
  obtain rfl := hshadows.injective howner hname
  refine .held (next.frames ++ inner) walker walker' rest rest' ?_ hframes' ?_ hheld hrest ?_ hgo ?_
  · rw [hadvance.own, List.append_assoc]
    rfl
  · intro pushed hmem
    rcases List.mem_append.mp hmem with hnew | hold
    · exact hpushed pushed (List.mem_append_left _ hnew)
    · exact hinner pushed (List.mem_cons_of_mem _ hold)
  · intro hends
    obtain ⟨hnext, rfl⟩ := List.append_eq_nil_iff.mp hends
    have hawaits : walker.Awaits frame.role := by
      have hlinked := hreach.linked thread
      rw [hframes] at hlinked
      exact hlinked.awaits
    obtain ⟨id, hrole⟩ : ∃ id, frame.role = .cancel id := by
      generalize frame.role = role at hawaits
      cases hheld <;> cases hawaits <;> exact ⟨_, rfl⟩
    obtain ⟨point, rfl⟩ := Frame.eq_cancel_of_role hrole
    rw [hadvance.ownSignal]
    refine Frame.step_cancel_ends hadvance.step hnext ?_
    exact hreach.not_raised_of_returns (hreturns id hconcealed) hadvance.frames
  · rw [hprincipal, ambient_append, (Frame.step_principal hadvance.step).2]
    rfl

/-- A walker moves whose call on a concealed fragment has returned. -/
theorem step_released (hshadows : Shadows (handleIn fragments) veiled asleep names system shadow)
    (hstep : system.step thread = some after)
    (hserved : after.world.host.slots.waiting = []) (hname : names[thread']? = some thread)
    {walker walker' : Frame} {reply : Reply}
    (hframes : system.frames thread = walker :: rest)
    (hframes' : shadow.frames thread' = walker' :: rest')
    (hheld : walker.HeldUp (handleIn fragments) veiled walker')
    (hrest : List.Forall₂ (Frame.Alike (handleIn fragments) veiled) rest rest')
    (hreplied : system.signal thread = .replied reply) (hgo : shadow.signal thread' = .go)
    (hprincipal : shadow.world.principals thread' = system.world.principals thread)
    (hawake : ¬ asleep thread) : Shadows (handleIn fragments) veiled asleep names after shadow := by
  obtain ⟨frame, below, next, hadvance⟩ := advance_of_step hstep
  obtain ⟨rfl, rfl⟩ := List.cons.inj (hadvance.frames.symm.trans hframes)
  obtain ⟨hworld, resumed, rfl, halike⟩ := hheld.released (hreplied ▸ hadvance.step)
  refine hshadows.alone hstep hadvance ?_ hserved (fun _ _ => by rw [hworld])
    (.inl (by rw [hworld])) (by simp)
    (fun {owner'} howner => ?_) (fun hgone => absurd (List.mem_of_getElem? hname) hgone)
  · rw [hworld]
    exact ⟨fun _ _ => rfl, rfl, rfl⟩
  · obtain rfl := hshadows.injective howner hname
    refine .level hawake ?_ ?_ (by rw [hworld, hprincipal])
    · rw [hadvance.own, hframes']
      exact .cons halike hrest
    · rw [hadvance.ownSignal, hgo]
      exact .go

/-- A thread takes a step that has no counterpart. -/
theorem step_lingering (hshadows : Shadows (handleIn fragments) veiled asleep names system shadow)
    (hreach : (ofFragments fragments host).ReachableUnder permitted system)
    (hstep : system.step thread = some after)
    (hadvance : system.Advance after thread frame rest next)
    (hserved : after.world.host.slots.waiting = []) (hname : names[thread']? = some thread)
    (hframes' : shadow.frames thread' = frame' :: rest')
    (hframe : frame.Alike (handleIn fragments) veiled frame')
    (hrest : List.Forall₂ (Frame.Alike (handleIn fragments) veiled) rest rest')
    (hsignal : (system.signal thread).Alike veiled (shadow.signal thread'))
    (hprincipal : shadow.world.principals thread' = system.world.principals thread)
    (hawake : ¬ asleep thread)
    (hlingers : frame.Lingers (handleIn fragments) veiled system.world (system.signal thread)) :
    Shadows (handleIn fragments) veiled asleep names after shadow := by
  obtain ⟨⟨hexecutors, hprincipals⟩, hgo, hnext⟩ :=
    Frame.step_lingers hlingers hframe hadvance.step
  obtain ⟨houtside, hrun⟩ := hlingers.passing
  have hexit : after.world.exit = system.world.exit := by
    refine (Frame.step_exit hadvance.step).resolve_right ?_
    rintro ⟨id, exhaustion, rfl, -⟩
    exact hlingers
  obtain ⟨hhost, hregistry, hforked⟩ := hreach.shared_of_passing hadvance houtside hrun
  have hgo' : shadow.signal thread' = .go := by
    rw [hgo] at hsignal
    generalize shadow.signal thread' = signal' at hsignal
    cases hsignal
    rfl
  refine hshadows.alone hstep hadvance ⟨fun id _ => congrFun hexecutors id, ?_, ?_⟩ hserved
    (fun _ _ => by rw [hhost]) (.inl hexit) (by simp [hforked]) (fun {owner'} howner => ?_)
    (fun hgone => absurd (List.mem_of_getElem? hname) hgone)
  · rw [hhost]
  · rw [World.watchesInSight, hregistry, World.watchesInSight]
  obtain rfl := hshadows.injective howner hname
  rcases hnext with ⟨resumed, rfl, halike⟩ | ⟨walker, id, rfl, hheld, hveiled⟩
  · refine .level hawake ?_ ?_ (by rw [hprincipals, hprincipal])
    · rw [hadvance.own, hframes']
      exact .cons halike hrest
    · rw [hadvance.ownSignal, hgo']
      exact .go
  · refine .held [.cancel id .lockSetup] walker frame' rest rest' hadvance.own hframes' ?_ hheld
      hrest (by simp) hgo' (by rw [hprincipals, hprincipal]; rfl)
    intro pushed hmem
    obtain rfl := List.mem_singleton.mp hmem
    exact hveiled

/-- A run registers and takes away its watch on both sides. -/
theorem watches_of_alike (hshadows : Shadows (handleIn fragments) veiled asleep names system shadow)
    (hreach : (ofFragments fragments host).ReachableUnder permitted system)
    (hreach' : (ofFragments fragments host).ReachableUnder permitted' shadow)
    (hadvance : system.Advance after thread frame rest next)
    (hadvance' : shadow.Advance after' thread' frame' rest' next')
    (hframe : frame.Alike (handleIn fragments) veiled frame') :
    after'.world.registry.snapshot = after.world.watchesInSight (handleIn fragments) veiled := by
  have hrun {id : ExecutorId} {l l' : Option ListenerId} {point : RunPoint}
      (hlistens : l'.isSome = l.isSome) (hsight : veiled (handleIn fragments id) = false)
      (hadvance : system.Advance after thread (.run id l point) rest next)
      (hadvance' : shadow.Advance after' thread' (.run id l' point) rest' next') :
      after'.world.registry.snapshot =
        after.world.watchesInSight (handleIn fragments) veiled := by
    have hwatch : shadow.watch id = system.watch id := by
      rw [watch, watch, hreach.fragment_eq, hreach'.fragment_eq]
    rw [hreach'.snapshot_of_run hadvance', World.watchesInSight, hreach.snapshot_of_run hadvance,
      RunPoint.watchesAfter_filter _ _ _ _ _ (by simp [watch, hsight]), hlistens, hwatch,
      hshadows.worlds.watches, World.watchesInSight]
  have hkept (hregistry : after.world.registry = system.world.registry)
      (hregistry' : after'.world.registry = shadow.world.registry) :
      after'.world.registry.snapshot =
        after.world.watchesInSight (handleIn fragments) veiled := by
    rw [hregistry', World.watchesInSight, hregistry]
    exact hshadows.worlds.watches
  have hregistry := Frame.step_registry hadvance.step
  have hregistry' := Frame.step_registry hadvance'.step
  cases hframe with
  | plain _ hsight =>
    cases frame with
    | run id l point => exact hrun rfl hsight hadvance hadvance'
    | _ => exact hkept hregistry hregistry'
  | run hlistens hsight => exact hrun hlistens hsight hadvance hadvance'
  | _ => exact hkept hregistry hregistry'

/-- A thread takes a step and its counterpart takes it, too. -/
theorem step_echoed (hshadows : Shadows (handleIn fragments) veiled asleep names system shadow)
    (hreach : (ofFragments fragments host).ReachableUnder permitted system)
    (hreach' : (ofFragments fragments host).ReachableUnder permitted' shadow)
    (hempty : host.running = []) (hqueue : host.slots.queue = [])
    (hstep : system.step thread = some after)
    (hadvance : system.Advance after thread frame rest next)
    (hserved : after.world.host.slots.waiting = []) (hname : names[thread']? = some thread)
    (hasleep : ∀ {owner}, asleep owner →
      owner ≠ thread ∧ after.Slumbers (handleIn fragments) veiled owner)
    (hframes' : shadow.frames thread' = frame' :: rest')
    (hframe : frame.Alike (handleIn fragments) veiled frame')
    (hrest : List.Forall₂ (Frame.Alike (handleIn fragments) veiled) rest rest')
    (hsignal : (system.signal thread).Alike veiled (shadow.signal thread'))
    (hprincipal : shadow.world.principals thread' = system.world.principals thread)
    (hstays : ¬ frame.Lingers (handleIn fragments) veiled system.world (system.signal thread)) :
    ∃ names' after', names <+: names' ∧ shadow.step thread' = some after' ∧
      Shadows (handleIn fragments) veiled asleep names' after after' := by
  have hexit := exit_of_step hstep
  have hmirrored := hshadows.mirrored hreach hempty hexit hname hprincipal
  have hrel := Frame.step_echoes hmirrored hframe hsignal hstays
  rw [hadvance.step] at hrel
  generalize hresult : frame'.step shadow.world (shadow.view thread') thread'
    (shadow.signal thread') = result at hrel
  cases hrel with
  | @some _ result' hechoes =>
    obtain ⟨world', next'⟩ := result'
    obtain ⟨after', hstep', rfl, hadvance'⟩ :=
      exists_advance (hshadows.worlds.exit hexit) hframes' hresult
    have hhosts := (hreach.host_step hadvance).alike (hreach'.host_step hadvance') hframe
      hechoes.next ⟨hshadows.worlds.running, hshadows.granted hname, hshadows.worlds.served⟩
      (hshadows.free_le hreach hreach' hqueue)
      (List.nodup_append.mp (hreach.queued hqueue).nodup).1
      (List.nodup_append.mp (hreach'.queued hqueue).nodup).1 hserved
    obtain ⟨names', hextends, hafter⟩ := hshadows.together hreach hreach' hqueue hname hasleep
      hstep hadvance hstep' hadvance' hframe hechoes hrest hhosts
      (fun hother => (hreach.host_step hadvance).mem_granted hshadows.worlds.served.1 hother)
      (fun hother => (hreach'.host_step hadvance').mem_granted hshadows.worlds.served.2 hother)
      (hshadows.watches_of_alike hreach hreach' hadvance hadvance' hframe)
    exact ⟨names', after', hextends, hstep', hafter⟩

end Shadows

end Moves

end System

end FragmentLifecycle
