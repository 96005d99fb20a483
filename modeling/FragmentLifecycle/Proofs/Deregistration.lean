import FragmentLifecycle.Proofs.ClosePanics
import FragmentLifecycle.Proofs.OrphanedEntries

/-!
# What the end of a hosted fragment leaves behind

A thread whose run has returned takes the entry of its fragment out of the table before it
ends, and the host has forgotten the fragment.  A panic that leaves the run passes that
by: the host remembers the fragment for ever, finds it for every message, refuses its
handle, and is never idle again (`System.deregistered_unless_unwound`).
-/

namespace FragmentLifecycle

/-- The messages to the fragment with a handle, and what they call on its executor. -/
inductive HostCall.Addresses (handle : Handle) (id : ExecutorId) : HostCall → Frame → Prop
  | cancel : Addresses handle id (.cancel handle) (.cancel id .lockSetup)
  | unpause : Addresses handle id (.unpause handle) (.perform id .unpause .start)
  | finished (receiver : Handle) :
      Addresses handle id (.finished handle receiver) (.finished id receiver .waitGate)

/-- The points of a wait for idleness. -/
def HostPoint.isIdling : HostPoint → Bool
  | .start | .listening _ | .asleep _ => true
  | _ => false

namespace World

/-- The host knows of no fragment with a handle: it does not list one, answers no to the
messages to it and lets it start.  It is idle where it knows of no other either. -/
structure Forgets (world : World) (handle : Handle) : Prop where
  unlisted : ∀ order, ∃ handles, startHostCall world (.running order) =
    (world, .reply (.answer (.handles handles))) ∧ handle ∉ handles
  denies : ∀ id call callee, HostCall.Addresses handle id call callee →
    (startHostCall world call).2 = .reply (.answer (.flag false))
  starts : ∀ thread id refusal, (world.executors id).handle = handle →
    ∃ after, stepStart world thread id refusal .register .go =
      some (after, .goto (.start id refusal .spawn))
  idles : (∀ entry ∈ world.host.running, entry.1 = handle) → ∀ signals,
    stepHost world .waitIdle (.listening signals) .go = some (world, .done)

/-- The host takes an executor for the fragment with a handle: it lists it, passes on the
messages to it, refuses to start another one, and is not idle. -/
structure Remembers (world : World) (handle : Handle) (id : ExecutorId) : Prop where
  listed : ∀ order, ∃ handles, startHostCall world (.running order) =
    (world, .reply (.answer (.handles handles))) ∧ handle ∈ handles
  finds : ∀ call callee, HostCall.Addresses handle id call callee →
    startHostCall world call = (world, .call (.host call .waiting) callee)
  refuses : ∀ thread other refusal, (world.executors other).handle = handle →
    stepStart world thread other refusal .register .go =
      some (world, .goto (.start other refusal .reject))
  waits : ∀ point, point.isIdling = true → ∀ after next,
    stepHost world .waitIdle point .go = some (after, next) →
      ∃ point', next = .goto (.host .waitIdle point') ∧ point'.isIdling = true

section Host

variable {world : World} {handle : Handle} {id : ExecutorId}

theorem forgets_of_free (hfree : world.host.executor? handle = none) : world.Forgets handle where
  unlisted order := ⟨_, rfl, fun hmem =>
    Host.executor?_eq_none.mp hfree (((world.host.listing_perm order).map _).mem_iff.mp hmem)⟩
  denies := by
    rintro id _ _ ⟨⟩ <;> simp [startHostCall, hfree]
  starts := by
    rintro thread id refusal rfl
    simp [stepStart, hfree]
  idles := by
    intro hothers signals
    have hnone : world.host.running = [] := by
      refine List.eq_nil_iff_forall_not_mem.mpr fun entry hmem => ?_
      refine Host.executor?_eq_none.mp hfree ?_
      exact hothers entry hmem ▸ List.mem_map_of_mem hmem
    simp [stepHost, hnone]

theorem remembers_of_found (hfound : world.host.executor? handle = some id) :
    world.Remembers handle id where
  listed order := ⟨_, rfl, List.mem_map_of_mem
    ((world.host.listing_perm order).mem_iff.mpr (Host.mem_of_executor? hfound))⟩
  finds := by
    rintro _ _ ⟨⟩ <;> simp [startHostCall, hfound]
  refuses := by
    rintro thread other refusal rfl
    simp [stepStart, hfound]
  waits := by
    have hsome : world.host.running.isEmpty = false := by
      rw [List.isEmpty_eq_false_iff]
      exact List.ne_nil_of_mem (Host.mem_of_executor? hfound)
    intro point hidling after next hstep
    cases point with
    | start =>
      obtain ⟨-, rfl⟩ := Prod.mk.inj (Option.some.inj hstep)
      exact ⟨_, rfl, rfl⟩
    | listening signals =>
      simp only [stepHost, hsome, Bool.false_eq_true, if_false] at hstep
      obtain ⟨-, rfl⟩ := Prod.mk.inj (Option.some.inj hstep)
      exact ⟨_, rfl, rfl⟩
    | asleep signals =>
      simp only [stepHost] at hstep
      split at hstep
      · cases hstep
      · obtain ⟨-, rfl⟩ := Prod.mk.inj (Option.some.inj hstep)
        exact ⟨_, rfl, rfl⟩
    | _ => cases hidling

end Host

end World

namespace System

variable {fragments : List Fragment} {host : Host} {system : System} {id : ExecutorId}
  {thread : ThreadId}

/-- A handle whose entry no frame keeps is known only where a panic unwound a run that was
hosted under it. -/
theorem ReachableUnder.free_of_unkept {permitted : Command → Prop}
    (hreach : (ofFragments fragments host).ReachableUnder permitted system)
    (hempty : host.running = []) {handle : Handle}
    (hunkept : ∀ thread, ∀ frame ∈ system.frames thread, ∀ id, frame.keeps? = some id →
      (system.executor id).handle ≠ handle)
    (hreturned : ∀ id thread, (system.executor id).handle = handle →
      ¬ system.Unwound id thread) : system.world.host.executor? handle = none := by
  rw [Host.executor?_eq_none]
  intro hmem
  obtain ⟨entry, hentry, rfl⟩ := List.mem_map.mp hmem
  rcases hreach.kept_or_unwound hempty hentry with hpos | ⟨thread, hunwound⟩
  · obtain ⟨thread, frame, hframe, hweighs⟩ := exists_of_total_pos _ hpos
    obtain ⟨id, hkeeps, hhandle⟩ := Frame.exists_keeps hweighs
    exact hunkept thread frame hframe id hkeeps ((hreach.handle_eq id).trans hhandle)
  · refine hreturned entry.2 thread ?_ hunwound
    rw [hreach.handle_eq]
    exact ((hreach.table hempty).handles entry hentry).symm

/-- A fragment is forgotten when the thread that hosted it has ended, unless a panic
unwound it.  Where its run returned, the host knows of its handle only by a start of the
same handle that got through later, or by a panic in another run under this handle.  Where
a panic left the run, the host remembers the fragment for ever. -/
theorem deregistered_unless_unwound (hempty : host.running = [])
    (hreach : (ofFragments fragments host).Reachable system)
    (hhosts : (system.stack thread).hosts = some id) (hended : system.frames thread = []) :
    ((∃ reply, system.signal thread = .replied reply) ∧
        ((∀ other, ∀ frame ∈ system.frames other, ∀ owner, frame.keeps? = some owner →
            (system.executor owner).handle ≠ (system.executor id).handle) →
          (∀ owner other, (system.executor owner).handle = (system.executor id).handle →
            ¬ system.Unwound owner other) →
          system.world.Forgets (system.executor id).handle)) ∨
      ((∃ payload, system.signal thread = .raised payload) ∧
        ∀ later, system.Reachable later →
          later.world.Remembers (system.executor id).handle id) := by
  have hunder := hreach.unrestricted
  rcases hunder.hosted_of_hosts hhosts with ⟨handle, point, hlast⟩ | ⟨-, hsignal⟩
  · rw [hended] at hlast
    cases hlast
  cases hends : system.signal thread with
  | go => exact absurd hends hsignal
  | replied reply =>
    refine .inl ⟨⟨reply, rfl⟩, fun hunkept hreturned => ?_⟩
    exact World.forgets_of_free (hunder.free_of_unkept hempty hunkept hreturned)
  | raised payload =>
    refine .inr ⟨⟨payload, rfl⟩, fun later hlater => ?_⟩
    have hunwound : system.Unwound id thread := ⟨hhosts, .inr ⟨hended, payload, hends⟩⟩
    have hstays := hunder.orphaned_later (hunder.orphaned_of_unwound hempty hunwound).1
      hlater.unrestricted
    have htable := (hunder.trans hlater.unrestricted).table hempty
    refine World.remembers_of_found ?_
    rw [hunder.handle_eq]
    exact Host.executor?_of_mem htable.nodup hstays.1

/-- A fragment whose context panics when it is closed is remembered after its thread has
ended, one whose run returns is forgotten. -/
theorem deregistered_unless_unwound_of_panicky_context :
    (∃ system, (ofFragments [panicky] { slots := { free := 1 } }).Reachable system ∧
      (system.stack 1).hosts = some 0 ∧ system.frames 1 = [] ∧
      ∀ later, system.Reachable later →
        later.world.Remembers (system.executor 0).handle 0) ∧
      ∃ system, (ofFragments [.vacant] { slots := { free := 1 } }).Reachable system ∧
        (system.stack 1).hosts = some 0 ∧ system.frames 1 = [] ∧
        system.world.Forgets (system.executor 0).handle := by
  constructor
  · obtain ⟨system, hreach, hend⟩ := exists_of_moves
      (ofFragments [panicky] { slots := { free := 1 } })
      (.call (.start 0 none) :: List.replicate 4 (.step 0) ++ List.replicate 40 (.step 1))
      (fun system => ((system.stack 1).hosts, system.frames 1, system.signal 1))
      (some 0, [], .raised (.text "boom")) rfl
    obtain ⟨hhosts, hended, hraised⟩ : _ ∧ _ ∧ _ := by simpa only [Prod.mk.injEq] using hend
    rcases deregistered_unless_unwound rfl hreach hhosts hended with ⟨⟨_, hreplied⟩, -⟩ | ⟨-, hstays⟩
    · rw [hraised] at hreplied
      cases hreplied
    · exact ⟨system, hreach, hhosts, hended, hstays⟩
  · obtain ⟨system, hreach, hthreads⟩ := exists_of_moves
      (ofFragments [.vacant] { slots := { free := 1 } })
      (.call (.start 0 none) :: List.replicate 4 (.step 0) ++ List.replicate 47 (.step 1))
      (fun system => system.threads)
      [{ frames := [], signal := .replied (.answer .started) },
        { frames := [], signal := .replied (.answer .none), hosts := some 0 }] rfl
    have hframes (thread : ThreadId) : system.frames thread = [] := by
      rw [frames_eq_getD, hthreads]
      rcases thread with _ | _ | thread <;> rfl
    have hsignal (thread : ThreadId) (payload : Payload) :
        system.signal thread ≠ .raised payload := by
      rw [System.signal, stack, hthreads]
      rcases thread with _ | _ | thread <;> exact fun hraised => by cases hraised
    have hhosts : (system.stack 1).hosts = some 0 := by rw [stack, hthreads]; rfl
    rcases deregistered_unless_unwound rfl hreach hhosts (hframes 1) with
      ⟨-, hforgets⟩ | ⟨⟨payload, hraised⟩, -⟩
    · refine ⟨system, hreach, hhosts, hframes 1, hforgets (fun other frame hmem => ?_) ?_⟩
      · rw [hframes other] at hmem
        cases hmem
      · rintro owner other - ⟨-, ⟨_, _, hrunning⟩ | ⟨-, payload, hraised⟩⟩
        · rw [hframes other] at hrunning
          cases hrunning
        · exact hsignal other payload hraised
    · exact absurd hraised (hsignal 1 payload)

end System

end FragmentLifecycle
