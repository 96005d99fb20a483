import FragmentLifecycle.Proofs.Echoes
import Mathlib.Data.List.Perm.Subperm

/-!
# A run and its shadow

A run with concealed fragments casts a shadow: a run without them that looks alike.  Every
thread that works for a fragment in sight has a counterpart in the shadow, which is at the same
place, or has gone on where the thread is held up by a concealed fragment
(`System.Abreast`).  A thread in the shadow that is to park puts it off, since nothing of what
wakes a thread spuriously need come to the shadow, until its counterpart parks for good.
Whatever the run does next, the shadow follows or stays where it is (`System.Shadows.step`).
-/

namespace FragmentLifecycle

section Frames

variable {handle : ExecutorId → Handle} {veiled : Handle → Bool} {frame frame' : Frame}

theorem Frame.Alike.in_sight (halike : frame.Alike handle veiled frame') :
    frame.isConcealed handle veiled = false := by
  cases halike with
  | plain _ hsight | run _ hsight | parked hsight => exact hsight
  | walk | cancelling | round | listening | asleep => rfl

theorem Frame.Alike.holds (halike : frame.Alike handle veiled frame') (lock : Lock) :
    frame'.holds lock = frame.holds lock := by
  cases halike <;> rfl

theorem Frame.Alike.slot (halike : frame.Alike handle veiled frame') :
    frame'.slot = frame.slot := by
  cases halike <;> rfl

theorem Frame.HeldUp.not_holds (hheld : frame.HeldUp handle veiled frame') (lock : Lock) :
    frame.holds lock = false ∧ frame'.holds lock = false := by
  cases hheld <;> exact ⟨rfl, rfl⟩

theorem Frame.HeldUp.in_sight (hheld : frame.HeldUp handle veiled frame') :
    frame.isConcealed handle veiled = false := by
  cases hheld <;> rfl

theorem Frame.HeldUp.slot (hheld : frame.HeldUp handle veiled frame') : frame'.slot = 0 := by
  cases hheld <;> rfl

/-- The executor that a lock belongs to. -/
def Lock.executor : Lock → ExecutorId
  | .setup id | .closing id => id

/-- A concealed frame holds locks of concealed fragments only. -/
theorem Frame.not_holds_of_concealed (hconcealed : frame.isConcealed handle veiled = true)
    {lock : Lock} (hsight : veiled (handle lock.executor) = false) :
    frame.holds lock = false := by
  by_contra hholds
  have hown : frame.isOwn lock.executor = true := by
    cases frame <;> simp [holds] at hholds <;> simp [isOwn, Lock.executor, hholds]
  rw [isConcealed_of_isOwn hown, hsight] at hconcealed
  cases hconcealed

end Frames

/-! ## The host -/

section Hosts

variable {handle : ExecutorId → Handle} {veiled : Handle → Bool} {thread thread' : ThreadId}
  {frame frame' : Frame} {signal signal' : Signal} {h h' later later' : Host} {next next' : Next}

theorem Frame.Alike.eq_of_hosting (halike : frame.Alike handle veiled frame')
    (hhosting : frame.isHosting = true) : frame' = frame := by
  cases halike with
  | plain => rfl
  | _ => cases hhosting

/-- A step of another frame leaves the host as it is, and starts no thread. -/
theorem HostStep.eq_of_outside (hstep : HostStep handle thread frame signal h next later)
    (houtside : frame.isHosting = false) : later = h ∧ next.forked = [] := by
  cases hstep
  case aside hforked _ => exact ⟨rfl, hforked⟩
  all_goals cases houtside

/-- Two hosts look alike to a thread and its counterpart. -/
structure Host.Alike (veiled : Handle → Bool) (thread thread' : ThreadId) (h h' : Host) :
    Prop where
  running : h'.running = h.inSight veiled
  granted : thread' ∈ h'.slots.granted ↔ thread ∈ h.slots.granted
  served : h.slots.waiting = [] ∧ h'.slots.waiting = []

/-- Two hosts look alike after a step of a frame in sight, where no start has to wait. -/
theorem HostStep.alike (hstep : HostStep handle thread frame signal h next later)
    (hstep' : HostStep handle thread' frame' signal' h' next' later')
    (hframe : frame.Alike handle veiled frame') (hnext : next.Alike handle veiled next')
    (hhosts : h.Alike veiled thread thread' h') (hfree : h.slots.free ≤ h'.slots.free)
    (hnodup : h.slots.granted.Nodup) (hnodup' : h'.slots.granted.Nodup)
    (hserved : later.slots.waiting = []) : later.Alike veiled thread thread' later' := by
  have hsight := hframe.in_sight
  obtain ⟨hrunning, hgranted, hwaiting, hwaiting'⟩ := hhosts
  cases hhosting : frame.isHosting with
  | false =>
    have hhosting' : frame'.isHosting = false := by
      cases hframe with
      | plain => exact hhosting
      | _ => rfl
    rw [(hstep.eq_of_outside hhosting).1, (hstep'.eq_of_outside hhosting').1]
    exact ⟨hrunning, hgranted, hwaiting, hwaiting'⟩
  | true =>
    obtain rfl := hframe.eq_of_hosting hhosting
    cases hstep
    case aside houtside _ _ =>
      rw [hhosting] at houtside
      cases houtside
    all_goals cases hstep'
    all_goals try
      rename_i houtside _ _
      cases houtside
      done
    case duplicate.registered | registered.duplicate =>
      -- both find the same executor under the handle
      cases hnext.frames with
      | cons hpushed => cases hpushed
    case slotRequested.slotRequested =>
      -- a free slot is granted at once on both sides
      cases hspare : h.slots.free with
      | zero => simp [Slots.request, hspare] at hserved
      | succ free =>
        obtain ⟨free', hspare'⟩ : ∃ free', h'.slots.free = free' + 1 :=
          Nat.exists_eq_succ_of_ne_zero (by omega)
        exact ⟨hrunning, by simp [Slots.request, hspare, hspare'],
          by simp [Slots.request, hspare, hspare', hwaiting, hwaiting']⟩
    case slotTaken.slotTaken =>
      exact ⟨hrunning, by simp [hnodup.mem_erase_iff, hnodup'.mem_erase_iff], hwaiting, hwaiting'⟩
    case registered.registered id _ _ _ =>
      have hveiled : veiled (handle id) = false := hsight
      exact ⟨by simp [Host.insert, Host.inSight, hrunning, hveiled], hgranted, hwaiting, hwaiting'⟩
    case withdrawn.withdrawn =>
      refine ⟨?_, hgranted, hwaiting, hwaiting'⟩
      simp only [Host.remove, Host.inSight, hrunning, List.filter_filter, Bool.and_comm]
    case deregistered.deregistered =>
      refine ⟨?_, ?_, ?_⟩
      · simp only [Host.running_deregister, Host.inSight, hrunning, List.filter_filter,
          Bool.and_comm]
      · simpa only [Host.slots_deregister] using hgranted
      · simpa only [Host.slots_deregister] using ⟨hwaiting, hwaiting'⟩
    case rejected.rejected | spawnFailed.spawnFailed | slotReturned.slotReturned
      | slotDropped.slotDropped =>
      exact ⟨hrunning, by simpa [Slots.release, hwaiting, hwaiting'] using hgranted,
        by simp [Slots.release, hwaiting, hwaiting']⟩
    all_goals exact ⟨hrunning, hgranted, hwaiting, hwaiting'⟩

end Hosts

/-- The watches after a step of a run, which registers its own and takes it away. -/
def RunPoint.watchesAfter (watch : Watch) (listens : Bool) :
    RunPoint → List Watch → List Watch
  | .watch, watches => watches ++ [watch]
  | .unwatch, watches =>
      if listens then watches.filter fun other => other.executor != watch.executor else watches
  | _, watches => watches

/-! ## Worlds side by side -/

/-- The second world is the first one without its concealed fragments; no start waits for a slot
in either of them. -/
structure World.Shadows (handle : ExecutorId → Handle) (veiled : Handle → Bool)
    (world shadow : World) : Prop where
  executors : ∀ id, veiled (handle id) = false →
    (shadow.executors id).seen veiled = (world.executors id).seen veiled
  running : shadow.host.running = world.host.inSight veiled
  watches : shadow.registry.snapshot = world.watchesInSight handle veiled
  served : world.host.slots.waiting = [] ∧ shadow.host.slots.waiting = []
  exit : world.exit = none → shadow.exit = none

namespace System

/-! ## Threads side by side -/

/-- A thread is as it was. -/
structure Stays (system after : System) (thread : ThreadId) : Prop where
  frames : after.frames thread = system.frames thread
  signal : after.signal thread = system.signal thread
  principal : after.world.principals thread = system.world.principals thread

theorem Stays.refl (system : System) (thread : ThreadId) : system.Stays system thread :=
  ⟨rfl, rfl, rfl⟩

/-- A thread is parked for a fragment in sight, and has no token. -/
def Slumbers (handle : ExecutorId → Handle) (veiled : Handle → Bool) (system : System)
    (thread : ThreadId) : Prop :=
  ∃ id call rest, system.frames thread = .call id call .parked :: rest ∧
    veiled (handle id) = false ∧ system.world.tokens thread = false

/-- A thread and its counterpart: they are at the same place, or the thread is held up on its
way by concealed frames and the counterpart goes on, or the thread has been given up.  The
threads `asleep` are parked on both sides, and no other one is parked in the shadow. -/
inductive Abreast (handle : ExecutorId → Handle) (veiled : Handle → Bool)
    (asleep : ThreadId → Prop) (system : System) (thread : ThreadId) (shadow : System)
    (thread' : ThreadId) : Prop
  | level (hawake : ¬ asleep thread)
      (hframes : List.Forall₂ (Frame.Alike handle veiled) (system.frames thread)
        (shadow.frames thread'))
      (hsignal : (system.signal thread).Alike veiled (shadow.signal thread'))
      (hprincipal : shadow.world.principals thread' = system.world.principals thread)
  | held (inner : List Frame) (walker walker' : Frame) (rest rest' : List Frame)
      (hframes : system.frames thread = inner ++ walker :: rest)
      (hframes' : shadow.frames thread' = walker' :: rest')
      (hinner : ∀ frame ∈ inner, frame.isConcealed handle veiled = true)
      (hheld : walker.HeldUp handle veiled walker')
      (hrest : List.Forall₂ (Frame.Alike handle veiled) rest rest')
      (hreplied : inner = [] → ∃ reply, system.signal thread = .replied reply)
      (hgo : shadow.signal thread' = .go)
      (hprincipal : shadow.world.principals thread' =
        ambient inner (system.world.principals thread))
  | left (signals : Nat) (hframes : system.frames thread = [])
      (hframes' : shadow.frames thread' = [.host .waitIdle (.listening signals)])
      (hgo : system.signal thread = .go)
  | slept (hasleep : asleep thread) (id : ExecutorId) (call : Call) (rest rest' : List Frame)
      (hframes : system.frames thread = .call id call .parked :: rest)
      (hframes' : shadow.frames thread' = .call id call .parked :: rest')
      (hsight : veiled (handle id) = false)
      (hrest : List.Forall₂ (Frame.Alike handle veiled) rest rest')
      (hgo : system.signal thread = .go) (hgo' : shadow.signal thread' = .go)
      (htoken : shadow.world.tokens thread' = false)
      (hprincipal : shadow.world.principals thread' = system.world.principals thread)

section Abreast

variable {handle : ExecutorId → Handle} {veiled : Handle → Bool} {asleep : ThreadId → Prop}
  {system after shadow after' : System} {thread thread' : ThreadId}

theorem Abreast.of_stays (habreast : Abreast handle veiled asleep system thread shadow thread')
    (hstays : system.Stays after thread) (hstays' : shadow.Stays after' thread')
    (htoken : asleep thread → shadow.world.tokens thread' = false →
      after'.world.tokens thread' = false) :
    Abreast handle veiled asleep after thread after' thread' := by
  cases habreast with
  | level hawake hframes hsignal hprincipal =>
    refine .level hawake ?_ ?_ ?_
    · rw [hstays.frames, hstays'.frames]
      exact hframes
    · rw [hstays.signal, hstays'.signal]
      exact hsignal
    · rw [hstays.principal, hstays'.principal]
      exact hprincipal
  | held inner walker walker' rest rest' hframes hframes' hinner hheld hrest hreplied hgo
      hprincipal =>
    refine .held inner walker walker' rest rest' (hstays.frames.trans hframes)
      (hstays'.frames.trans hframes') hinner hheld hrest ?_ (hstays'.signal.trans hgo) ?_
    · rw [hstays.signal]
      exact hreplied
    · rw [hstays.principal, hstays'.principal]
      exact hprincipal
  | left signals hframes hframes' hgo =>
    exact .left signals (hstays.frames.trans hframes) (hstays'.frames.trans hframes')
      (hstays.signal.trans hgo)
  | slept hasleep id call rest rest' hframes hframes' hsight hrest hgo hgo' hquiet hprincipal =>
    refine .slept hasleep id call rest rest' (hstays.frames.trans hframes)
      (hstays'.frames.trans hframes') hsight hrest (hstays.signal.trans hgo)
      (hstays'.signal.trans hgo') (htoken hasleep hquiet) ?_
    rw [hstays.principal, hstays'.principal]
    exact hprincipal

theorem Abreast.of_iff {asleep' : ThreadId → Prop}
    (habreast : Abreast handle veiled asleep system thread shadow thread')
    (hsame : asleep thread ↔ asleep' thread) :
    Abreast handle veiled asleep' system thread shadow thread' := by
  cases habreast with
  | level hawake hframes hsignal hprincipal =>
    exact .level (mt hsame.mpr hawake) hframes hsignal hprincipal
  | held inner walker walker' rest rest' hframes hframes' hinner hheld hrest hreplied hgo
      hprincipal =>
    exact .held inner walker walker' rest rest' hframes hframes' hinner hheld hrest hreplied hgo
      hprincipal
  | left signals hframes hframes' hgo => exact .left signals hframes hframes' hgo
  | slept hasleep id call rest rest' hframes hframes' hsight hrest hgo hgo' htoken hprincipal =>
    exact .slept (hsame.mp hasleep) id call rest rest' hframes hframes' hsight hrest hgo hgo'
      htoken hprincipal

/-- Stacks that are alike agree in what any two frames have in common that are alike. -/
theorem map_eq_of_alike {α : Type} {weight : Frame → α} {frames frames' : List Frame}
    (hframes : List.Forall₂ (Frame.Alike handle veiled) frames frames')
    (hweight : ∀ {frame frame'}, Frame.Alike handle veiled frame frame' →
      weight frame' = weight frame) : frames'.map weight = frames.map weight := by
  induction hframes with
  | nil => rfl
  | cons hframe _ ih => rw [List.map_cons, List.map_cons, hweight hframe, ih]

/-- A thread and its counterpart hold the same locks of fragments in sight. -/
theorem Abreast.holds_iff (habreast : Abreast handle veiled asleep system thread shadow thread')
    {lock : Lock} (hsight : veiled (handle lock.executor) = false) :
    (∃ frame ∈ shadow.frames thread', frame.holds lock = true) ↔
      ∃ frame ∈ system.frames thread, frame.holds lock = true := by
  have halike {frames frames' : List Frame}
      (hframes : List.Forall₂ (Frame.Alike handle veiled) frames frames') :
      (frames'.any fun frame => frame.holds lock) = frames.any fun frame => frame.holds lock := by
    simpa [Function.comp_def] using
      congrArg (fun held => held.any id) (map_eq_of_alike hframes fun hframe => hframe.holds lock)
  rw [← List.any_eq_true, ← List.any_eq_true]
  cases habreast with
  | level _ hframes => rw [halike hframes]
  | held inner walker walker' rest rest' hframes hframes' hinner hheld hrest =>
    have hnone : (inner.any fun frame => frame.holds lock) = false :=
      List.any_eq_false.mpr fun frame hmem => by
        simp [Frame.not_holds_of_concealed (hinner frame hmem) hsight]
    rw [hframes, hframes', List.any_append, hnone, List.any_cons, List.any_cons,
      (hheld.not_holds lock).1, (hheld.not_holds lock).2, halike hrest, Bool.false_or,
      Bool.false_or]
  | left signals hframes hframes' =>
    rw [hframes, hframes']
    rfl
  | slept _ id call rest rest' hframes hframes' _ hrest =>
    rw [hframes, hframes', List.any_cons, List.any_cons, halike hrest]

/-- A counterpart holds no more slots than its thread. -/
theorem Abreast.slotOf_le (habreast : Abreast handle veiled asleep system thread shadow thread') :
    shadow.slotOf thread' ≤ system.slotOf thread := by
  cases habreast with
  | level _ hframes =>
    rw [slotOf, slotOf, map_eq_of_alike hframes Frame.Alike.slot]
  | held inner walker walker' rest rest' hframes hframes' _ hheld hrest =>
    rw [slotOf, slotOf, hframes, hframes', List.map_append, List.sum_append, List.map_cons,
      List.map_cons, List.sum_cons, List.sum_cons, hheld.slot,
      map_eq_of_alike hrest Frame.Alike.slot]
    omega
  | left signals hframes hframes' =>
    rw [slotOf, hframes']
    exact Nat.zero_le _
  | slept _ id call rest rest' hframes hframes' _ hrest =>
    rw [slotOf, slotOf, hframes, hframes', List.map_cons, List.map_cons, List.sum_cons,
      List.sum_cons, map_eq_of_alike hrest Frame.Alike.slot]

end Abreast

/-! ## Threads that stay as they are -/

section Stays

variable {system after : System} {mover thread : ThreadId} {frame : Frame} {rest : List Frame}
  {next : Next}

theorem lt_length_of_frames (hframes : system.frames thread ≠ []) :
    thread < system.threads.length := by
  by_contra hbeyond
  rw [System.frames, stack, List.getElem?_eq_none (Nat.le_of_not_lt hbeyond)] at hframes
  exact hframes rfl

/-- A step of another thread leaves a thread as it was. -/
theorem Advance.stays (hadvance : system.Advance after mover frame rest next)
    (hstep : system.step mover = some after) (hborn : thread < system.threads.length)
    (hother : thread ≠ mover) : system.Stays after thread := by
  have hprincipal := (Frame.step_principal hadvance.step).1 thread hother
  cases next with
  | fork reply started hosts =>
    have hkept := (stack_of_fork hstep hadvance).2.2 thread hother (Nat.ne_of_lt hborn)
    exact ⟨congrArg Thread.frames hkept, congrArg Thread.signal hkept, hprincipal⟩
  | goto | call | reply | raise =>
    obtain ⟨hframes, hsignal⟩ := hadvance.same_of_unforked hstep rfl hother
    exact ⟨hframes, hsignal, hprincipal⟩

theorem stays_of_call (system : System) (command : Command)
    (hborn : thread < system.threads.length) : system.Stays (system.call command) thread := by
  have hkept := (stack_of_call system command).2.2 thread (Nat.ne_of_lt hborn)
  exact ⟨congrArg Thread.frames hkept, congrArg Thread.signal hkept, rfl⟩

end Stays

/-! ## The shadow of a system -/

/-- The process was ended by a concealed fragment. -/
def IsBroughtDown (handle : ExecutorId → Handle) (veiled : Handle → Bool) (system : System) :
    Prop :=
  ∃ thread id exhaustion, .call id (.exhausted exhaustion) .enter ∈ system.frames thread ∧
    veiled (handle id) = true

/-- The second system is the first one without its concealed fragments.  The threads in
`names`, in the order in which they began, have counterparts there; those `asleep` are parked
for good. -/
structure Shadows (handle : ExecutorId → Handle) (veiled : Handle → Bool)
    (asleep : ThreadId → Prop) (names : List ThreadId) (system shadow : System) : Prop where
  sublist : names.Sublist (List.range system.threads.length)
  length : shadow.threads.length = names.length
  abreast : ∀ {thread thread'}, names[thread']? = some thread →
    Abreast handle veiled asleep system thread shadow thread'
  concealed : ∀ {thread}, thread ∉ names →
    ∀ frame ∈ system.frames thread, frame.isConcealed handle veiled = true
  granted : ∀ {thread thread'}, names[thread']? = some thread →
    (thread' ∈ shadow.world.host.slots.granted ↔ thread ∈ system.world.host.slots.granted)
  workers : ∀ id, veiled (handle id) = false → ∀ thread',
    (shadow.executor id).worker = some thread' →
      ∃ thread, names[thread']? = some thread ∧ (system.executor id).worker = some thread
  worlds : system.world.Shadows handle veiled shadow.world
  exited : system.world.exit ≠ none → shadow.world.exit = system.world.exit ∨
    system.IsBroughtDown handle veiled

namespace Shadows

variable {handle : ExecutorId → Handle} {veiled : Handle → Bool} {asleep : ThreadId → Prop}
  {names : List ThreadId} {system shadow : System} {thread thread' other' : ThreadId}

theorem lt_length (hshadows : Shadows handle veiled asleep names system shadow)
    (hname : names[thread']? = some thread) : thread < system.threads.length :=
  List.mem_range.mp (hshadows.sublist.subset (List.mem_of_getElem? hname))

theorem lt_length' (hshadows : Shadows handle veiled asleep names system shadow)
    (hname : names[thread']? = some thread) : thread' < shadow.threads.length :=
  hshadows.length ▸ (List.getElem?_eq_some_iff.mp hname).1

/-- Threads have counterparts of their own. -/
theorem injective (hshadows : Shadows handle veiled asleep names system shadow)
    (hname : names[thread']? = some thread) (hother : names[other']? = some thread) :
    thread' = other' := by
  have hnodup : names.Nodup := List.nodup_range.sublist hshadows.sublist
  exact (List.getElem?_inj (List.getElem?_eq_some_iff.mp hname).1 hnodup).mp
    (hname.trans hother.symm)

theorem exists_name (hshadows : Shadows handle veiled asleep names system shadow)
    (hborn : thread' < shadow.threads.length) : ∃ thread, names[thread']? = some thread :=
  ⟨_, List.getElem?_eq_getElem (hshadows.length ▸ hborn)⟩

/-! ### Locks -/

/-- A lock of a fragment in sight is held by a thread or by its counterpart, or by none. -/
theorem exists_holder_iff (hshadows : Shadows handle veiled asleep names system shadow)
    {lock : Lock} (hsight : veiled (handle lock.executor) = false) {among among' : ThreadId → Prop}
    (hamong : ∀ {owner owner'}, names[owner']? = some owner → (among' owner' ↔ among owner)) :
    (∃ owner', among' owner' ∧ ∃ frame ∈ shadow.frames owner', frame.holds lock = true) ↔
      ∃ owner, among owner ∧ ∃ frame ∈ system.frames owner, frame.holds lock = true := by
  constructor
  · rintro ⟨owner', howner', hholds⟩
    obtain ⟨frame, hmem, -⟩ := id hholds
    obtain ⟨owner, hname⟩ := hshadows.exists_name (lt_length_of_frames (List.ne_nil_of_mem hmem))
    exact ⟨owner, (hamong hname).mp howner', ((hshadows.abreast hname).holds_iff hsight).mp hholds⟩
  · rintro ⟨owner, howner, frame, hmem, hholds⟩
    have hkept : owner ∈ names := by
      by_contra hgone
      have hconcealed := hshadows.concealed hgone frame hmem
      rw [Frame.not_holds_of_concealed hconcealed hsight] at hholds
      cases hholds
    obtain ⟨owner', hname⟩ := List.getElem?_of_mem hkept
    exact ⟨owner', (hamong hname).mpr howner,
      ((hshadows.abreast hname).holds_iff hsight).mpr ⟨frame, hmem, hholds⟩⟩

theorem heldElsewhere_eq (hshadows : Shadows handle veiled asleep names system shadow)
    (hname : names[thread']? = some thread) {lock : Lock}
    (hsight : veiled (handle lock.executor) = false) :
    shadow.heldElsewhere thread' lock = system.heldElsewhere thread lock := by
  rw [Bool.eq_iff_iff, heldElsewhere_iff, heldElsewhere_iff]
  refine hshadows.exists_holder_iff hsight fun {owner owner'} howner => not_congr ?_
  constructor
  · rintro rfl
    exact Option.some.inj (howner.symm.trans hname)
  · rintro rfl
    exact hshadows.injective howner hname

theorem held_eq (hshadows : Shadows handle veiled asleep names system shadow) {lock : Lock}
    (hsight : veiled (handle lock.executor) = false) : shadow.held lock = system.held lock := by
  rw [Bool.eq_iff_iff, held_iff, held_iff]
  simpa using hshadows.exists_holder_iff hsight fun {_ _} _ => (Iff.rfl : True ↔ True)

section Reachable

variable {fragments : List Fragment} {host : Host} {permitted permitted' : Command → Prop}

/-- A thread sees of its world what its counterpart sees. -/
theorem mirrored (hshadows : Shadows (handleIn fragments) veiled asleep names system shadow)
    (hreach : (ofFragments fragments host).ReachableUnder permitted system)
    (hempty : host.running = []) (hexit : system.world.exit = none)
    (hname : names[thread']? = some thread)
    (hprincipal : shadow.world.principals thread' = system.world.principals thread) :
    Mirrored (handleIn fragments) veiled system.world (system.view thread) thread
      shadow.world (shadow.view thread') thread' where
  executors := hshadows.worlds.executors
  principal := hprincipal
  exit := (hshadows.worlds.exit hexit).trans hexit.symm
  setup _ hsight := hshadows.heldElsewhere_eq hname hsight
  closing _ hsight := hshadows.held_eq hsight
  running := hshadows.worlds.running
  handles := (hreach.table hempty).handles
  named := hreach.handle_eq
  watches := hshadows.worlds.watches
  granted := hshadows.granted hname

end Reachable

end Shadows

/-! ## Slots -/

theorem map_threads_eq {α : Type} (system : System) (measure : Thread → α) :
    system.threads.map measure =
      (List.range system.threads.length).map fun thread => measure (system.stack thread) := by
  refine List.ext_getElem (by simp) fun thread hthread _ => ?_
  rw [List.length_map] at hthread
  simp [stack, hthread]

theorem total_slot_eq (system : System) :
    system.total Frame.slot = ((List.range system.threads.length).map system.slotOf).sum := by
  rw [total, weigh, map_threads_eq]
  rfl

namespace Shadows

variable {fragments : List Fragment} {host : Host} {permitted permitted' : Command → Prop}
  {handle : ExecutorId → Handle} {veiled : Handle → Bool} {asleep : ThreadId → Prop}
  {names : List ThreadId} {system shadow : System} {thread thread' : ThreadId}

/-- The frames of the shadow hold no more slots than those of the system. -/
theorem total_slot_le (hshadows : Shadows handle veiled asleep names system shadow) :
    shadow.total Frame.slot ≤ system.total Frame.slot := by
  have hpairs : List.Forall₂ (· ≤ ·)
      ((List.range shadow.threads.length).map shadow.slotOf) (names.map system.slotOf) := by
    rw [List.forall₂_iff_get]
    refine ⟨by simp [hshadows.length], fun thread' hborn hborn' => ?_⟩
    rw [List.length_map] at hborn'
    simpa using (hshadows.abreast (List.getElem?_eq_getElem hborn')).slotOf_le
  rw [total_slot_eq, total_slot_eq]
  exact hpairs.sum_le_sum.trans
    ((hshadows.sublist.map system.slotOf).sum_le_sum fun _ _ => Nat.zero_le _)

/-- No more starts of the shadow have a grant than starts of the system. -/
theorem length_granted_le (hshadows : Shadows handle veiled asleep names system shadow)
    (hqueued : shadow.Queued) : shadow.world.host.slots.granted.length ≤
      system.world.host.slots.granted.length := by
  have hname : ∀ thread' ∈ shadow.world.host.slots.granted,
      ∃ thread, names[thread']? = some thread := by
    intro thread' hgranted
    obtain ⟨id, refusal, hframes⟩ := hqueued.waits thread' (List.mem_append_left _ hgranted)
    exact hshadows.exists_name (lt_length_of_frames (by simp [hframes]))
  have hnodup : (shadow.world.host.slots.granted.map fun thread' =>
      names[thread']?.getD 0).Nodup := by
    refine List.Nodup.map_on ?_ (List.nodup_append.mp hqueued.nodup).1
    intro first hfirst second hsecond hsame
    obtain ⟨thread, hname₁⟩ := hname first hfirst
    obtain ⟨other, hname₂⟩ := hname second hsecond
    rw [hname₁, hname₂] at hsame
    obtain rfl : thread = other := hsame
    exact hshadows.injective hname₁ hname₂
  have hsubset : (shadow.world.host.slots.granted.map fun thread' =>
      names[thread']?.getD 0) ⊆ system.world.host.slots.granted := by
    intro thread hmem
    obtain ⟨thread', hgranted, rfl⟩ := List.mem_map.mp hmem
    obtain ⟨thread, hfound⟩ := hname thread' hgranted
    rw [hfound]
    exact (hshadows.granted hfound).mp hgranted
  simpa using (List.Nodup.subperm hnodup hsubset).length_le

/-- As many slots are free in the shadow as in the system, or more. -/
theorem free_le (hshadows : Shadows handle veiled asleep names system shadow)
    (hreach : (ofFragments fragments host).ReachableUnder permitted system)
    (hreach' : (ofFragments fragments host).ReachableUnder permitted' shadow)
    (hqueue : host.slots.queue = []) :
    system.world.host.slots.free ≤ shadow.world.host.slots.free := by
  have htotal := hreach.slots_total
  have htotal' := hreach'.slots_total
  have hframes := hshadows.total_slot_le
  have hgranted := hshadows.length_granted_le (hreach'.queued hqueue)
  simp only [Slots.spare] at htotal htotal'
  omega

end Shadows

/-! ## Watches -/

section Watches

variable {fragments : List Fragment} {host : Host} {permitted : Command → Prop}
  {system after : System} {thread : ThreadId} {rest : List Frame} {next : Next}
  {id : ExecutorId} {l : Option ListenerId} {point : RunPoint}

/-- A run takes away all that it has registered. -/
theorem ReachableUnder.remove_own
    (hreach : (ofFragments fragments host).ReachableUnder permitted system) {added : ListenerId}
    (hmem : .run id (some added) .unwatch ∈ system.frames thread) :
    (system.world.registry.remove added).2.snapshot =
      system.world.registry.snapshot.filter fun other => other.executor != id := by
  have hwatches := (hreach.watches_of_run hmem).2 rfl
  rw [Registry.snapshot, Registry.remove, Registry.snapshot, List.filter_map]
  congr 1
  refine List.filter_congr fun entry hlisted => ?_
  rw [Function.comp_apply, Bool.eq_iff_iff, bne_iff_ne, bne_iff_ne]
  refine not_congr ⟨fun hsame => ?_, fun hsame => ?_⟩
  · rw [hreach.keyed.unique entry hlisted _ hwatches hsame]
    rfl
  · obtain ⟨-, ⟨owner, hunwound⟩ | ⟨owner, point, hrun, -⟩⟩ := hreach.owned hlisted
    · rw [hsame, hreach.course_of_run hmem (by simp)] at hunwound
      cases hunwound
    · rw [hsame] at hrun
      have hlive : point ≠ .start := by
        rintro rfl
        cases (hreach.watches_of_run hrun).1
      obtain ⟨-, hadded, -⟩ := hreach.live_unique hmem (by simp) hrun hlive
      exact (Option.some.inj hadded).symm

theorem ReachableUnder.snapshot_of_run
    (hreach : (ofFragments fragments host).ReachableUnder permitted system)
    (hadvance : system.Advance after thread (.run id l point) rest next) :
    after.world.registry.snapshot =
      point.watchesAfter (system.watch id) l.isSome system.world.registry.snapshot := by
  rw [Frame.step_registry hadvance.step]
  cases point
  case watch =>
    simp [Frame.registryAfter, RunPoint.watchesAfter, Registry.snapshot, Registry.add, watch,
      executor]
  case unwatch =>
    cases l with
    | none => rfl
    | some added => exact hreach.remove_own (hadvance.frames ▸ List.mem_cons_self)
  all_goals rfl

end Watches

end System

end FragmentLifecycle
