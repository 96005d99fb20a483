import FragmentLifecycle.Proofs.OrphanedEntries
import FragmentLifecycle.Proofs.SlotLedger

/-!
# Conservation of slots

The slots that are free, those of starts and those of fragments are always as many as the
settings ask for (`System.slots_conserved`).  Where every run returns and every thread can
be had, an entry of the table is kept by a thread that still holds its slot.  So there are
no more entries than slots, and a start is turned away only by a fragment that has not
finished.
-/

namespace FragmentLifecycle

/-- Whether a call asks for no thread that the system refuses. -/
def Command.Spawns : Command → Prop
  | .start _ refusal => refusal = none
  | _ => True

/-- Weighs the threads of fragments that are inside the run. -/
def Frame.insideRun : Frame → Nat
  | .hosted _ _ .running => 1
  | _ => 0

theorem Frame.insideRun_le (frame : Frame) : frame.insideRun ≤ frame.slotOfFragment := by
  cases frame with
  | hosted id handle point => cases point <;> exact Nat.le_of_ble_eq_true rfl
  | _ => exact Nat.le_refl 0

/-- A frame that keeps an entry holds a slot, but for a start that had no thread. -/
theorem Frame.slot_of_keeps {frame : Frame} {id : ExecutorId} (hkeeps : frame.keeps? = some id)
    (hspawns : ∀ owner refusal, frame ≠ .start owner refusal .withdraw) : frame.slot = 1 := by
  cases frame with
  | start owner refusal point =>
    cases point with
    | spawn => rfl
    | withdraw => exact absurd rfl (hspawns owner refusal)
    | _ => cases hkeeps
  | hosted => rfl
  | _ => cases hkeeps

/-- A frame keeps one entry at most of those that are listed once. -/
theorem Frame.sum_keeping_le (handle : ExecutorId → Handle) (frame : Frame)
    {handles : List Handle} (hnodup : handles.Nodup) :
    (handles.map fun wanted => frame.keeping handle wanted).sum ≤
      if frame.keeps?.isSome then 1 else 0 := by
  induction handles with
  | nil => exact Nat.zero_le _
  | cons wanted rest ih =>
    obtain ⟨hnew, hrest⟩ := List.nodup_cons.mp hnodup
    rw [List.map_cons, List.sum_cons]
    by_cases hkept : frame.keeps?.map handle = some wanted
    · have hothers : (rest.map fun other => frame.keeping handle other).sum = 0 := by
        refine List.sum_eq_zero fun value hvalue => ?_
        obtain ⟨other, hother, rfl⟩ := List.mem_map.mp hvalue
        have hne : wanted ≠ other := fun hsame => hnew (hsame ▸ hother)
        simp [keeping, hkept, hne]
      obtain ⟨id, hkeeps, -⟩ := Option.map_eq_some_iff.mp hkept
      rw [hothers, keeping, if_pos hkept, hkeeps]
      exact Nat.le_refl 1
    · rw [keeping, if_neg hkept, Nat.zero_add]
      exact ih hrest

/-- A start takes its entry back where the system has refused it a thread. -/
theorem HostStep.refused_of_withdraw {handle : ExecutorId → Handle} {thread : ThreadId}
    {frame : Frame} {signal : Signal} {h h' : Host} {next : Next} {id : ExecutorId}
    {refusal : Option String} (hstep : HostStep handle thread frame signal h next h')
    (hpushed : .start id refusal .withdraw ∈ next.frames) : refusal ≠ none := by
  cases hstep
  case aside hnone => cases hnone _ hpushed
  case startEnds hends _ => simp [hends] at hpushed
  case spawnFailed =>
    obtain ⟨-, rfl⟩ : id = _ ∧ refusal = _ := by simpa using hpushed
    exact Option.some_ne_none _
  all_goals simp at hpushed

namespace System

/-- How many fragments are inside their run. -/
def insideRun (system : System) : Nat :=
  system.total Frame.insideRun

section Totals

variable {system : System}

theorem total_mono {first second : Frame → Nat}
    (hle : ∀ thread, ∀ frame ∈ system.frames thread, first frame ≤ second frame) :
    system.total first ≤ system.total second := by
  refine List.sum_le_sum fun stack hstack => List.sum_le_sum fun frame hframe => ?_
  obtain ⟨thread, hthread⟩ := List.mem_iff_getElem?.mp hstack
  exact hle thread frame (by simpa [System.frames, System.stack, hthread] using hframe)

theorem sum_total_keeping (handle : ExecutorId → Handle) (handles : List Handle) :
    (handles.map fun wanted => system.total (Frame.keeping handle wanted)).sum =
      system.total fun frame => (handles.map fun wanted => frame.keeping handle wanted).sum := by
  induction handles with
  | nil => exact (total_eq_zero _ fun _ _ _ => rfl).symm
  | cons wanted rest ih =>
    simp only [List.map_cons, List.sum_cons, ih, total_add]

/-- Entries that are kept by frames with a slot are no more than the slots that are held. -/
theorem length_le_total_slot {handle : ExecutorId → Handle} {handles : List Handle}
    (hnodup : handles.Nodup)
    (hkept : ∀ wanted ∈ handles, 0 < system.total (Frame.keeping handle wanted))
    (hslot : ∀ thread, ∀ frame ∈ system.frames thread, ∀ id, frame.keeps? = some id →
      frame.slot = 1) : handles.length ≤ system.total Frame.slot := by
  calc handles.length = (handles.map fun _ => 1).sum := by simp
    _ ≤ (handles.map fun wanted => system.total (Frame.keeping handle wanted)).sum :=
        List.sum_le_sum fun wanted hmem => hkept wanted hmem
    _ = system.total fun frame => (handles.map fun wanted => frame.keeping handle wanted).sum :=
        sum_total_keeping handle handles
    _ ≤ system.total Frame.slot := total_mono fun thread frame hmem => by
        refine (frame.sum_keeping_le handle hnodup).trans ?_
        cases hkeeps : frame.keeps? with
        | none => exact Nat.zero_le _
        | some id => exact (hslot thread frame hmem id hkeeps).ge

end Totals

section Conservation

variable {fragments : List Fragment} {host : Host} {permitted : Command → Prop}
  {system : System} {thread : ThreadId} {id : ExecutorId}

theorem ReachableUnder.refused_of_withdraw
    (hreach : (ofFragments fragments host).ReachableUnder permitted system)
    {refusal : Option String} (hmem : .start id refusal .withdraw ∈ system.frames thread) :
    refusal ≠ none := by
  refine hreach.invariant (fun system => ∀ thread id refusal,
    .start id refusal .withdraw ∈ system.frames thread → refusal ≠ none) ?_ ?_ ?_ thread id refusal
    hmem
  · intro thread id refusal hmem
    cases hmem
  · intro system after mover root hturn hholds thread id refusal hmem
    by_cases hthread : thread = mover
    · subst hthread
      rcases hturn.own with ⟨-, hbegun, -⟩ | ⟨-, hnone⟩
      · obtain ⟨command, rfl⟩ := hturn.began hbegun
        rw [hbegun] at hmem
        have hframe := List.mem_singleton.mp hmem
        cases command <;> cases hframe
      · simp [hnone] at hmem
    · rw [(hturn.others thread hthread).1] at hmem
      exact hholds thread id refusal hmem
  · intro system after mover frame rest next hreach hadvance hholds thread id refusal hmem
    rcases hadvance.mem_frames_cases hmem with ⟨-, hpushed⟩ | ⟨-, hforked⟩ | hbeside
    · exact (hreach.host_step hadvance).refused_of_withdraw hpushed
    · cases next with
      | fork reply started hosts =>
        obtain ⟨rfl, -⟩ := (hreach.host_step hadvance).forked_eq
        simp at hforked
      | goto | call | reply | raise => cases hforked
    · exact hholds thread id refusal (hadvance.mem_of_beside hbeside)

/-- Where every thread can be had, no start takes its entry back. -/
theorem ReachableUnder.not_withdrawn
    (hreach : (ofFragments fragments host).ReachableUnder Command.Spawns system)
    {refusal : Option String} : .start id refusal .withdraw ∉ system.frames thread := by
  intro hmem
  refine hreach.refused_of_withdraw hmem ?_
  rcases (hreach.linked thread).last_or_awaited hmem with hlast | ⟨caller, -, hawaits⟩
  · refine hreach.outermost (fun role => ∀ owner refusal, role = .start owner refusal →
      refusal = none) ?_ (by simp) thread hlast id refusal rfl
    rintro (_ | _ | ⟨owner, refusal⟩ | _) hspawns owner' refusal' hrole
    · cases hrole
    · cases hrole
    · obtain ⟨-, rfl⟩ := Role.start.inj hrole
      exact hspawns
    · cases hrole
  · cases hawaits.not_hosting

/-- A thread that keeps the entry of an executor and still holds its slot. -/
def Occupies (system : System) (thread : ThreadId) (id : ExecutorId) : Prop :=
  system.slotOf thread = 1 ∧ ∃ frame ∈ system.frames thread, frame.keeps? = some id

section Returning

variable (hreach : (ofFragments fragments host).ReachableUnder Command.Spawns system)
  (hempty : host.running = [])
  (hreturned : ∀ id thread, (system.executor id).course ≠ .unwound thread)

include hreach hempty hreturned

/-- Every entry is kept where no run was unwound. -/
theorem kept_of_returned {entry : Handle × ExecutorId}
    (hmem : entry ∈ system.world.host.running) :
    0 < system.total (Frame.keeping (handleIn fragments) entry.1) := by
  refine (hreach.kept_or_unwound hempty hmem).resolve_right ?_
  rintro ⟨thread, hunwound⟩
  obtain ⟨-, owner, hcourse⟩ := hreach.orphaned_of_unwound hempty hunwound
  exact hreturned entry.2 owner hcourse

/-- So its thread has not given the slot back. -/
theorem occupied_of_returned {entry : Handle × ExecutorId}
    (hmem : entry ∈ system.world.host.running) :
    ∃ thread, system.Occupies thread entry.2 := by
  have htable := hreach.table hempty
  obtain ⟨thread, frame, hframe, hpos⟩ :=
    exists_of_total_pos _ (kept_of_returned hreach hempty hreturned hmem)
  obtain ⟨id, hkeeps, hhandle⟩ := Frame.exists_keeps hpos
  obtain rfl : (handleIn fragments id, id) = entry :=
    List.inj_on_of_nodup_map htable.nodup (htable.listed thread frame hframe id hkeeps) hmem hhandle
  refine ⟨thread, Nat.le_antisymm (hreach.slotOf_le thread) ?_, frame, hframe, hkeeps⟩
  rw [← Frame.slot_of_keeps hkeeps fun _ _ hwithdraw => hreach.not_withdrawn (hwithdraw ▸ hframe)]
  exact List.le_sum_of_mem (List.mem_map_of_mem hframe)

theorem length_running_le_of_returned :
    system.world.host.running.length ≤ system.total Frame.slot := by
  have htable := hreach.table hempty
  have hkept : ∀ wanted ∈ system.world.host.running.map Prod.fst,
      0 < system.total (Frame.keeping (handleIn fragments) wanted) := by
    intro wanted hmem
    obtain ⟨entry, hentry, rfl⟩ := List.mem_map.mp hmem
    exact kept_of_returned hreach hempty hreturned hentry
  calc system.world.host.running.length
      = (system.world.host.running.map Prod.fst).length := (List.length_map _).symm
    _ ≤ system.total Frame.slot := length_le_total_slot htable.nodup hkept fun _ _ hmem _ hkeeps =>
        Frame.slot_of_keeps hkeeps fun _ _ hwithdraw => hreach.not_withdrawn (hwithdraw ▸ hmem)

end Returning

end Conservation

variable {fragments : List Fragment} {settings : Settings} {host : Host} {system : System}

theorem slots_of_settings (hhost : Host.ofSettings? settings = some host) :
    host = { slots := { free := settings.maxConcurrent } } := by
  obtain ⟨slots, hslots, rfl⟩ := Option.map_eq_some_iff.mp hhost
  rw [Slots.ofCount?] at hslots
  split at hslots
  · rw [← Option.some.inj hslots]
  · cases hslots

/-- Slots are conserved.  The free ones, those of starts from the grant on, and those of
the threads of fragments are as many as the settings ask for, so no more fragments are
inside their run.  Every slot is returned once: no thread ever holds two, a step that ends
the hold of a thread hands the slot on or makes it spare, and when all threads have ended
all slots are free.

As long as no panic has left a run and no thread is refused, whoever has an entry in the
table still holds a slot: the entry goes before the slot.  So no more fragments are listed
than there are slots, and a start that finds its handle taken is turned away by a thread
that has not finished. -/
theorem slots_conserved (hhost : Host.ofSettings? settings = some host)
    (hreach : (ofFragments fragments host).Reachable system) :
    system.world.host.slots.free + system.slotsOfStarts + system.slotsOfFragments =
        settings.maxConcurrent ∧
      system.insideRun ≤ settings.maxConcurrent ∧
      (system.Queued ∧ (∀ thread, system.slotOf thread ≤ 1) ∧
        (∀ thread after, system.step thread = some after → system.SlotStep after thread) ∧
        ((∀ thread, system.frames thread = []) →
          system.world.host.slots.free = settings.maxConcurrent)) ∧
      ((ofFragments fragments host).ReachableUnder Command.Spawns system →
        (∀ id thread, (system.executor id).course ≠ .unwound thread) →
        (∀ entry ∈ system.world.host.running, ∃ thread, system.Occupies thread entry.2) ∧
          (∀ order handles, startHostCall system.world (.running order) =
              (system.world, .reply (.answer (.handles handles))) →
            handles.length ≤ settings.maxConcurrent) ∧
          ∀ thread id refusal owner, system.frames thread = [.start id refusal .register] →
            system.world.host.executor? (system.executor id).handle = some owner →
            ∃ other, other ≠ thread ∧ system.Occupies other owner) := by
  obtain rfl := slots_of_settings hhost
  have hunder := hreach.unrestricted
  have htotal : system.world.host.slots.free + system.slotsOfStarts + system.slotsOfFragments =
      settings.maxConcurrent := by
    have hsum := hunder.slots_total
    have hsplit := system.total_add Frame.slotOfStart Frame.slotOfFragment
    change system.total Frame.slot = _ at hsplit
    simp only [Slots.spare, List.length_nil, Nat.add_zero] at hsum
    simp only [slotsOfStarts, slotsOfFragments]
    omega
  have hqueued := hunder.queued rfl
  refine ⟨htotal, ?_, ⟨hqueued, hunder.slotOf_le, fun thread after => hunder.slot_step, ?_⟩, ?_⟩
  · have hinside : system.insideRun ≤ system.slotsOfFragments :=
      total_mono fun _ frame _ => frame.insideRun_le
    omega
  · intro hended
    have hgranted : system.world.host.slots.granted = [] := by
      refine List.eq_nil_iff_forall_not_mem.mpr fun thread hmem => ?_
      obtain ⟨id, refusal, hframes⟩ := hqueued.waits thread (List.mem_append_left _ hmem)
      rw [hended thread] at hframes
      cases hframes
    have hnone (weight : Frame → Nat) : system.total weight = 0 := by
      refine total_eq_zero weight fun thread frame hmem => ?_
      rw [hended thread] at hmem
      cases hmem
    simpa [slotsOfStarts, slotsOfFragments, hgranted, hnone] using htotal
  · intro hspawns hreturned
    refine ⟨fun entry => occupied_of_returned hspawns rfl hreturned, ?_, ?_⟩
    · intro order handles hanswer
      obtain rfl : (system.world.host.listing order).map Prod.fst = handles := by
        simpa [startHostCall] using hanswer
      have hle := length_running_le_of_returned hspawns rfl hreturned
      have hsum := hunder.slots_total
      simp only [Slots.spare, List.length_nil, Nat.add_zero] at hsum
      rw [List.length_map, (system.world.host.listing_perm order).length_eq]
      omega
    · intro thread id refusal owner hframes hfound
      obtain ⟨other, hoccupies⟩ :=
        occupied_of_returned hspawns rfl hreturned (Host.mem_of_executor? hfound)
      refine ⟨other, ?_, hoccupies⟩
      rintro rfl
      obtain ⟨-, frame, hmem, hkeeps⟩ := hoccupies
      rw [hframes] at hmem
      obtain rfl := List.mem_singleton.mp hmem
      cases hkeeps

/-- One fragment runs on the only slot while a second start waits for it. -/
theorem slots_conserved_of_waiting_start :
    ∃ system, (ofFragments [.vacant, .vacant] { slots := { free := 1 } }).ReachableUnder
        Command.Spawns system ∧
      system.frames 2 = [.start 1 none .awaitSlot] ∧
      system.world.host.slots.free + system.slotsOfStarts + system.slotsOfFragments = 1 ∧
      ∃ thread, system.Occupies thread 0 := by
  obtain ⟨system, hreach, hend⟩ := exists_reachable_of_moves Command.Spawns
    (ofFragments [.vacant, .vacant] { slots := { free := 1 } })
    (.call (.start 0 none) :: List.replicate 4 (.step 0) ++ List.replicate 20 (.step 1) ++
      [.call (.start 1 none), .step 2])
    (by simp [Move.Permitted, Command.Spawns])
    (fun system => (system.frames 2, system.world.host.running.map Prod.snd,
      (system.executor 0).course, fun id => (system.executor (id + 1)).course))
    ([.start 1 none .awaitSlot], [0], .underWay 1, fun _ => .notStarted) rfl
  obtain ⟨hwaits, hrunning, hfirst, hothers⟩ : _ ∧ _ ∧ _ ∧ _ := by
    simpa only [Prod.mk.injEq] using hend
  have hreturned (id : ExecutorId) (thread : ThreadId) :
      (system.executor id).course ≠ .unwound thread := by
    cases id with
    | zero => simp [hfirst]
    | succ id => simp [congrFun hothers id]
  have hhost : Host.ofSettings? ⟨⟨"", 0, 0, 0⟩, 1, 0, false⟩ = some { slots := { free := 1 } } := by
    decide
  obtain ⟨htotal, -, -, hentries⟩ := slots_conserved hhost hreach.reachable
  obtain ⟨entry, hentry, hid⟩ : ∃ entry ∈ system.world.host.running, entry.2 = 0 :=
    List.mem_map.mp (by rw [hrunning]; exact List.mem_singleton_self 0)
  obtain ⟨thread, hoccupies⟩ := (hentries hreach hreturned).1 entry hentry
  exact ⟨system, hreach, hwaits, htotal, thread, hid ▸ hoccupies⟩

end System

end FragmentLifecycle
