import FragmentLifecycle.Proofs.HostSteps

/-!
# Who holds a slot

A slot is free, or granted to a start that has not gone on yet, or held by a frame: by a
start from there to its end, and by the thread of a fragment as long as that lasts.  Every
step leaves the slot of its thread alone, takes one, hands it to the thread it starts, or
returns it (`System.SlotStep`), so the sum is the same in every reachable system
(`System.ReachableUnder.slots_total`).
-/

namespace FragmentLifecycle

/-! ## Slots and the starts that wait for one -/

namespace Slots

variable (slots : Slots) (thread : ThreadId)

/-- The slots that no start has gone on with. -/
def spare : Nat :=
  slots.free + slots.granted.length

/-- The starts that have asked for a slot and not gone on, those with a grant first. -/
def queue : List ThreadId :=
  slots.granted ++ slots.waiting

/-- A start goes on with the slot that was granted to it. -/
def taken : Slots :=
  { slots with granted := slots.granted.erase thread }

@[simp]
theorem spare_request : (slots.request thread).spare = slots.spare := by
  unfold request
  split
  · rfl
  · rename_i free hfree
    simp only [spare, hfree, List.length_append, List.length_singleton]
    omega

@[simp]
theorem spare_release : slots.release.spare = slots.spare + 1 := by
  unfold release
  split <;> simp only [spare, List.length_append, List.length_singleton] <;> omega

theorem spare_taken {slots : Slots} {thread : ThreadId} (hgranted : thread ∈ slots.granted) :
    (slots.taken thread).spare + 1 = slots.spare := by
  have hlength := List.length_erase_of_mem hgranted
  have hpos := List.length_pos_of_mem hgranted
  simp only [spare, taken]
  omega

@[simp]
theorem spare_withdraw : (slots.withdraw thread).spare = slots.spare := by
  unfold withdraw
  split
  · rename_i hgranted
    rw [spare_release]
    exact spare_taken hgranted
  · rfl

@[simp]
theorem queue_release : slots.release.queue = slots.queue := by
  unfold release
  split <;> simp [queue, *]

theorem queue_taken {slots : Slots} {thread : ThreadId} (hgranted : thread ∈ slots.granted) :
    (slots.taken thread).queue = slots.queue.erase thread := by
  rw [queue, queue, taken, List.erase_append_left _ hgranted]

@[simp]
theorem queue_withdraw : (slots.withdraw thread).queue = slots.queue.erase thread := by
  unfold withdraw
  split
  · rename_i hgranted
    rw [queue_release]
    exact queue_taken hgranted
  · rename_i hwaiting
    rw [queue, queue, List.erase_append_right _ hwaiting]

/-- A request comes last, or is granted at once. -/
theorem queue_request : (slots.request thread).queue.Perm (slots.queue ++ [thread]) := by
  unfold request
  split
  · simp [queue]
  · simp only [queue, List.append_assoc]
    exact List.Perm.append_left _ List.perm_append_comm

end Slots

/-! ## Frames that hold a slot -/

/-- Weighs the starts that have gone on with a slot and still hold it. -/
def Frame.slotOfStart : Frame → Nat
  | .start _ _ .register | .start _ _ .reject | .start _ _ .spawn => 1
  | _ => 0

/-- Weighs the threads of fragments, which hold a slot up to their end. -/
def Frame.slotOfFragment : Frame → Nat
  | .hosted _ _ _ => 1
  | _ => 0

def Frame.slot (frame : Frame) : Nat :=
  frame.slotOfStart + frame.slotOfFragment

theorem Frame.slot_of_outside {frame : Frame} (houtside : frame.isHosting = false) :
    frame.slot = 0 := by
  cases frame <;> first | rfl | cases houtside

theorem Frame.slot_le (frame : Frame) : frame.slot ≤ 1 := by
  cases frame with
  | start id refusal point => cases point <;> exact Nat.le_of_ble_eq_true rfl
  | _ => exact Nat.le_of_ble_eq_true rfl

/-- What becomes of the slot of a frame that takes a step. -/
inductive SlotMove (frame : Frame) (before : Slots) (next : Next) (after : Slots) : Prop
  | left (hspare : after.spare = before.spare) (hforked : next.forked = [])
      (hframes : (next.frames.map Frame.slot).sum = frame.slot)
  | taken (hhosting : frame.isHosting = true) (hspare : after.spare + 1 = before.spare)
      (hforked : next.forked = []) (hframe : frame.slot = 0)
      (hframes : (next.frames.map Frame.slot).sum = 1)
  | handed (hhosting : frame.isHosting = true) (hspare : after.spare = before.spare)
      (hframe : frame.slot = 1) (hframes : (next.frames.map Frame.slot).sum = 0)
      (hforked : (next.forked.map Frame.slot).sum = 1)
  | returned (hhosting : frame.isHosting = true) (hspare : after.spare = before.spare + 1)
      (hforked : next.forked = []) (hframe : frame.slot = 1)
      (hframes : (next.frames.map Frame.slot).sum = 0)

section Steps

variable {handle : ExecutorId → Handle} {thread : ThreadId} {frame : Frame} {signal : Signal}
  {h h' : Host} {next : Next}

theorem Host.slots_deregister (host : Host) (handle : Handle) :
    (host.deregister handle).slots = host.slots := by
  unfold deregister
  dsimp only
  split <;> rfl

theorem HostStep.slots (hstep : HostStep handle thread frame signal h next h') :
    SlotMove frame h.slots next h'.slots := by
  cases hstep
  case aside houtside hforked hpushed =>
    refine .left rfl hforked ?_
    rw [Frame.slot_of_outside houtside]
    refine List.sum_eq_zero fun value hvalue => ?_
    obtain ⟨pushed, hmem, rfl⟩ := List.mem_map.mp hvalue
    exact Frame.slot_of_outside (hpushed pushed hmem)
  case slotRequested => exact .left (Slots.spare_request _ _) rfl rfl
  case slotTaken hgranted => exact .taken rfl (Slots.spare_taken hgranted) rfl rfl rfl
  case spawned => exact .handed rfl rfl rfl rfl rfl
  case rejected | spawnFailed | slotReturned | slotDropped =>
    exact .returned rfl (Slots.spare_release _) rfl rfl rfl
  case deregistered =>
    rw [Host.slots_deregister]
    exact .left rfl rfl rfl
  case startEnds hends hforked => exact .left rfl hforked (by rw [hends]; rfl)
  all_goals exact .left rfl rfl rfl

/-- A start queues where it asks for a slot, and leaves the queue with one. -/
theorem HostStep.queue_cases (hstep : HostStep handle thread frame signal h next h') :
    (h'.slots.queue = h.slots.queue ∧ ∀ id refusal, frame ≠ .start id refusal .awaitSlot) ∨
      (∃ id refusal, frame = .start id refusal .requestSlot ∧
        next = .goto (.start id refusal .awaitSlot) ∧
        h'.slots.queue.Perm (h.slots.queue ++ [thread])) ∨
      h'.slots.queue = h.slots.queue.erase thread := by
  cases hstep
  case slotRequested => exact .inr (.inl ⟨_, _, rfl, rfl, Slots.queue_request _ _⟩)
  case slotTaken hgranted => exact .inr (.inr (Slots.queue_taken hgranted))
  case aside houtside _ _ =>
    refine .inl ⟨rfl, ?_⟩
    rintro id refusal rfl
    cases houtside
  case deregistered => exact .inl ⟨by rw [Host.slots_deregister], by simp⟩
  case rejected | spawnFailed | slotReturned | slotDropped =>
    exact .inl ⟨Slots.queue_release _, by simp⟩
  all_goals exact .inl ⟨rfl, by simp⟩

end Steps

/-- Only the outermost frame of a thread holds a slot. -/
theorem Linked.slot_le {frames : List Frame} (hlinked : Linked frames) :
    (frames.map Frame.slot).sum ≤ 1 := by
  induction frames with
  | nil => exact Nat.zero_le _
  | cons frame rest ih =>
    cases rest with
    | nil => simpa using frame.slot_le
    | cons caller below =>
      rw [List.map_cons, List.sum_cons, Frame.slot_of_outside hlinked.1.not_hosting, Nat.zero_add]
      exact ih hlinked.2

namespace System

/-- The slots that starts hold, from the grant on. -/
def slotsOfStarts (system : System) : Nat :=
  system.world.host.slots.granted.length + system.total Frame.slotOfStart

/-- The slots that the threads of fragments hold. -/
def slotsOfFragments (system : System) : Nat :=
  system.total Frame.slotOfFragment

/-- The slots that one thread holds. -/
def slotOf (system : System) (thread : ThreadId) : Nat :=
  ((system.frames thread).map Frame.slot).sum

/-- The starts in the queue for a slot wait there, each once. -/
structure Queued (system : System) : Prop where
  nodup : system.world.host.slots.queue.Nodup
  waits : ∀ thread ∈ system.world.host.slots.queue, ∃ id refusal,
    system.frames thread = [.start id refusal .awaitSlot]

/-- A step of a thread leaves its slot alone, takes one, hands it to the thread that it
starts, or returns it; no other thread gets or loses one by it. -/
inductive SlotStep (system after : System) (thread : ThreadId) : Prop
  | keeps (hspare : after.world.host.slots.spare = system.world.host.slots.spare)
      (hown : after.slotOf thread = system.slotOf thread)
      (hothers : ∀ other, other ≠ thread → after.slotOf other = system.slotOf other)
  | takes (hspare : after.world.host.slots.spare + 1 = system.world.host.slots.spare)
      (hbefore : system.slotOf thread = 0) (hafter : after.slotOf thread = 1)
      (hothers : ∀ other, other ≠ thread → after.slotOf other = system.slotOf other)
  | hands (started : ThreadId)
      (hspare : after.world.host.slots.spare = system.world.host.slots.spare)
      (hbefore : system.slotOf thread = 1) (hafter : after.slotOf thread = 0)
      (hnew : system.frames started = []) (hstarted : after.slotOf started = 1)
      (hothers : ∀ other, other ≠ thread → other ≠ started →
        after.slotOf other = system.slotOf other)
  | returns (hspare : after.world.host.slots.spare = system.world.host.slots.spare + 1)
      (hbefore : system.slotOf thread = 1) (hafter : after.slotOf thread = 0)
      (hothers : ∀ other, other ≠ thread → after.slotOf other = system.slotOf other)

section Ledger

variable {fragments : List Fragment} {host : Host} {permitted : Command → Prop}
  {system after : System} {thread : ThreadId} {frame : Frame} {rest : List Frame} {next : Next}

theorem ReachableUnder.slotOf_le
    (hreach : (ofFragments fragments host).ReachableUnder permitted system)
    (thread : ThreadId) : system.slotOf thread ≤ 1 :=
  (hreach.linked thread).slot_le

theorem total_add (system : System) (first second : Frame → Nat) :
    system.total (fun frame => first frame + second frame) =
      system.total first + system.total second := by
  simp only [total, weigh, List.sum_map_add]

theorem GivesUp.slots {root : Frame} (hgives : system.GivesUp after thread root) :
    after.world.host.slots.spare = system.world.host.slots.spare ∧ root.slot = 0 := by
  rcases hgives.host with ⟨id, refusal, rfl, hhost⟩ | ⟨houtside, hhost⟩
  · exact ⟨by rw [hhost, Slots.spare_withdraw], rfl⟩
  · exact ⟨by rw [hhost], Frame.slot_of_outside houtside⟩

/-- The slots that are free, granted or held stay as many as there were. -/
theorem ReachableUnder.slots_total
    (hreach : (ofFragments fragments host).ReachableUnder permitted system) :
    system.world.host.slots.spare + system.total Frame.slot = host.slots.spare := by
  refine hreach.hosting (fun system =>
    system.world.host.slots.spare + system.total Frame.slot = host.slots.spare) ?_ ?_ ?_ ?_
  · rfl
  · intro system command _ _ htotal
    rw [total_call _ command (by cases command <;> rfl)]
    exact htotal
  · intro system after given root _ hgives htotal
    obtain ⟨hspare, hroot⟩ := hgives.slots
    rw [hspare, hgives.total _ hroot]
    exact htotal
  · intro system after mover frame rest next _ _ hadvance hhost htotal
    have hsum := hadvance.total_step Frame.slot
    cases hhost.slots with
    | left hspare hforked hframes | taken _ hspare hforked _ hframes
    | returned _ hspare hforked _ hframes =>
      simp only [hforked, List.map_nil, List.sum_nil] at hsum
      omega
    | handed _ hspare _ hframes hforked => omega

theorem slotOf_of_frames (hframes : after.frames thread = system.frames thread) :
    after.slotOf thread = system.slotOf thread := by
  rw [slotOf, slotOf, hframes]

/-- Every step of a thread is one of the four. -/
theorem ReachableUnder.slot_step
    (hreach : (ofFragments fragments host).ReachableUnder permitted system)
    (hmove : system.step thread = some after) : system.SlotStep after thread := by
  obtain ⟨frame, rest, next, hadvance⟩ := advance_of_step hmove
  have hbefore : system.slotOf thread = frame.slot + (rest.map Frame.slot).sum := by
    rw [slotOf, hadvance.frames, List.map_cons, List.sum_cons]
  have hafter : after.slotOf thread =
      (next.frames.map Frame.slot).sum + (rest.map Frame.slot).sum := by
    rw [slotOf, hadvance.own, List.map_append, List.sum_append]
  have hrest (hhosting : frame.isHosting = true) : (rest.map Frame.slot).sum = 0 := by
    rw [hreach.frames_of_hosting hadvance.frames hhosting]
    rfl
  have hothers (hforked : next.forked = []) (other : ThreadId) (hother : other ≠ thread) :
      after.slotOf other = system.slotOf other := by
    rcases hadvance.others other hother with ⟨hsame, -⟩ | ⟨hnone, hnew, -⟩
    · exact slotOf_of_frames hsame
    · exact slotOf_of_frames (by rw [hnone, hnew, hforked])
  cases (hreach.host_step hadvance).slots with
  | left hspare hforked hframes =>
    exact .keeps hspare (by rw [hafter, hbefore, hframes]) (hothers hforked)
  | taken hhosting hspare hforked hframe hframes =>
    have hnone := hrest hhosting
    exact .takes hspare (by omega) (by omega) (hothers hforked)
  | handed hhosting hspare hframe hframes hforked =>
    have hnone := hrest hhosting
    cases next with
    | fork reply started hosts =>
      obtain ⟨hfresh, hnew, hkept⟩ := stack_of_fork hmove hadvance
      refine .hands system.threads.length hspare (by omega) (by omega) ?_ ?_ ?_
      · rw [System.frames, hfresh]
      · rw [slotOf, System.frames, hnew]
        exact hforked
      · intro other hother hstarted
        exact slotOf_of_frames (congrArg Thread.frames (hkept other hother hstarted))
    | goto | call | reply | raise => cases hforked
  | returned hhosting hspare hforked hframe hframes =>
    have hnone := hrest hhosting
    exact .returns hspare (by omega) (by omega) (hothers hforked)

theorem Queued.of_same (hqueued : system.Queued)
    (hqueue : after.world.host.slots.queue = system.world.host.slots.queue)
    (hframes : ∀ other ∈ system.world.host.slots.queue,
      after.frames other = system.frames other) : after.Queued where
  nodup := hqueue ▸ hqueued.nodup
  waits other hmem := by
    rw [hqueue] at hmem
    rw [hframes other hmem]
    exact hqueued.waits other hmem

theorem Queued.of_erase (hqueued : system.Queued)
    (hqueue : after.world.host.slots.queue = system.world.host.slots.queue.erase thread)
    (hframes : ∀ other ∈ system.world.host.slots.queue, other ≠ thread →
      after.frames other = system.frames other) : after.Queued where
  nodup := hqueue ▸ hqueued.nodup.erase thread
  waits other hmem := by
    obtain ⟨hother, hold⟩ := hqueued.nodup.mem_erase_iff.mp (hqueue ▸ hmem)
    rw [hframes other hold hother]
    exact hqueued.waits other hold

/-- A start that asks for a slot joins the queue. -/
theorem Queued.of_request (hqueued : system.Queued)
    (hqueue : after.world.host.slots.queue.Perm (system.world.host.slots.queue ++ [thread]))
    (hnew : thread ∉ system.world.host.slots.queue)
    (hwaits : ∃ id refusal, after.frames thread = [.start id refusal .awaitSlot])
    (hframes : ∀ other ∈ system.world.host.slots.queue,
      after.frames other = system.frames other) : after.Queued where
  nodup := by
    have hperm := hqueue.trans List.perm_append_comm
    exact hperm.nodup_iff.mpr (List.nodup_cons.mpr ⟨hnew, hqueued.nodup⟩)
  waits other hmem := by
    rcases List.mem_append.mp (hqueue.mem_iff.mp hmem) with hold | hlast
    · rw [hframes other hold]
      exact hqueued.waits other hold
    · rw [List.mem_singleton.mp hlast]
      exact hwaits

/-- Only waiting starts are in the queue. -/
theorem ReachableUnder.queued
    (hreach : (ofFragments fragments host).ReachableUnder permitted system)
    (hempty : host.slots.queue = []) : system.Queued := by
  refine hreach.hosting Queued ?_ ?_ ?_ ?_
  · exact ⟨by simp [ofFragments, hempty], by simp [ofFragments, hempty]⟩
  · intro system command _ _ hqueued
    refine hqueued.of_same rfl fun other hmem => ?_
    obtain ⟨id, refusal, hframes⟩ := hqueued.waits other hmem
    obtain ⟨-, hfresh, hothers⟩ := stack_of_call system command
    refine congrArg Thread.frames (hothers other ?_)
    rintro rfl
    rw [System.frames, hfresh] at hframes
    cases hframes
  · intro system after given root _ hgives hqueued
    have hkept (other : ThreadId) (hother : other ≠ given) :
        after.frames other = system.frames other :=
      congrArg Thread.frames (hgives.others other hother)
    rcases hgives.host with ⟨_, _, -, hhost⟩ | ⟨houtside, hhost⟩
    · refine hqueued.of_erase ?_ fun other _ hother => hkept other hother
      rw [hhost, Slots.queue_withdraw]
    · refine hqueued.of_same (by rw [hhost]) fun other hmem => hkept other ?_
      rintro rfl
      obtain ⟨id, refusal, hframes⟩ := hqueued.waits other hmem
      obtain rfl : root = _ := by simpa [hgives.frames] using hframes
      cases houtside
  · intro system after mover frame rest next hreach _ hadvance hhost hqueued
    have hkept (other : ThreadId) (hmem : other ∈ system.world.host.slots.queue)
        (hother : other ≠ mover) : after.frames other = system.frames other := by
      obtain ⟨id, refusal, hframes⟩ := hqueued.waits other hmem
      exact (hadvance.same_of_busy hother (by simp [hframes])).1
    have hnotMover (hframe : ∀ id refusal, frame ≠ .start id refusal .awaitSlot) :
        mover ∉ system.world.host.slots.queue := by
      intro hmem
      obtain ⟨id, refusal, hframes⟩ := hqueued.waits mover hmem
      rw [hadvance.frames] at hframes
      exact hframe id refusal (List.cons.inj hframes).1
    rcases hhost.queue_cases with ⟨hqueue, hframe⟩ | ⟨id, refusal, rfl, rfl, hqueue⟩ | hqueue
    · refine hqueued.of_same hqueue fun other hmem => hkept other hmem ?_
      rintro rfl
      exact hnotMover hframe hmem
    · have hnew := hnotMover (by simp)
      obtain rfl := hreach.frames_of_hosting hadvance.frames rfl
      refine hqueued.of_request hqueue hnew ⟨id, refusal, hadvance.own⟩ fun other hmem => ?_
      exact hkept other hmem fun hsame => hnew (hsame ▸ hmem)
    · exact hqueued.of_erase hqueue fun other hmem hother => hkept other hmem hother

end Ledger

end System

end FragmentLifecycle
