import FragmentLifecycle.Proofs.Course
import FragmentLifecycle.Proofs.HostSteps
import Mathlib.Data.List.Nodup

/-!
# The table of hosted fragments

An entry is made by a start and removed by the thread that took the start over, or by the
start itself where no thread could be had.  Until then that frame keeps the entry, and no
other frame keeps one with the same handle (`System.ReachableUnder.table`).
-/

namespace FragmentLifecycle

/-! ## Entries -/

namespace Host

variable {host : Host} {handle : Handle} {id : ExecutorId}

theorem executor?_eq_none :
    host.executor? handle = none ↔ handle ∉ host.running.map Prod.fst := by
  rw [executor?, List.lookup_eq_none_iff, List.mem_map]
  constructor
  · rintro hnone ⟨entry, hmem, rfl⟩
    simpa using hnone entry hmem
  · intro hnone entry hmem
    simpa using fun hsame : handle = entry.1 => hnone ⟨entry, hmem, hsame.symm⟩

theorem mem_of_executor? (hfound : host.executor? handle = some id) :
    (handle, id) ∈ host.running := by
  obtain ⟨before, after, hrunning, -⟩ := List.lookup_eq_some_iff.mp hfound
  simp [hrunning]

/-- Handles are listed once, so an entry of the table is the one that is found. -/
theorem executor?_of_mem (hnodup : (host.running.map Prod.fst).Nodup)
    (hmem : (handle, id) ∈ host.running) : host.executor? handle = some id := by
  cases hfound : host.executor? handle with
  | none => exact absurd (List.mem_map_of_mem hmem) (executor?_eq_none.mp hfound)
  | some found =>
    have hsame := List.inj_on_of_nodup_map hnodup (mem_of_executor? hfound) hmem rfl
    rw [(Prod.mk.inj hsame).2]

theorem arrange_filter (wanted : Handle → Bool) (order : List Handle)
    (entries : List (Handle × ExecutorId)) :
    arrange order (entries.filter fun entry => wanted entry.1) =
      (arrange order entries).filter fun entry => wanted entry.1 := by
  induction order generalizing entries with
  | nil => rfl
  | cons handle order ih =>
    simp only [arrange, List.filter_append, ← ih, List.filter_filter, Bool.and_comm]

/-- Any order of the entries is the one that some walk meets them in. -/
theorem exists_listing (hnodup : (host.running.map Prod.fst).Nodup)
    {entries : List (Handle × ExecutorId)} (hperm : entries.Perm host.running) :
    ∃ order, host.listing order = entries := by
  refine ⟨entries.map Prod.fst, ?_⟩
  rw [listing]
  generalize host.running = running at hnodup hperm
  induction entries generalizing running with
  | nil =>
    obtain rfl := List.nil_perm.mp hperm
    rfl
  | cons entry rest ih =>
    have hfresh : entry.1 ∉ rest.map Prod.fst :=
      (List.nodup_cons.mp ((hperm.map Prod.fst).nodup_iff.mpr hnodup)).1
    have hfirst : (entry :: rest).filter (fun other => other.1 == entry.1) = [entry] := by
      rw [List.filter_cons_of_pos (by simp), List.filter_eq_nil_iff.mpr]
      intro other hmem
      simpa using fun hsame : other.1 = entry.1 => hfresh (hsame ▸ List.mem_map_of_mem hmem)
    have hothers : (entry :: rest).filter (fun other => other.1 != entry.1) = rest := by
      rw [List.filter_cons_of_neg (by simp), List.filter_eq_self]
      intro other hmem
      simpa using fun hsame : other.1 = entry.1 => hfresh (hsame ▸ List.mem_map_of_mem hmem)
    have hentry := hperm.filter fun other => other.1 == entry.1
    have hrest := hperm.filter fun other => other.1 != entry.1
    rw [hfirst] at hentry
    rw [hothers] at hrest
    rw [List.map_cons, arrange, ← List.singleton_perm.mp hentry,
      ih _ (hnodup.sublist ((List.filter_sublist).map _)) hrest, List.singleton_append]

end Host

/-- The executor whose entry a frame keeps: from its registration until it is removed. -/
def Frame.keeps? : Frame → Option ExecutorId
  | .start id _ .spawn | .start id _ .withdraw => some id
  | .hosted id _ .start | .hosted id _ .running | .hosted id _ .deregister => some id
  | _ => none

/-- Weighs the frames that keep an entry with the handle `wanted`. -/
def Frame.keeping (handle : ExecutorId → Handle) (wanted : Handle) (frame : Frame) : Nat :=
  if frame.keeps?.map handle = some wanted then 1 else 0

theorem Frame.keeping_of_keeps {handle : ExecutorId → Handle} {frame : Frame} {id : ExecutorId}
    (hkeeps : frame.keeps? = some id) : frame.keeping handle (handle id) = 1 := by
  simp [keeping, hkeeps]

theorem Frame.exists_keeps {handle : ExecutorId → Handle} {wanted : Handle} {frame : Frame}
    (hpos : 0 < frame.keeping handle wanted) :
    ∃ id, frame.keeps? = some id ∧ handle id = wanted := by
  rw [keeping] at hpos
  split at hpos
  · rename_i hmap
    exact Option.map_eq_some_iff.mp hmap
  · cases hpos

theorem Frame.keeps?_of_outside {frame : Frame} (houtside : frame.isHosting = false) :
    frame.keeps? = none := by
  cases frame <;> first | rfl | cases houtside

theorem Frame.sum_keeping_eq_zero (handle : ExecutorId → Handle) (wanted : Handle)
    {frames : List Frame} (hnone : ∀ frame ∈ frames, frame.keeps? = none) :
    (frames.map (Frame.keeping handle wanted)).sum = 0 := by
  refine List.sum_eq_zero fun value hvalue => ?_
  obtain ⟨frame, hmem, rfl⟩ := List.mem_map.mp hvalue
  simp [keeping, hnone frame hmem]

/-- The weight of the frames that a step leaves behind. -/
def Next.keeping (handle : ExecutorId → Handle) (wanted : Handle) (next : Next) : Nat :=
  (next.frames.map (Frame.keeping handle wanted)).sum +
    (next.forked.map (Frame.keeping handle wanted)).sum

theorem Next.keeping_eq_zero (handle : ExecutorId → Handle) (wanted : Handle) {next : Next}
    (hnone : ∀ pushed ∈ next.frames ++ next.forked, pushed.keeps? = none) :
    next.keeping handle wanted = 0 := by
  rw [keeping,
    Frame.sum_keeping_eq_zero _ _ fun pushed hmem => hnone pushed (List.mem_append_left _ hmem),
    Frame.sum_keeping_eq_zero _ _ fun pushed hmem => hnone pushed (List.mem_append_right _ hmem)]

/-- What a step does to the table. -/
inductive TableStep (handle : ExecutorId → Handle) (frame : Frame) (signal : Signal)
    (h : Host) (next : Next) (h' : Host) : Prop
  | kept (hrunning : h'.running = h.running)
      (hpushed : ∀ pushed ∈ next.frames ++ next.forked, ∀ id, pushed.keeps? = some id →
        frame.keeps? = some id)
      (hweight : ∀ wanted, next.keeping handle wanted = frame.keeping handle wanted)
  | registered (id : ExecutorId) (refusal : Option String)
      (hframe : frame = .start id refusal .register)
      (hnext : next = .goto (.start id refusal .spawn))
      (hfree : h.executor? (handle id) = none)
      (hrunning : h'.running = h.running ++ [(handle id, id)])
  | removed (id : ExecutorId) (hkeeps : frame.keeps? = some id)
      (hpushed : ∀ pushed ∈ next.frames ++ next.forked, pushed.keeps? = none)
      (hrunning : h'.running = h.running.filter fun entry => entry.1 != handle id)
  | unwound (id : ExecutorId) (handle' : Handle) (payload : Payload)
      (hframe : frame = .hosted id handle' .running) (hsignal : signal = .raised payload)
      (hnext : next = .goto (.hosted id handle' (.releaseUnwound payload)))
      (hrunning : h'.running = h.running)

theorem Host.running_deregister (host : Host) (handle : Handle) :
    (host.deregister handle).running = host.running.filter fun entry => entry.1 != handle := by
  unfold deregister
  dsimp only
  split <;> rfl

theorem HostStep.table {handle : ExecutorId → Handle} {thread : ThreadId} {frame : Frame}
    {signal : Signal} {h h' : Host} {next : Next}
    (hstep : HostStep handle thread frame signal h next h')
    (hhandle : ∀ id handle' point, frame = .hosted id handle' point → handle' = handle id) :
    TableStep handle frame signal h next h' := by
  cases hstep
  case aside houtside hforked hpushed =>
    have hnone : ∀ pushed ∈ next.frames ++ next.forked, pushed.keeps? = none := by
      intro pushed hmem
      rw [hforked, List.append_nil] at hmem
      exact Frame.keeps?_of_outside (hpushed pushed hmem)
    refine .kept rfl (fun pushed hmem id hkeeps => ?_) fun wanted => ?_
    · rw [hnone pushed hmem] at hkeeps
      cases hkeeps
    · rw [Next.keeping_eq_zero _ _ hnone]
      simp [Frame.keeping, Frame.keeps?_of_outside houtside]
  case registered hfree => exact .registered _ _ rfl rfl hfree rfl
  case withdrawn => exact .removed _ rfl (by simp [Frame.keeps?]) rfl
  case deregistered id handle' =>
    refine .removed id rfl (by simp [Frame.keeps?]) ?_
    rw [Host.running_deregister, hhandle id handle' _ rfl]
  case runUnwound => exact .unwound _ _ _ rfl rfl rfl rfl
  case startEnds hends hforked =>
    exact .kept rfl (by simp [hends, hforked])
      (by simp [Next.keeping, hends, hforked, Frame.keeping, Frame.keeps?])
  all_goals
    exact .kept rfl (by simp [Frame.keeps?]) (by simp [Next.keeping, Frame.keeping, Frame.keeps?])

namespace TableStep

variable {handle : ExecutorId → Handle} {frame : Frame} {signal : Signal} {h h' : Host}
  {next : Next}

/-- A step makes another frame keep an entry only where the handle was free. -/
theorem weight_le (hstep : TableStep handle frame signal h next h') (wanted : Handle) :
    next.keeping handle wanted ≤ frame.keeping handle wanted ∨
      (h.executor? wanted = none ∧ next.keeping handle wanted ≤ 1) := by
  cases hstep with
  | kept hrunning hpushed hweight => exact .inl (hweight wanted).le
  | registered id refusal hframe hnext hfree hrunning =>
    subst hframe hnext
    by_cases hwanted : handle id = wanted
    · exact .inr ⟨hwanted ▸ hfree, by simp [Next.keeping, Frame.keeping, Frame.keeps?, hwanted]⟩
    · exact .inl (by simp [Next.keeping, Frame.keeping, Frame.keeps?, hwanted])
  | removed id hkeeps hpushed hrunning =>
    rw [Next.keeping_eq_zero _ _ hpushed]
    exact .inl (Nat.zero_le _)
  | unwound id handle' payload hframe hsignal hnext hrunning =>
    subst hframe hnext
    exact .inl (by simp [Next.keeping, Frame.keeping, Frame.keeps?])

/-- An entry goes away by the frame that keeps one with its handle. -/
theorem mem_or_removed (hstep : TableStep handle frame signal h next h')
    {entry : Handle × ExecutorId} (hmem : entry ∈ h.running) :
    entry ∈ h'.running ∨
      (0 < frame.keeping handle entry.1 ∧ ∀ pushed ∈ next.frames ++ next.forked,
        pushed.keeps? = none) := by
  cases hstep with
  | kept hrunning _ _ | unwound id handle' payload _ _ _ hrunning => exact .inl (hrunning ▸ hmem)
  | registered id refusal hframe hnext hfree hrunning =>
    exact .inl (hrunning ▸ List.mem_append_left _ hmem)
  | removed id hkeeps hpushed hrunning =>
    by_cases hsame : handle id = entry.1
    · rw [← hsame, Frame.keeping_of_keeps hkeeps]
      exact .inr ⟨Nat.one_pos, hpushed⟩
    · rw [hrunning]
      exact .inl (List.mem_filter.mpr ⟨hmem, by simpa using Ne.symm hsame⟩)

/-- The frames left behind keep entries of the table. -/
theorem pushed_listed (hstep : TableStep handle frame signal h next h')
    (hlisted : ∀ id, frame.keeps? = some id → (handle id, id) ∈ h.running) {pushed : Frame}
    (hmem : pushed ∈ next.frames ++ next.forked) {id : ExecutorId}
    (hkeeps : pushed.keeps? = some id) : (handle id, id) ∈ h'.running := by
  cases hstep with
  | kept hrunning hpushed _ => exact hrunning ▸ hlisted id (hpushed pushed hmem id hkeeps)
  | registered owner refusal hframe hnext hfree hrunning =>
    subst hnext
    obtain rfl := List.mem_singleton.mp hmem
    obtain rfl := Option.some.inj hkeeps
    exact hrunning ▸ List.mem_append_right _ List.mem_cons_self
  | removed owner _ hpushed _ =>
    rw [hpushed pushed hmem] at hkeeps
    cases hkeeps
  | unwound owner handle' payload hframe hsignal hnext hrunning =>
    subst hnext
    obtain rfl := List.mem_singleton.mp hmem
    cases hkeeps

theorem handles (hstep : TableStep handle frame signal h next h')
    (hhandles : ∀ entry ∈ h.running, entry.1 = handle entry.2) :
    ∀ entry ∈ h'.running, entry.1 = handle entry.2 := by
  cases hstep with
  | kept hrunning _ _ | unwound id handle' payload _ _ _ hrunning => exact hrunning ▸ hhandles
  | registered id refusal hframe hnext hfree hrunning =>
    rw [hrunning]
    intro entry hmem
    rcases List.mem_append.mp hmem with hold | hnew
    · exact hhandles entry hold
    · obtain rfl := List.mem_singleton.mp hnew
      rfl
  | removed id hkeeps hpushed hrunning =>
    rw [hrunning]
    exact fun entry hmem => hhandles entry (List.mem_of_mem_filter hmem)

theorem nodup (hstep : TableStep handle frame signal h next h')
    (hnodup : (h.running.map Prod.fst).Nodup) : (h'.running.map Prod.fst).Nodup := by
  cases hstep with
  | kept hrunning _ _ | unwound id handle' payload _ _ _ hrunning => exact hrunning ▸ hnodup
  | registered id refusal hframe hnext hfree hrunning =>
    rw [hrunning, List.map_append, List.nodup_append]
    refine ⟨hnodup, by simp, ?_⟩
    rintro _ hold _ hnew rfl
    obtain rfl := List.mem_singleton.mp hnew
    exact Host.executor?_eq_none.mp hfree hold
  | removed id hkeeps hpushed hrunning =>
    rw [hrunning]
    exact hnodup.sublist (List.filter_sublist.map _)

/-- An entry was there before and is kept as it was, or has just been made, or is left by a
panic. -/
theorem entry_cases (hstep : TableStep handle frame signal h next h')
    {entry : Handle × ExecutorId} (hmem : entry ∈ h'.running) :
    (entry ∈ h.running ∧ next.keeping handle entry.1 = frame.keeping handle entry.1) ∨
      0 < next.keeping handle entry.1 ∨
      (entry ∈ h.running ∧ ∃ id handle' payload, frame = .hosted id handle' .running ∧
        signal = .raised payload ∧ next = .goto (.hosted id handle' (.releaseUnwound payload))) := by
  cases hstep with
  | kept hrunning _ hweight => exact .inl ⟨hrunning ▸ hmem, hweight entry.1⟩
  | registered id refusal hframe hnext hfree hrunning =>
    subst hframe hnext
    rw [hrunning] at hmem
    rcases List.mem_append.mp hmem with hold | hnew
    · by_cases hsame : handle id = entry.1
      · exact .inr (.inl (by simp [Next.keeping, Frame.keeping, Frame.keeps?, hsame]))
      · exact .inl ⟨hold, by simp [Next.keeping, Frame.keeping, Frame.keeps?, hsame]⟩
    · obtain rfl := List.mem_singleton.mp hnew
      exact .inr (.inl (by simp [Next.keeping, Frame.keeping, Frame.keeps?]))
  | removed id hkeeps hpushed hrunning =>
    rw [hrunning] at hmem
    obtain ⟨hold, hother⟩ := List.mem_filter.mp hmem
    refine .inl ⟨hold, ?_⟩
    have hne : handle id ≠ entry.1 := by simpa using Ne.symm (by simpa using hother)
    rw [Next.keeping_eq_zero _ _ hpushed]
    simp [Frame.keeping, hkeeps, hne]
  | unwound id handle' payload hframe hsignal hnext hrunning =>
    exact .inr (.inr ⟨hrunning ▸ hmem, id, handle', payload, hframe, hsignal, hnext⟩)

end TableStep

section Threads

variable {handle : ExecutorId → Handle} {thread : ThreadId} {frame : Frame} {signal : Signal}
  {h h' : Host} {next : Next} {id : ExecutorId} {handle' : Handle} {point : HostedPoint}

/-- A thread of a fragment goes on as one. -/
theorem HostStep.of_hosted_pushed (hstep : HostStep handle thread frame signal h next h')
    (hpushed : .hosted id handle' point ∈ next.frames) :
    ∃ point', frame = .hosted id handle' point' := by
  cases hstep
  case aside hnone => cases hnone _ hpushed
  case startEnds hends _ => simp [hends] at hpushed
  all_goals simp at hpushed
  all_goals
    obtain ⟨rfl, rfl, rfl⟩ := hpushed
    exact ⟨_, rfl⟩

/-- A step starts a thread for a fragment only. -/
theorem HostStep.forked_eq {reply : Reply} {started : Frame} {hosts : ExecutorId}
    (hstep : HostStep handle thread frame signal h (.fork reply started hosts) h') :
    started = .hosted hosts (handle hosts) .start ∧ ∃ id, frame = .start id none .spawn := by
  generalize hnext : Next.fork reply started hosts = next at hstep
  cases hstep
  case aside hforked _ => simp [← hnext] at hforked
  case startEnds hforked => simp [← hnext] at hforked
  case spawned =>
    obtain ⟨-, rfl, rfl⟩ := Next.fork.inj hnext
    exact ⟨rfl, _, rfl⟩
  all_goals cases hnext

/-- A thread of a fragment ends by a reply or by a panic. -/
theorem HostStep.hosted_cases
    (hstep : HostStep handle thread (.hosted id handle' point) signal h next h') :
    (∃ point', next.frames.getLast? = some (.hosted id handle' point')) ∨
      (next.frames = [] ∧ next.signal ≠ .go) := by
  cases hstep
  case aside houtside _ _ => cases houtside
  case slotReturned | slotDropped => exact .inr ⟨rfl, by simp⟩
  all_goals exact .inl ⟨_, rfl⟩

end Threads

namespace System

/-- The table of hosted fragments and the frames that keep its entries: handles are those
of the executors and listed once, one frame at most keeps an entry with a handle, and it
is in the table. -/
structure Tabled (system : System) (handle : ExecutorId → Handle) : Prop where
  handles : ∀ entry ∈ system.world.host.running, entry.1 = handle entry.2
  nodup : (system.world.host.running.map Prod.fst).Nodup
  single : ∀ wanted, system.total (Frame.keeping handle wanted) ≤ 1
  listed : ∀ thread, ∀ frame ∈ system.frames thread, ∀ id, frame.keeps? = some id →
    (handle id, id) ∈ system.world.host.running

section Table

variable {fragments : List Fragment} {host : Host} {permitted : Command → Prop}
  {system after : System} {thread owner : ThreadId} {frame : Frame} {rest : List Frame}
  {next : Next} {id : ExecutorId} {handle : ExecutorId → Handle}

/-- A frame was pushed by a step, or is the one of a thread that the step started, or was
there beside the frame that took the step. -/
theorem Advance.mem_frames_cases {other : Frame}
    (hadvance : system.Advance after thread frame rest next)
    (hmem : other ∈ after.frames owner) :
    (owner = thread ∧ other ∈ next.frames) ∨ (owner ≠ thread ∧ other ∈ next.forked) ∨
      system.Beside thread rest owner other := by
  by_cases howner : owner = thread
  · subst howner
    rw [hadvance.own] at hmem
    rcases List.mem_append.mp hmem with hpushed | hrest
    · exact .inl ⟨rfl, hpushed⟩
    · exact .inr (.inr (.inl ⟨rfl, hrest⟩))
  · rcases hadvance.others owner howner with ⟨hsame, -⟩ | ⟨-, hforked, -⟩
    · exact .inr (.inr (.inr ⟨howner, hsame ▸ hmem⟩))
    · exact .inr (.inl ⟨howner, hforked ▸ hmem⟩)

/-- The thread of a fragment has its handle and was started for it. -/
theorem ReachableUnder.hosts_of_hosted
    (hreach : (ofFragments fragments host).ReachableUnder permitted system) {handle' : Handle}
    {point : HostedPoint} (hmem : .hosted id handle' point ∈ system.frames thread) :
    handle' = handleIn fragments id ∧ (system.stack thread).hosts = some id := by
  refine hreach.hosting (fun system => ∀ thread id handle' point,
    .hosted id handle' point ∈ system.frames thread →
      handle' = handleIn fragments id ∧ (system.stack thread).hosts = some id)
    ?_ ?_ ?_ ?_ thread id handle' point hmem
  · intro thread id handle' point hmem
    cases hmem
  · intro system command _ _ hholds thread id handle' point hmem
    obtain ⟨hnew, -, hothers⟩ := stack_of_call system command
    by_cases hthread : thread = system.threads.length
    · rw [System.frames, hthread, hnew] at hmem
      have hframe : .hosted id handle' point = command.frame := List.mem_singleton.mp hmem
      cases command <;> cases hframe
    · rw [System.frames, hothers thread hthread] at hmem
      rw [hothers thread hthread]
      exact hholds thread id handle' point hmem
  · intro system after given root _ hgives hholds thread id handle' point hmem
    by_cases hthread : thread = given
    · rw [System.frames, hthread, hgives.own] at hmem
      cases hmem
    · rw [System.frames, hgives.others thread hthread] at hmem
      rw [hgives.others thread hthread]
      exact hholds thread id handle' point hmem
  · intro system after mover frame rest next hreach hmove hadvance hhost hholds
      thread id handle' point hmem
    obtain ⟨hsame, hothers⟩ := stack_of_step hmove
    by_cases hthread : thread = mover
    · subst hthread
      have htop : frame ∈ system.frames thread := hadvance.frames ▸ List.mem_cons_self
      rw [hsame]
      rw [hadvance.own] at hmem
      rcases List.mem_append.mp hmem with hpushed | hrest
      · obtain ⟨point', rfl⟩ := hhost.of_hosted_pushed hpushed
        exact hholds thread id handle' point' htop
      · exact hholds thread id handle' point
          (hadvance.frames ▸ List.mem_cons_of_mem _ hrest)
    · rcases hothers thread hthread with hkept | ⟨-, frame', rest', reply, started, hosts, hfork, hnew⟩
      · rw [System.frames, hkept] at hmem
        rw [hkept]
        exact hholds thread id handle' point hmem
      · obtain ⟨rfl, -⟩ := (hreach.host_step hfork).forked_eq
        rw [System.frames, hnew] at hmem
        rw [hnew]
        obtain ⟨rfl, rfl, rfl⟩ : id = hosts ∧ handle' = handleIn fragments hosts ∧
          point = .start := by simpa using hmem
        exact ⟨rfl, rfl⟩

/-- The thread of a fragment is one until it ends. -/
theorem ReachableUnder.hosted_of_hosts
    (hreach : (ofFragments fragments host).ReachableUnder permitted system)
    (hhosts : (system.stack thread).hosts = some id) :
    (∃ handle point, (system.frames thread).getLast? = some (.hosted id handle point)) ∨
      (system.frames thread = [] ∧ system.signal thread ≠ .go) := by
  refine hreach.hosting (fun system => ∀ thread id, (system.stack thread).hosts = some id →
    (∃ handle point, (system.frames thread).getLast? = some (.hosted id handle point)) ∨
      (system.frames thread = [] ∧ system.signal thread ≠ .go)) ?_ ?_ ?_ ?_ thread id hhosts
  · intro thread id hhosts
    cases hhosts
  · intro system command _ _ hholds thread id hhosts
    obtain ⟨hnew, -, hothers⟩ := stack_of_call system command
    by_cases hthread : thread = system.threads.length
    · rw [hthread, hnew] at hhosts
      cases hhosts
    · simp only [System.frames, System.signal, hothers thread hthread] at hhosts ⊢
      exact hholds thread id hhosts
  · intro system after given root _ hgives hholds thread id hhosts
    by_cases hthread : thread = given
    · -- a thread that is given up is none of a fragment
      rw [hthread, hgives.own] at hhosts
      have hroot := hgives.frames
      rcases hholds given id hhosts with ⟨handle, point, hlast⟩ | ⟨hnone, -⟩
      · rw [hroot] at hlast
        obtain rfl := Option.some.inj hlast
        rcases hgives.host with ⟨_, _, hstart, -⟩ | ⟨houtside, -⟩
        · cases hstart
        · cases houtside
      · rw [hroot] at hnone
        cases hnone
    · simp only [System.frames, System.signal, hgives.others thread hthread] at hhosts ⊢
      exact hholds thread id hhosts
  · intro system after mover frame rest next hreach hmove hadvance hhost hholds thread id hhosts
    obtain ⟨hsame, hothers⟩ := stack_of_step hmove
    by_cases hthread : thread = mover
    · subst hthread
      rw [hsame] at hhosts
      have hbefore := hholds thread id hhosts
      rw [hadvance.frames] at hbefore
      rcases hbefore with ⟨handle, point, hlast⟩ | ⟨hnone, -⟩
      · rw [hadvance.own, hadvance.ownSignal]
        cases rest with
        | cons caller below =>
          rw [List.getLast?_append_of_ne_nil _ (List.cons_ne_nil _ _)]
          exact .inl ⟨handle, point, hlast⟩
        | nil =>
          obtain rfl := Option.some.inj hlast
          rw [List.append_nil]
          rcases hhost.hosted_cases with ⟨point', hstill⟩ | hends
          · exact .inl ⟨handle, point', hstill⟩
          · exact .inr hends
      · cases hnone
    · rcases hothers thread hthread with hkept | ⟨-, frame', rest', reply, started, hosts, hfork, hnew⟩
      · simp only [System.frames, System.signal, hkept] at hhosts ⊢
        exact hholds thread id hhosts
      · obtain ⟨rfl, -⟩ := (hreach.host_step hfork).forked_eq
        rw [hnew] at hhosts
        obtain rfl := Option.some.inj hhosts
        rw [System.frames, hnew]
        exact .inl ⟨_, _, rfl⟩

theorem ReachableUnder.table_step
    (hreach : (ofFragments fragments host).ReachableUnder permitted system)
    (hadvance : system.Advance after thread frame rest next) :
    TableStep (handleIn fragments) frame (system.signal thread) system.world.host next
      after.world.host := by
  refine (hreach.host_step hadvance).table ?_
  rintro id handle' point rfl
  exact (hreach.hosts_of_hosted (hadvance.frames ▸ List.mem_cons_self)).1

/-! ## Entries have one keeper at most -/

theorem Tabled.of_same (htable : system.Tabled handle)
    (hrunning : after.world.host.running = system.world.host.running)
    (htotal : ∀ wanted, after.total (Frame.keeping handle wanted) =
      system.total (Frame.keeping handle wanted))
    (hframes : ∀ thread, ∀ frame ∈ after.frames thread, ∀ id, frame.keeps? = some id →
      frame ∈ system.frames thread) : after.Tabled handle where
  handles := hrunning ▸ htable.handles
  nodup := hrunning ▸ htable.nodup
  single wanted := htotal wanted ▸ htable.single wanted
  listed thread frame hmem id hkeeps :=
    hrunning ▸ htable.listed thread frame (hframes thread frame hmem id hkeeps) id hkeeps

/-- Nobody keeps an entry that is not in the table. -/
theorem Tabled.total_of_free (htable : system.Tabled handle) {wanted : Handle}
    (hfree : system.world.host.executor? wanted = none) :
    system.total (Frame.keeping handle wanted) = 0 := by
  by_contra hkept
  obtain ⟨thread, frame, hmem, hpos⟩ := exists_of_total_pos _ (Nat.pos_of_ne_zero hkept)
  obtain ⟨id, hkeeps, rfl⟩ := Frame.exists_keeps hpos
  rw [Host.executor?_eq_none] at hfree
  exact hfree (List.mem_map_of_mem (htable.listed thread frame hmem id hkeeps))

theorem Advance.total_keeping (hadvance : system.Advance after thread frame rest next)
    (handle : ExecutorId → Handle) (wanted : Handle) :
    after.total (Frame.keeping handle wanted) + frame.keeping handle wanted =
      system.total (Frame.keeping handle wanted) + next.keeping handle wanted := by
  rw [hadvance.total_step, Next.keeping, Nat.add_assoc]

theorem Tabled.advance (htable : system.Tabled handle)
    (hadvance : system.Advance after thread frame rest next)
    (hstep : TableStep handle frame (system.signal thread) system.world.host next
      after.world.host) : after.Tabled handle := by
  have htop : frame ∈ system.frames thread := hadvance.frames ▸ List.mem_cons_self
  refine ⟨hstep.handles htable.handles, hstep.nodup htable.nodup, fun wanted => ?_, ?_⟩
  · have hsum := hadvance.total_keeping handle wanted
    have hbefore := htable.single wanted
    rcases hstep.weight_le wanted with hle | ⟨hfree, hle⟩
    · omega
    · have hnone := htable.total_of_free hfree
      omega
  · intro owner other hmem id hkeeps
    have hpushed (hnew : other ∈ next.frames ++ next.forked) :
        (handle id, id) ∈ after.world.host.running :=
      hstep.pushed_listed (fun id => htable.listed thread frame htop id) hnew hkeeps
    rcases hadvance.mem_frames_cases hmem with ⟨-, hnew⟩ | ⟨-, hnew⟩ | hbeside
    · exact hpushed (List.mem_append_left _ hnew)
    · exact hpushed (List.mem_append_right _ hnew)
    · have hlisted := htable.listed owner other (hadvance.mem_of_beside hbeside) id hkeeps
      rcases hstep.mem_or_removed hlisted with hstays | ⟨hpos, -⟩
      · exact hstays
      · -- two frames would keep an entry with this handle
        have hboth := hadvance.add_le_total (Frame.keeping handle (handle id)) hbeside
        have hsingle := htable.single (handle id)
        rw [Frame.keeping_of_keeps hkeeps] at hboth
        dsimp only at hpos
        omega

/-- A call from outside and a start that is given up leave the table and its keepers. -/
theorem total_keeping_of_call (handle : ExecutorId → Handle) (wanted : Handle)
    (command : Command) : (system.call command).total (Frame.keeping handle wanted) =
      system.total (Frame.keeping handle wanted) :=
  total_call _ command (by cases command <;> rfl)

theorem GivesUp.table {root : Frame} (hgives : system.GivesUp after thread root) :
    after.world.host.running = system.world.host.running ∧ root.keeps? = none := by
  rcases hgives.host with ⟨id, refusal, rfl, hhost⟩ | ⟨houtside, hhost⟩
  · exact ⟨by rw [hhost], rfl⟩
  · exact ⟨by rw [hhost], Frame.keeps?_of_outside houtside⟩

theorem GivesUp.total_keeping {root : Frame} (hgives : system.GivesUp after thread root)
    (handle : ExecutorId → Handle) (wanted : Handle) :
    after.total (Frame.keeping handle wanted) = system.total (Frame.keeping handle wanted) :=
  hgives.total _ (by simp [Frame.keeping, hgives.table.2])

theorem ReachableUnder.table
    (hreach : (ofFragments fragments host).ReachableUnder permitted system)
    (hempty : host.running = []) : system.Tabled (handleIn fragments) := by
  refine hreach.hosting (fun system => system.Tabled (handleIn fragments)) ?_ ?_ ?_ ?_
  · exact ⟨by simp [ofFragments, hempty], by simp [ofFragments, hempty], fun _ => Nat.zero_le _,
      fun thread frame hmem => by cases hmem⟩
  · intro system command _ _ htable
    refine htable.of_same rfl (fun wanted => total_keeping_of_call _ _ command) ?_
    intro thread frame hmem id hkeeps
    obtain ⟨hnew, -, hothers⟩ := stack_of_call system command
    by_cases hthread : thread = system.threads.length
    · rw [System.frames, hthread, hnew] at hmem
      obtain rfl := List.mem_singleton.mp hmem
      cases command <;> cases hkeeps
    · rw [System.frames, hothers thread hthread] at hmem
      exact hmem
  · intro system after given root _ hgives htable
    refine htable.of_same hgives.table.1 (fun wanted => hgives.total_keeping _ _) ?_
    intro thread frame hmem id _
    by_cases hthread : thread = given
    · rw [System.frames, hthread, hgives.own] at hmem
      cases hmem
    · rw [System.frames, hgives.others thread hthread] at hmem
      exact hmem
  · intro system after thread frame rest next hreach _ hadvance _ htable
    exact htable.advance hadvance (hreach.table_step hadvance)

end Table

end System

end FragmentLifecycle
