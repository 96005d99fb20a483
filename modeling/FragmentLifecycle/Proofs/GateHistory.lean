import FragmentLifecycle.Sync.Gate
import Mathlib.Data.List.Induction
import Mathlib.Data.List.Nodup
import Mathlib.Data.List.Perm.Basic

/-!
# Histories of a gate

The sections of the callers of a gate, one after another, from a shut gate on.  What one section
does is said once (`GateMonitor.Effect`).  While the gate is shut all callers sleep on its
condition variable and nobody has passed; once it is open nobody sleeps, and whoever slept until
then has a signal that it keeps up to its next wake-up (`GateMonitor.Sound`).
-/

namespace FragmentLifecycle

namespace GateMonitor

/-- The gate and its callers after `events`, from a shut gate without callers on. -/
def after (events : List Event) : GateMonitor :=
  events.foldl step {}

/-- The threads that are inside a wait. -/
def callers (monitor : GateMonitor) : List ThreadId :=
  monitor.asleep ++ monitor.signalled

/-- No thread calls while it is inside a wait. -/
def IsSequential (events : List Event) : Prop :=
  ∀ before thread later, events = before ++ .waits thread :: later →
    thread ∉ (after before).callers

/-! ## What one section does -/

/-- What the section of an event does. -/
inductive Effect (monitor : GateMonitor) : Event → GateMonitor → Prop
  | opens (hshut : monitor.gate.isOpen = false) : Effect monitor .opens
      { monitor with
        gate := monitor.gate.opened
        asleep := []
        signalled := monitor.signalled ++ monitor.asleep }
  | opensAgain (hopen : monitor.gate.isOpen = true) : Effect monitor .opens monitor
  | asks : Effect monitor .asks monitor
  | passes {thread} (hopen : monitor.gate.isOpen = true) : Effect monitor (.waits thread)
      { monitor with passed := monitor.passed ++ [thread] }
  | sleeps {thread} (hshut : monitor.gate.isOpen = false) : Effect monitor (.waits thread)
      { monitor with asleep := monitor.asleep ++ [thread] }
  | idles {thread} (hfree : thread ∉ monitor.callers) : Effect monitor (.wakes thread) monitor
  | sleepsOn {thread asleep} (hshut : monitor.gate.isOpen = false)
      (hperm : asleep.Perm monitor.asleep) :
      Effect monitor (.wakes thread) { monitor with asleep }
  | leaves {thread signalled} (hopen : monitor.gate.isOpen = true)
      (hperm : (thread :: signalled).Perm monitor.signalled) :
      Effect monitor (.wakes thread)
        { monitor with signalled, passed := monitor.passed ++ [thread] }

/-- What holds after `events`. -/
structure Sound (monitor : GateMonitor) (events : List Event) : Prop where
  isOpen : monitor.gate.isOpen = true ↔ .opens ∈ events
  nodup : monitor.callers.Nodup
  shut : monitor.gate.isOpen = false → monitor.signalled = [] ∧ monitor.passed = []
  opened : monitor.gate.isOpen = true → monitor.asleep = []
  counted : ∀ thread, events.count (.waits thread) =
    monitor.callers.count thread + monitor.passed.count thread

section Effects

variable {monitor next : GateMonitor} {events : List Event} {event : Event} {thread : ThreadId}
  {threads : List ThreadId}

/-- Leaving out a thread of a list without repetition leaves the others. -/
theorem cons_filter_perm (hnodup : threads.Nodup) (hmem : thread ∈ threads) :
    (thread :: threads.filter (· != thread)).Perm threads := by
  rw [← hnodup.erase_eq_filter]
  exact (List.perm_cons_erase hmem).symm

theorem Sound.effect (hsound : monitor.Sound events) (event : Event) :
    monitor.Effect event (monitor.step event) := by
  have hgate := Bool.eq_false_or_eq_true monitor.gate.isOpen
  cases event with
  | opens =>
    rcases hgate with hopen | hshut
    · rw [step, if_pos hopen]
      exact .opensAgain hopen
    · rw [step, if_neg (Bool.eq_false_iff.mp hshut)]
      exact .opens hshut
  | asks => exact .asks
  | waits thread =>
    rcases hgate with hopen | hshut
    · rw [step, if_pos hopen]
      exact .passes hopen
    · rw [step, if_neg (Bool.eq_false_iff.mp hshut)]
      exact .sleeps hshut
  | wakes thread =>
    by_cases hcaller : thread ∈ monitor.callers
    · have hnodup := hsound.nodup
      rw [step, if_pos (List.mem_append.mp hcaller)]
      rcases hgate with hopen | hshut
      · rw [callers, hsound.opened hopen, List.nil_append] at hnodup hcaller
        have hasleep : monitor.asleep.filter (· != thread) = monitor.asleep := by
          rw [hsound.opened hopen, List.filter_nil]
        rw [if_pos hopen, hasleep]
        exact .leaves hopen (cons_filter_perm hnodup hcaller)
      · rw [callers, (hsound.shut hshut).1, List.append_nil] at hnodup hcaller
        have hsignalled : monitor.signalled.filter (· != thread) = monitor.signalled := by
          rw [(hsound.shut hshut).1, List.filter_nil]
        rw [if_neg (Bool.eq_false_iff.mp hshut), hsignalled]
        exact .sleepsOn hshut
          ((List.perm_append_singleton _ _).trans (cons_filter_perm hnodup hcaller))
    · rw [step, if_neg (mt List.mem_append.mpr hcaller)]
      exact .idles hcaller

theorem Effect.passed_subset (heffect : monitor.Effect event next) :
    monitor.passed ⊆ next.passed := by
  cases heffect with
  | passes | leaves => exact List.subset_append_left _ _
  | _ => exact List.Subset.refl _

theorem count_waits (thread other : ThreadId) :
    [Event.waits thread].count (.waits other) = [thread].count other := by
  by_cases hsame : thread = other <;> simp [hsame]

/-- An event that is no call leaves the number of the calls alone. -/
theorem count_snoc_of_ne (hevent : ∀ thread, event ≠ .waits thread) (other : ThreadId) :
    (events ++ [event]).count (.waits other) = events.count (.waits other) := by
  rw [List.count_append, List.count_singleton, if_neg, Nat.add_zero]
  exact fun hsame => hevent other (beq_iff_eq.mp hsame)

theorem Sound.advance (hsound : monitor.Sound events) (heffect : monitor.Effect event next)
    (hfree : ∀ thread, event = .waits thread → thread ∉ monitor.callers) :
    next.Sound (events ++ [event]) := by
  have hisOpen := hsound.isOpen
  have hcounted := hsound.counted
  have hcallers := hsound.nodup
  cases heffect with
  | opens hshut =>
    have hsame : (monitor.signalled ++ monitor.asleep).Perm monitor.callers :=
      List.perm_append_comm
    refine ⟨by simp [Gate.opened], hsame.nodup_iff.mpr hcallers, by simp [Gate.opened],
      fun _ => rfl, fun other => ?_⟩
    rw [count_snoc_of_ne (by simp), hcounted other, ← hsame.count_eq]
    rfl
  | opensAgain hopen =>
    refine ⟨by simp [hopen], hcallers, hsound.shut, hsound.opened, fun other => ?_⟩
    rw [count_snoc_of_ne (by simp), hcounted other]
  | asks =>
    refine ⟨by simpa using hisOpen, hcallers, hsound.shut, hsound.opened, fun other => ?_⟩
    rw [count_snoc_of_ne (by simp), hcounted other]
  | @passes thread hopen =>
    refine ⟨by simpa using hisOpen, hcallers, by simp [hopen], hsound.opened, fun other => ?_⟩
    rw [List.count_append, hcounted other, count_waits, Nat.add_assoc, ← List.count_append]
    rfl
  | @sleeps thread hshut =>
    have hsame : (monitor.asleep ++ [thread] ++ monitor.signalled).Perm
        ([thread] ++ monitor.callers) := (List.perm_append_singleton _ _).append_right _
    refine ⟨by simpa using hisOpen, ?_, hsound.shut, by simp [hshut], fun other => ?_⟩
    · exact hsame.nodup_iff.mpr (List.nodup_cons.mpr ⟨hfree thread rfl, hcallers⟩)
    · have hcount : (monitor.asleep ++ [thread] ++ monitor.signalled).count other =
          [thread].count other + monitor.callers.count other :=
        (hsame.count_eq other).trans List.count_append
      rw [List.count_append, hcounted other, count_waits]
      change _ = (monitor.asleep ++ [thread] ++ monitor.signalled).count other +
        monitor.passed.count other
      omega
  | idles hunknown =>
    refine ⟨by simpa using hisOpen, hcallers, hsound.shut, hsound.opened, fun other => ?_⟩
    rw [count_snoc_of_ne (by simp), hcounted other]
  | sleepsOn hshut hperm =>
    have hsame := hperm.append_right monitor.signalled
    refine ⟨by simpa using hisOpen, hsame.nodup_iff.mpr hcallers, hsound.shut, by simp [hshut],
      fun other => ?_⟩
    rw [count_snoc_of_ne (by simp), hcounted other, callers, ← hsame.count_eq]
    rfl
  | @leaves thread signalled hopen hperm =>
    have hmiddle : (monitor.asleep ++ thread :: signalled).Perm
        ([thread] ++ (monitor.asleep ++ signalled)) := List.perm_middle
    have hsame : ([thread] ++ (monitor.asleep ++ signalled)).Perm monitor.callers :=
      hmiddle.symm.trans (hperm.append_left _)
    refine ⟨by simpa using hisOpen, ?_, by simp [hopen], hsound.opened, fun other => ?_⟩
    · exact (List.nodup_cons.mp (hsame.nodup_iff.mpr hcallers)).2
    · have hcount : [thread].count other + (monitor.asleep ++ signalled).count other =
          monitor.callers.count other :=
        List.count_append.symm.trans (hsame.count_eq other)
      have hpassed : (monitor.passed ++ [thread]).count other =
          monitor.passed.count other + [thread].count other := List.count_append
      rw [count_snoc_of_ne (by simp), hcounted other]
      change _ = (monitor.asleep ++ signalled).count other +
        (monitor.passed ++ [thread]).count other
      omega

end Effects

/-! ## Histories -/

section Histories

variable {events before later : List Event} {event : Event} {thread : ThreadId}

theorem after_snoc : after (events ++ [event]) = (after events).step event :=
  List.foldl_append

theorem IsSequential.of_append {more : List Event} (hsequential : IsSequential (events ++ more)) :
    IsSequential events := by
  intro before thread later hsplit
  refine hsequential before thread (later ++ more) ?_
  rw [hsplit, List.append_assoc, List.cons_append]

theorem IsSequential.free (hsequential : IsSequential (events ++ [event])) (thread : ThreadId)
    (hevent : event = .waits thread) : thread ∉ (after events).callers :=
  hsequential events thread [] (by rw [hevent])

theorem isSequential_nil : IsSequential [] := by
  intro before thread later hsplit
  exact absurd hsplit.symm (List.append_ne_nil_of_right_ne_nil before (List.cons_ne_nil _ _))

theorem IsSequential.snoc (hsequential : IsSequential events) (event : Event)
    (hfree : ∀ thread, event = .waits thread → thread ∉ (after events).callers) :
    IsSequential (events ++ [event]) := by
  intro before thread later hsplit
  rcases List.eq_nil_or_concat later with rfl | ⟨shorter, last, rfl⟩
  · obtain ⟨rfl, hlast⟩ := List.append_inj' hsplit rfl
    exact hfree thread (List.singleton_inj.mp hlast)
  · rw [List.concat_eq_append, ← List.cons_append, ← List.append_assoc] at hsplit
    exact hsequential before thread shorter (List.append_inj' hsplit rfl).1

theorem IsSequential.snoc_waits (hsequential : IsSequential events) (thread : ThreadId)
    (hfree : thread ∉ (after events).callers) : IsSequential (events ++ [.waits thread]) :=
  hsequential.snoc _ fun _ hevent => Event.waits.inj hevent ▸ hfree

theorem IsSequential.append_wakes (hsequential : IsSequential events) (threads : List ThreadId) :
    IsSequential (events ++ threads.map .wakes) := by
  induction threads using List.reverseRecOn with
  | nil => rwa [List.map_nil, List.append_nil]
  | append_singleton threads woken ih =>
    rw [List.map_append, ← List.append_assoc]
    exact ih.snoc _ nofun

theorem sound_new : Sound {} [] where
  isOpen := by simp
  nodup := List.nodup_nil
  shut _ := ⟨rfl, rfl⟩
  opened _ := rfl
  counted _ := rfl

theorem sound_after (hsequential : IsSequential events) : (after events).Sound events := by
  induction events using List.reverseRecOn with
  | nil => exact sound_new
  | append_singleton events event ih =>
    have hsound := ih hsequential.of_append
    rw [after_snoc]
    exact hsound.advance (hsound.effect event) hsequential.free

/-- Nobody passes before the opening. -/
theorem passed_eq_nil (hsequential : IsSequential events) (hshut : .opens ∉ events) :
    (after events).passed = [] := by
  have hsound := sound_after hsequential
  exact (hsound.shut (Bool.eq_false_iff.mpr (mt hsound.isOpen.mp hshut))).2

/-- A caller that comes before the opening sleeps until then. -/
theorem mem_asleep_of_waits (hsequential : IsSequential (before ++ .waits thread :: later))
    (hshut : .opens ∉ before ++ .waits thread :: later) :
    thread ∈ (after (before ++ .waits thread :: later)).asleep := by
  induction later using List.reverseRecOn with
  | nil =>
    have hsound := sound_after hsequential.of_append
    have hgate : (after before).gate.isOpen = false :=
      Bool.eq_false_iff.mpr fun hopen =>
        hshut (List.mem_append_left _ (hsound.isOpen.mp hopen))
    rw [after_snoc, step, if_neg (Bool.eq_false_iff.mp hgate)]
    exact List.mem_concat_self
  | append_singleton later event ih =>
    rw [← List.cons_append, ← List.append_assoc] at hsequential hshut ⊢
    obtain ⟨hearlier, hevent⟩ := not_or.mp (mt List.mem_append.mpr hshut)
    have hmem := ih hsequential.of_append hearlier
    have hsound := sound_after hsequential.of_append
    have heffect := hsound.effect event
    rw [after_snoc]
    generalize (after (before ++ .waits thread :: later)).step event = next at heffect
    cases heffect with
    | opens => exact absurd (List.mem_singleton.mpr rfl) hevent
    | opensAgain | asks | passes | idles => exact hmem
    | sleeps => exact List.mem_append_left _ hmem
    | sleepsOn hshut hperm => exact hperm.mem_iff.mpr hmem
    | leaves hopen => exact absurd (hsound.isOpen.mp hopen) hearlier

/-- Where a thread is that slept when the gate was opened: it keeps its signal until it wakes
up, and then it has passed. -/
theorem stands_since_opening (hsequential : IsSequential (before ++ .opens :: later))
    (hshut : .opens ∉ before) (hasleep : thread ∈ (after before).asleep) :
    (.wakes thread ∉ later ∧ thread ∈ (after (before ++ .opens :: later)).signalled ∧
        thread ∉ (after (before ++ .opens :: later)).passed) ∨
      (.wakes thread ∈ later ∧ thread ∈ (after (before ++ .opens :: later)).passed) := by
  induction later using List.reverseRecOn with
  | nil =>
    have hsound := sound_after hsequential.of_append
    have hgate : (after before).gate.isOpen = false :=
      Bool.eq_false_iff.mpr (mt hsound.isOpen.mp hshut)
    rw [after_snoc, step, if_neg (Bool.eq_false_iff.mp hgate)]
    refine .inl ⟨List.not_mem_nil, List.mem_append_right _ hasleep, ?_⟩
    rw [(hsound.shut hgate).2]
    exact List.not_mem_nil
  | append_singleton later event ih =>
    rw [← List.cons_append, ← List.append_assoc] at hsequential ⊢
    have hsound := sound_after hsequential.of_append
    have hopen : (after (before ++ .opens :: later)).gate.isOpen = true :=
      hsound.isOpen.mpr (List.mem_append_right _ List.mem_cons_self)
    have hstands := ih hsequential.of_append
    have heffect := hsound.effect event
    have hcalls := hsequential.free thread
    rw [after_snoc]
    generalize (after (before ++ .opens :: later)).step event = next at heffect
    rcases hstands with ⟨hunwoken, hsignalled, hwaits⟩ | ⟨hwoken, hpassed⟩
    · have hcaller := List.mem_append_right (after (before ++ .opens :: later)).asleep hsignalled
      cases heffect with
      | opens hshut | sleeps hshut | sleepsOn hshut => rw [hopen] at hshut; cases hshut
      | opensAgain | asks => exact .inl ⟨by simpa using hunwoken, hsignalled, hwaits⟩
      | @passes other =>
        have hother : thread ≠ other := by
          rintro rfl
          exact hcalls rfl hcaller
        exact .inl ⟨by simpa using hunwoken, hsignalled, by simpa using ⟨hwaits, hother⟩⟩
      | @idles other hunknown =>
        have hother : thread ≠ other := by
          rintro rfl
          exact hunknown hcaller
        exact .inl ⟨by simpa using ⟨hunwoken, hother⟩, hsignalled, hwaits⟩
      | @leaves other signalled _ hperm =>
        by_cases hother : thread = other
        · exact .inr ⟨by simp [hother], by simp [hother]⟩
        · have hkept := List.mem_of_ne_of_mem hother (hperm.mem_iff.mpr hsignalled)
          exact .inl ⟨by simpa using ⟨hunwoken, hother⟩, hkept, by simpa using ⟨hwaits, hother⟩⟩
    · exact .inr ⟨List.mem_append_left _ hwoken, heffect.passed_subset hpassed⟩

/-- Who still has a signal after some wake-ups at an open gate had it before and is none of
those that woke up. -/
theorem mem_signalled_of_wakes {threads : List ThreadId} (hsequential : IsSequential events)
    (hopened : .opens ∈ events)
    (hsignalled : thread ∈ (after (events ++ threads.map .wakes)).signalled) :
    thread ∈ (after events).signalled ∧ thread ∉ threads := by
  induction threads using List.reverseRecOn with
  | nil => simpa using hsignalled
  | append_singleton threads woken ih =>
    rw [List.map_append, ← List.append_assoc, List.map_singleton, after_snoc] at hsignalled
    have hsound := sound_after (hsequential.append_wakes threads)
    have hopen := hsound.isOpen.mpr (List.mem_append_left _ hopened)
    have heffect := hsound.effect (.wakes woken)
    have hnodup := hsound.nodup
    rw [callers, hsound.opened hopen, List.nil_append] at hnodup
    suffices hkept : thread ∈ (after (events ++ threads.map .wakes)).signalled ∧
        thread ≠ woken by
      simpa [hkept.2] using ih hkept.1
    generalize (after (events ++ threads.map .wakes)).step (.wakes woken) = next
      at heffect hsignalled
    cases heffect with
    | idles hfree =>
      refine ⟨hsignalled, ?_⟩
      rintro rfl
      exact hfree (List.mem_append_right _ hsignalled)
    | sleepsOn hshut => rw [hopen] at hshut; cases hshut
    | leaves _ hperm =>
      refine ⟨hperm.mem_iff.mp (List.mem_cons_of_mem _ hsignalled), ?_⟩
      rintro rfl
      exact (List.nodup_cons.mp (hperm.nodup_iff.mpr hnodup)).1 hsignalled

/-- At an open gate nobody waits any more once those that have a signal have woken up. -/
theorem waiting_settle (hsequential : IsSequential events) (hopened : .opens ∈ events) :
    (after events).settle.waiting = 0 := by
  have hsettled : (after events).settle =
      after (events ++ (after events).signalled.map .wakes) :=
    calc (after events).settle
        = ((after events).signalled.map .wakes).foldl step (after events) := List.foldl_map.symm
      _ = after (events ++ (after events).signalled.map .wakes) := List.foldl_append.symm
  have hsound := sound_after (hsequential.append_wakes (after events).signalled)
  have hasleep := hsound.opened (hsound.isOpen.mpr (List.mem_append_left _ hopened))
  have hsignalled : (after (events ++ (after events).signalled.map .wakes)).signalled = [] := by
    refine List.eq_nil_iff_forall_not_mem.mpr fun thread hmem => ?_
    obtain ⟨hbefore, hunwoken⟩ := mem_signalled_of_wakes hsequential hopened hmem
    exact hunwoken hbefore
  rw [hsettled, waiting, hasleep, hsignalled]
  rfl

end Histories

/-- A gate admits nobody early and strands nobody.  In every history in which no thread calls
while it is inside a wait, the gate is open exactly where it has been opened.  Until then nobody
has passed, and from then on nobody is asleep, and nobody is left waiting once the threads that
have a signal have woken up.  Every wait is still going on or has returned, and never twice.  The
first opening signals all threads that wait; each keeps its signal until it wakes up next, and
then it has passed; a further opening changes nothing.  A wait at an open gate returns at once,
and one at a shut gate sleeps until the opening. -/
theorem opening_releases_all {events : List Event} (hsequential : IsSequential events) :
    ((after events).gate.isOpen = true ↔ .opens ∈ events) ∧
      (.opens ∉ events → (after events).passed = []) ∧
      (.opens ∈ events → (after events).asleep = [] ∧ (after events).settle.waiting = 0) ∧
      (∀ thread, events.count (.waits thread) =
        (after events).callers.count thread + (after events).passed.count thread) ∧
      (∀ before later, events = before ++ .opens :: later →
        (.opens ∉ before →
          (after (before ++ [.opens])).signalled = (after before).callers ∧
          ∀ thread ∈ (after before).callers,
            (.wakes thread ∉ later ∧ thread ∈ (after events).signalled ∧
                thread ∉ (after events).passed) ∨
              (.wakes thread ∈ later ∧ thread ∈ (after events).passed)) ∧
        (.opens ∈ before → after (before ++ [.opens]) = after before)) ∧
      ∀ before thread later, events = before ++ .waits thread :: later →
        (.opens ∈ before → after (before ++ [.waits thread]) =
          { after before with passed := (after before).passed ++ [thread] }) ∧
        (.opens ∉ before → .opens ∉ later → thread ∈ (after events).asleep) := by
  have hsound := sound_after hsequential
  refine ⟨hsound.isOpen, passed_eq_nil hsequential, fun hopened => ?_, hsound.counted, ?_, ?_⟩
  · exact ⟨hsound.opened (hsound.isOpen.mpr hopened), waiting_settle hsequential hopened⟩
  · rintro before later rfl
    have hbefore := sound_after hsequential.of_append
    refine ⟨fun hshut => ?_, fun hopened => ?_⟩
    · have hgate : (after before).gate.isOpen = false :=
        Bool.eq_false_iff.mpr (mt hbefore.isOpen.mp hshut)
      have hcallers : (after before).callers = (after before).asleep := by
        rw [callers, (hbefore.shut hgate).1, List.append_nil]
      rw [hcallers]
      refine ⟨?_, fun thread hasleep => stands_since_opening hsequential hshut hasleep⟩
      rw [after_snoc, step, if_neg (Bool.eq_false_iff.mp hgate), (hbefore.shut hgate).1]
      rfl
    · rw [after_snoc, step, if_pos (hbefore.isOpen.mpr hopened)]
  · rintro before thread later rfl
    have hbefore := sound_after hsequential.of_append
    refine ⟨fun hopened => ?_, fun hshut hlater => ?_⟩
    · rw [after_snoc, step, if_pos (hbefore.isOpen.mpr hopened)]
    · exact mem_asleep_of_waits hsequential (by simpa using ⟨hshut, hlater⟩)

/-- A thread wakes up for nothing before the gate is opened, and another one comes after it. -/
def crowdedGate : List Event :=
  [.waits 0, .waits 1, .wakes 0, .opens, .waits 2, .opens, .wakes 1]

theorem isSequential_crowdedGate : IsSequential crowdedGate := by
  have hwaiting := (isSequential_nil.snoc_waits 0 (by decide)).snoc_waits 1 (by decide)
  have hlate := ((hwaiting.snoc (.wakes 0) nofun).snoc .opens nofun).snoc_waits 2 (by decide)
  exact (hlate.snoc .opens nofun).snoc (.wakes 1) nofun

theorem opening_releases_all_of_crowdedGate :
    IsSequential crowdedGate ∧ .opens ∈ crowdedGate ∧ (after crowdedGate).settle.waiting = 0 ∧
      0 ∈ (after crowdedGate).signalled ∧ 1 ∈ (after crowdedGate).passed := by
  obtain ⟨-, -, hsettles, -, hopens, -⟩ := opening_releases_all isSequential_crowdedGate
  have hopened : .opens ∈ crowdedGate := by decide
  obtain ⟨-, hleaves⟩ := (hopens [.waits 0, .waits 1, .wakes 0] _ rfl).1 (by decide)
  refine ⟨isSequential_crowdedGate, hopened, (hsettles hopened).2, ?_, ?_⟩
  · exact ((hleaves 0 (by decide)).resolve_right fun hwoken => absurd hwoken.1 (by decide)).2.1
  · exact ((hleaves 1 (by decide)).resolve_left fun hunwoken => hunwoken.1 (by decide)).2

end GateMonitor

end FragmentLifecycle
