import FragmentLifecycle.Sync.PauseControls
import Mathlib.Data.Set.Card

/-!
# Histories of pauses

The sections of the callers of pause controls, one after another, from new controls on.  What
one section does is said once (`PauseMonitor.Effect`).  A call that blocks is asleep until the
next resumption, signalled until its next wake-up, and over after that
(`PauseMonitor.Sound.stands`): resumptions are counted, so a sleeping call has seen the count
that is current and a signalled one a count that is past, as long as the count does not wrap.
-/

namespace FragmentLifecycle

namespace PauseMonitor

/-- The controls and their callers after `events`, from new ones on. -/
def after (events : List Event) : PauseMonitor :=
  events.foldl step {}

/-- What the calls of a thread have returned. -/
def resultsOf (monitor : PauseMonitor) (thread : ThreadId) : List Bool :=
  (monitor.returned.filter fun result => result.1 = thread).map Prod.snd

/-- Whether a call at `site`, made after `events`, stays there. -/
def Blocks (events : List Event) (thread : ThreadId) (site : String) : Prop :=
  (after (events ++ [.reaches thread site])).returned = (after events).returned

/-- An arming of `site` is left: no resumption and no call that has used one up has come
after it. -/
def Armed (site : String) (events : List Event) : Prop :=
  ∃ before later, events = before ++ .arms site :: later ∧ .unpauses ∉ later ∧
    ∀ middle thread rest, later = middle ++ .reaches thread site :: rest →
      ¬ Blocks (before ++ .arms site :: middle) thread site

/-- A thread that is blocked before `later` has been released in it and has woken up since. -/
def Resumed (thread : ThreadId) (later : List Event) : Prop :=
  ∃ first second, later = first ++ .wakes thread :: second ∧ .unpauses ∈ first

/-- The call that `thread` makes at `position` has blocked and has not yet resumed. -/
def IsOpen (events : List Event) (thread : ThreadId) (position : Nat) : Prop :=
  ∃ before site later, events = before ++ .reaches thread site :: later ∧
    before.length = position ∧ Blocks before thread site ∧ ¬ Resumed thread later

/-- No thread calls while it is blocked in a call. -/
def IsSequential (events : List Event) : Prop :=
  ∀ before thread site later, events = before ++ .reaches thread site :: later →
    (after before).find? thread = none

/-- A history of sequential callers in which the count of resumptions does not wrap. -/
structure IsRegular (events : List Event) : Prop where
  sequential : IsSequential events
  few : events.count .unpauses < 2 ^ 64

/-! ## One more event -/

section Snoc

variable {events later : List Event} {event : Event} {thread : ThreadId} {site : String}

theorem after_snoc : after (events ++ [event]) = (after events).step event :=
  List.foldl_append

theorem cons_snoc {before : List Event} {chosen : Event} :
    before ++ chosen :: (later ++ [event]) = (before ++ chosen :: later) ++ [event] :=
  (List.append_assoc before (chosen :: later) [event]).symm

/-- Where an event stands in a list that is one event longer. -/
theorem snoc_eq_split {before : List Event} {chosen : Event} :
    events ++ [event] = before ++ chosen :: later ↔
      (later = [] ∧ events = before ∧ event = chosen) ∨
        ∃ shorter, later = shorter ++ [event] ∧ events = before ++ chosen :: shorter := by
  constructor
  · intro hsplit
    rcases List.eq_nil_or_concat later with rfl | ⟨shorter, last, rfl⟩
    · obtain ⟨hevents, hlast⟩ := List.append_inj' hsplit rfl
      exact .inl ⟨rfl, hevents, List.singleton_inj.mp hlast⟩
    · rw [List.concat_eq_append] at hsplit ⊢
      obtain ⟨hevents, hlast⟩ := List.append_inj' (hsplit.trans cons_snoc) rfl
      exact .inr ⟨shorter, by rw [List.singleton_inj.mp hlast], hevents⟩
  · rintro (⟨rfl, rfl, rfl⟩ | ⟨shorter, rfl, rfl⟩)
    · rfl
    · exact cons_snoc.symm

theorem resumed_snoc : Resumed thread (later ++ [event]) ↔
    Resumed thread later ∨ (event = .wakes thread ∧ .unpauses ∈ later) := by
  constructor
  · rintro ⟨first, second, hsplit, hreleased⟩
    rcases snoc_eq_split.mp hsplit with ⟨-, rfl, hevent⟩ | ⟨shorter, -, hshorter⟩
    · exact .inr ⟨hevent, hreleased⟩
    · exact .inl ⟨first, shorter, hshorter, hreleased⟩
  · rintro (⟨first, second, hsplit, hreleased⟩ | ⟨hevent, hreleased⟩)
    · exact ⟨first, second ++ [event], snoc_eq_split.mpr (.inr ⟨second, rfl, hsplit⟩), hreleased⟩
    · exact ⟨later, [], snoc_eq_split.mpr (.inl ⟨rfl, rfl, hevent⟩), hreleased⟩

theorem IsSequential.of_append {more : List Event} (hsequential : IsSequential (events ++ more)) :
    IsSequential events := by
  intro before thread site later hsplit
  refine hsequential before thread site (later ++ more) ?_
  rw [hsplit, List.append_assoc, List.cons_append]

theorem IsRegular.of_append {more : List Event} (hregular : IsRegular (events ++ more)) :
    IsRegular events :=
  ⟨hregular.sequential.of_append,
    Nat.lt_of_le_of_lt ((List.sublist_append_left _ _).count_le _) hregular.few⟩

theorem IsRegular.free_of_last (hregular : IsRegular (events ++ [event])) :
    ∀ thread site, event = .reaches thread site → (after events).find? thread = none := by
  rintro thread site rfl
  exact hregular.sequential events thread site [] rfl

theorem Resumed.released (hresumed : Resumed thread later) : .unpauses ∈ later := by
  obtain ⟨first, second, rfl, hreleased⟩ := hresumed
  exact List.mem_append_left _ hreleased

theorem Resumed.append {more : List Event} (hresumed : Resumed thread later) :
    Resumed thread (later ++ more) := by
  obtain ⟨first, second, rfl, hreleased⟩ := hresumed
  exact ⟨first, second ++ more, by rw [List.append_assoc, List.cons_append], hreleased⟩

theorem not_resumed_nil : ¬ Resumed thread [] := by
  rintro ⟨first, second, hsplit, -⟩
  exact List.append_ne_nil_of_right_ne_nil first (List.cons_ne_nil _ _) hsplit.symm

theorem armed_snoc : Armed site (events ++ [event]) ↔ event = .arms site ∨
    (Armed site events ∧ event ≠ .unpauses ∧
      ∀ thread, event = .reaches thread site → ¬ Blocks events thread site) := by
  constructor
  · rintro ⟨before, later, hsplit, hunpaused, hunused⟩
    rcases snoc_eq_split.mp hsplit with ⟨-, -, hevent⟩ | ⟨shorter, rfl, rfl⟩
    · exact .inl hevent
    · refine .inr ⟨⟨before, shorter, rfl, fun hmem => hunpaused (List.mem_append_left _ hmem), ?_⟩,
        fun hevent => hunpaused (hevent ▸ List.mem_concat_self), ?_⟩
      · intro middle thread rest hmiddle
        exact hunused middle thread (rest ++ [event])
          (snoc_eq_split.mpr (.inr ⟨rest, rfl, hmiddle⟩))
      · intro thread hevent
        exact hunused shorter thread [] (snoc_eq_split.mpr (.inl ⟨rfl, rfl, hevent⟩))
  · rintro (hevent | ⟨⟨before, later, rfl, hunpaused, hunused⟩, hreleases, hlast⟩)
    · exact ⟨events, [], snoc_eq_split.mpr (.inl ⟨rfl, rfl, hevent⟩), by simp, by simp⟩
    · refine ⟨before, later ++ [event], snoc_eq_split.mpr (.inr ⟨later, rfl, rfl⟩), ?_, ?_⟩
      · simpa using ⟨hunpaused, hreleases.symm⟩
      · intro middle thread rest hmiddle
        rcases snoc_eq_split.mp hmiddle with ⟨-, rfl, hevent⟩ | ⟨shorter, -, hshorter⟩
        · exact hlast thread hevent
        · exact hunused middle thread shorter hshorter

end Snoc

/-! ## Armings -/

section Armings

variable {monitor : PauseMonitor} {events : List Event} {thread : ThreadId} {site : String}

theorem step_reaches_of_not_mem (hdisarmed : site ∉ monitor.controls.armed) :
    monitor.step (.reaches thread site) =
      { monitor with returned := monitor.returned ++ [(thread, false)] } := by
  simp only [step, PauseControls.enter?, if_neg hdisarmed]

theorem step_reaches_of_mem (harmed : site ∈ monitor.controls.armed) :
    monitor.step (.reaches thread site) =
      { monitor with
        controls :=
          { monitor.controls with
            armed := monitor.controls.armed.filter (· != site)
            paused := monitor.controls.paused + 1 }
        asleep := monitor.asleep ++ [⟨thread, site, monitor.controls.generation⟩] } := by
  simp only [step, PauseControls.enter?, if_pos harmed]

theorem blocks_iff_mem : Blocks events thread site ↔ site ∈ (after events).controls.armed := by
  rw [Blocks, after_snoc]
  by_cases harmed : site ∈ (after events).controls.armed
  · simp [step_reaches_of_mem harmed, harmed]
  · simp [step_reaches_of_not_mem harmed, harmed]

theorem armed_step_wakes : (monitor.step (.wakes thread)).controls.armed =
    monitor.controls.armed := by
  simp only [step]
  split
  · rfl
  · split <;> rfl

/-- A site is armed exactly where an arming of it is left. -/
theorem mem_armed_iff : site ∈ (after events).controls.armed ↔ Armed site events := by
  induction events using List.reverseRecOn with
  | nil => simp [after, Armed]
  | append_singleton events event ih =>
    rw [after_snoc, armed_snoc, ← ih]
    cases event with
    | arms other =>
      simp only [step, PauseControls.arm]
      split
      · have hsame : other = site → site ∈ (after events).controls.armed := by
          rintro rfl
          assumption
        simpa using hsame
      · simp [or_comm, eq_comm]
    | reaches caller other =>
      by_cases harmed : other ∈ (after events).controls.armed
      · simp only [step_reaches_of_mem harmed, blocks_iff_mem, List.mem_filter, bne_iff_ne, ne_eq,
          Event.reaches.injEq, reduceCtorEq, not_false_eq_true, true_and, false_or]
        refine and_congr_right fun hleft => ⟨fun hother thread hcall => ?_, fun hunused hsame => ?_⟩
        · exact absurd hcall.2.symm hother
        · exact hunused caller ⟨rfl, hsame.symm⟩ hleft
      · -- the call does not block, so it uses no arming up
        simp only [step_reaches_of_not_mem harmed, blocks_iff_mem, Event.reaches.injEq,
          reduceCtorEq, ne_eq, not_false_eq_true, true_and, false_or]
        refine ⟨fun hleft => ⟨hleft, fun thread hcall => ?_⟩, And.left⟩
        exact hcall.2 ▸ harmed
    | unpauses => simp [step, PauseControls.unpauseAll]
    | wakes woken => simp [armed_step_wakes]

theorem blocks_iff : Blocks events thread site ↔ Armed site events :=
  blocks_iff_mem.trans mem_armed_iff

end Armings

/-! ## What one section does -/

/-- The calls that have blocked and are not over. -/
def blocked (monitor : PauseMonitor) : List Pause :=
  monitor.asleep ++ monitor.signalled

/-- Every blocked thread is blocked once, the sleeping ones in the current generation and the
signalled ones in one that is past. -/
structure Sound (monitor : PauseMonitor) (resumptions : Nat) : Prop where
  nodup : (monitor.blocked.map Pause.thread).Nodup
  current : ∀ pause ∈ monitor.asleep, pause.generation = monitor.controls.generation
  past : ∀ pause ∈ monitor.signalled,
    pause.generation.toNat < monitor.controls.generation.toNat
  counted : monitor.controls.generation.toNat = resumptions
  paused : monitor.controls.paused = monitor.blocked.length

/-- What the section of an event does. -/
inductive Effect (monitor : PauseMonitor) : Event → PauseMonitor → Prop
  | arms {site} : Effect monitor (.arms site)
      { monitor with controls := monitor.controls.arm site }
  | passes {thread site} (hdisarmed : site ∉ monitor.controls.armed) :
      Effect monitor (.reaches thread site)
        { monitor with returned := monitor.returned ++ [(thread, false)] }
  | blocks {thread site} (harmed : site ∈ monitor.controls.armed) :
      Effect monitor (.reaches thread site)
        { monitor with
          controls :=
            { monitor.controls with
              armed := monitor.controls.armed.filter (· != site)
              paused := monitor.controls.paused + 1 }
          asleep := monitor.asleep ++ [⟨thread, site, monitor.controls.generation⟩] }
  | releases : Effect monitor .unpauses
      { monitor with
        controls := monitor.controls.unpauseAll
        asleep := []
        signalled := monitor.signalled ++ monitor.asleep }
  | idles {thread} (hfree : monitor.find? thread = none) : Effect monitor (.wakes thread) monitor
  | sleepsOn {pause asleep} (hmem : pause ∈ monitor.asleep)
      (hperm : asleep.Perm monitor.asleep) :
      Effect monitor (.wakes pause.thread) { monitor with asleep }
  | resumes {pause signalled} (hperm : (pause :: signalled).Perm monitor.signalled) :
      Effect monitor (.wakes pause.thread)
        { monitor with
          controls := monitor.controls.leave
          signalled
          returned := monitor.returned ++ [(pause.thread, true)] }

section Effects

variable {monitor : PauseMonitor} {resumptions : Nat} {thread : ThreadId} {pause other : Pause}
  {pauses signalled : List Pause} {event : Event}

theorem generation_arm (controls : PauseControls) (site : String) :
    (controls.arm site).generation = controls.generation := by
  unfold PauseControls.arm
  split <;> rfl

theorem paused_arm (controls : PauseControls) (site : String) :
    (controls.arm site).paused = controls.paused := by
  unfold PauseControls.arm
  split <;> rfl

theorem find?_eq_none : monitor.find? thread = none ↔
    ∀ pause ∈ monitor.blocked, pause.thread ≠ thread := by
  simp [find?, blocked, or_imp, forall_and]

theorem filter_of_other (hother : ∀ pause ∈ pauses, pause.thread ≠ thread) :
    pauses.filter (fun other => other.thread != thread) = pauses :=
  List.filter_eq_self.mpr fun pause hpause => by simpa using hother pause hpause

/-- Where every thread is blocked once, leaving out a thread leaves out its pause. -/
theorem cons_filter_perm (hnodup : (pauses.map Pause.thread).Nodup) (hmem : pause ∈ pauses) :
    (pause :: pauses.filter fun other => other.thread != pause.thread).Perm pauses := by
  induction pauses with
  | nil => cases hmem
  | cons first rest ih =>
    obtain ⟨hfirst, hrest⟩ := List.nodup_cons.mp hnodup
    rcases List.mem_cons.mp hmem with rfl | hlater
    · have hothers : ∀ other ∈ rest, other.thread ≠ pause.thread := fun other hother hsame =>
        hfirst (hsame ▸ List.mem_map_of_mem hother)
      rw [List.filter_cons_of_neg (by simp), filter_of_other hothers]
    · have hdiffers : first.thread ≠ pause.thread := fun hsame =>
        hfirst (hsame ▸ List.mem_map_of_mem hlater)
      rw [List.filter_cons_of_pos (by simpa using hdiffers)]
      exact (List.Perm.swap _ _ _).trans ((ih hrest hlater).cons first)

theorem Sound.nodup_asleep (hsound : monitor.Sound resumptions) :
    (monitor.asleep.map Pause.thread).Nodup :=
  ((List.sublist_append_left _ _).map _).nodup hsound.nodup

theorem Sound.nodup_signalled (hsound : monitor.Sound resumptions) :
    (monitor.signalled.map Pause.thread).Nodup :=
  ((List.sublist_append_right _ _).map _).nodup hsound.nodup

theorem Sound.thread_ne (hsound : monitor.Sound resumptions) (hasleep : pause ∈ monitor.asleep)
    (hsignalled : other ∈ monitor.signalled) : pause.thread ≠ other.thread := by
  have hnodup := hsound.nodup
  rw [blocked, List.map_append] at hnodup
  intro hsame
  exact List.disjoint_of_nodup_append hnodup (List.mem_map_of_mem hasleep)
    (hsame ▸ List.mem_map_of_mem hsignalled)

theorem Sound.effect (hsound : monitor.Sound resumptions) (event : Event) :
    monitor.Effect event (monitor.step event) := by
  cases event with
  | arms site => exact .arms
  | reaches thread site =>
    by_cases harmed : site ∈ monitor.controls.armed
    · rw [step_reaches_of_mem harmed]
      exact .blocks harmed
    · rw [step_reaches_of_not_mem harmed]
      exact .passes harmed
  | unpauses => exact .releases
  | wakes thread =>
    cases hfind : monitor.find? thread with
    | none =>
      simp only [step, hfind]
      exact .idles hfind
    | some pause =>
      obtain rfl : pause.thread = thread := by simpa using List.find?_some hfind
      simp only [step, hfind]
      rcases List.mem_append.mp (List.mem_of_find?_eq_some hfind) with hmem | hmem
      · have hothers : ∀ other ∈ monitor.signalled, other.thread ≠ pause.thread :=
          fun other hother => (hsound.thread_ne hmem hother).symm
        have hstays : monitor.controls.isOver pause.generation = false := by
          simp [PauseControls.isOver, hsound.current pause hmem]
        rw [hstays, filter_of_other hothers]
        exact .sleepsOn hmem
          ((List.perm_append_singleton _ _).trans (cons_filter_perm hsound.nodup_asleep hmem))
      · have hothers : ∀ other ∈ monitor.asleep, other.thread ≠ pause.thread :=
          fun other hother => hsound.thread_ne hother hmem
        have hover : monitor.controls.isOver pause.generation = true := by
          have hpast := hsound.past pause hmem
          have hdiffers : monitor.controls.generation ≠ pause.generation := by
            rintro hsame
            exact absurd hpast (by simp [hsame])
          simpa [PauseControls.isOver] using hdiffers
        rw [hover, filter_of_other hothers]
        exact .resumes (cons_filter_perm hsound.nodup_signalled hmem)

/-- The number of resumptions, one more. -/
theorem toNat_generation_unpauseAll {controls : PauseControls}
    (hbound : controls.generation.toNat + 1 < 2 ^ 64) :
    controls.unpauseAll.generation.toNat = controls.generation.toNat + 1 :=
  (UInt64.toNat_add _ _).trans (Nat.mod_eq_of_lt hbound)

theorem perm_of_resumes (hperm : (pause :: signalled).Perm monitor.signalled) :
    (pause :: (monitor.asleep ++ signalled)).Perm monitor.blocked :=
  List.perm_middle.symm.trans (hperm.append_left _)

theorem Sound.of_perm {next : PauseMonitor} (hsound : monitor.Sound resumptions)
    (hcontrols : next.controls = monitor.controls) (hasleep : next.asleep.Perm monitor.asleep)
    (hsignalled : next.signalled = monitor.signalled) : next.Sound resumptions := by
  have hblocked : next.blocked.Perm monitor.blocked := by
    rw [blocked, hsignalled]
    exact hasleep.append_right _
  refine ⟨(hblocked.map _).nodup_iff.mpr hsound.nodup, fun pause hmem => ?_, ?_, ?_, ?_⟩
  · rw [hcontrols]
    exact hsound.current pause (hasleep.mem_iff.mp hmem)
  · rw [hcontrols, hsignalled]
    exact hsound.past
  · rw [hcontrols]
    exact hsound.counted
  · rw [hcontrols, hblocked.length_eq]
    exact hsound.paused

/-- What one section keeps, when it is none of a blocked thread and the count of resumptions
does not wrap. -/
theorem Sound.step (hsound : monitor.Sound resumptions)
    (hfree : ∀ thread site, event = .reaches thread site → monitor.find? thread = none)
    (hbound : resumptions + [event].count .unpauses < 2 ^ 64) :
    (monitor.step event).Sound (resumptions + [event].count .unpauses) := by
  have heffect := hsound.effect event
  generalize monitor.step event = next at heffect
  obtain ⟨hnodup, hcurrent, hpast, hcounted, hpaused⟩ := id hsound
  cases heffect with
  | @arms site =>
    refine ⟨hnodup, fun pause hmem => ?_, fun pause hmem => ?_, ?_, ?_⟩
    · exact (hcurrent pause hmem).trans (generation_arm _ site).symm
    · exact (hpast pause hmem).trans_eq (congrArg UInt64.toNat (generation_arm _ site).symm)
    · exact (congrArg UInt64.toNat (generation_arm _ site)).trans hcounted
    · exact (paused_arm _ site).trans hpaused
  | passes hdisarmed => exact hsound.of_perm rfl (.refl _) rfl
  | @blocks thread site harmed =>
    have hnew := find?_eq_none.mp (hfree thread site rfl)
    have hblocked : (monitor.asleep ++ [Pause.mk thread site monitor.controls.generation] ++
        monitor.signalled).Perm
          (Pause.mk thread site monitor.controls.generation :: monitor.blocked) := by
      rw [List.append_assoc, List.singleton_append]
      exact List.perm_middle
    refine ⟨?_, fun pause hmem => ?_, hpast, hcounted, ?_⟩
    · refine (hblocked.map Pause.thread).nodup_iff.mpr (List.nodup_cons.mpr ⟨?_, hnodup⟩)
      rintro hmem
      obtain ⟨pause, hpause, hsame⟩ := List.mem_map.mp hmem
      exact hnew pause hpause hsame
    · rcases List.mem_append.mp hmem with hold | hlast
      · exact hcurrent pause hold
      · rw [List.mem_singleton.mp hlast]
    · calc monitor.controls.paused + 1
          = monitor.blocked.length + 1 := by rw [hpaused]
        _ = _ := hblocked.length_eq.symm
  | releases =>
    have hnext := toNat_generation_unpauseAll (hcounted.symm ▸ hbound)
    have hblocked : (monitor.signalled ++ monitor.asleep).Perm monitor.blocked :=
      List.perm_append_comm
    refine ⟨(hblocked.map Pause.thread).nodup_iff.mpr hnodup, fun _ hmem => (nomatch hmem),
      fun pause hmem => ?_, hnext.trans (congrArg (· + 1) hcounted), ?_⟩
    · refine Nat.lt_of_le_of_lt ?_ ((Nat.lt_succ_self _).trans_eq hnext.symm)
      rcases List.mem_append.mp hmem with hsignalled | hasleep
      · exact (hpast pause hsignalled).le
      · rw [hcurrent pause hasleep]
    · exact hpaused.trans hblocked.length_eq.symm
  | idles => exact hsound
  | sleepsOn _ hperm => exact hsound.of_perm rfl hperm rfl
  | @resumes pause signalled hperm =>
    have hblocked := perm_of_resumes hperm
    have hothers := (hblocked.map Pause.thread).nodup_iff.mpr hnodup
    refine ⟨(List.nodup_cons.mp hothers).2, hcurrent, fun other hmem => ?_, hcounted, ?_⟩
    · exact hpast other (hperm.mem_iff.mp (List.mem_cons_of_mem _ hmem))
    · calc monitor.controls.paused - 1
          = (pause :: (monitor.asleep ++ signalled)).length - 1 := by
            rw [hpaused, hblocked.length_eq]
        _ = _ := rfl

end Effects

/-! ## The course of a call -/

/-- The pause of a call that has blocked is asleep until it is `released`, and signalled from
then on; its thread has returned nothing but `results`. -/
structure Stands (monitor : PauseMonitor) (pause : Pause) (released : Prop)
    (results : List Bool) : Prop where
  asleep : ¬ released → pause ∈ monitor.asleep
  signalled : released → pause ∈ monitor.signalled
  results : monitor.resultsOf pause.thread = results

section Course

variable {monitor : PauseMonitor} {resumptions : Nat} {pause : Pause}
  {released : Prop} {results : List Bool} {event : Event}

theorem resultsOf_append (monitor next : PauseMonitor) (thread : ThreadId) {caller : ThreadId}
    {result : Bool} (hreturned : next.returned = monitor.returned ++ [(caller, result)]) :
    next.resultsOf thread = if caller = thread then monitor.resultsOf thread ++ [result]
      else monitor.resultsOf thread := by
  simp only [resultsOf, hreturned, List.filter_append, List.map_append]
  split
  · simp [*]
  · simp [*]

theorem Stands.mem_blocked (hstands : monitor.Stands pause released results) :
    pause ∈ monitor.blocked := by
  by_cases hreleased : released
  · exact List.mem_append_right _ (hstands.signalled hreleased)
  · exact List.mem_append_left _ (hstands.asleep hreleased)

/-- Only a wake-up of its thread after its release ends a pause. -/
theorem Stands.step (hstands : monitor.Stands pause released results)
    (hsound : monitor.Sound resumptions)
    (hfree : ∀ thread site, event = .reaches thread site → monitor.find? thread = none)
    (hwakes : event = .wakes pause.thread → ¬ released) :
    (monitor.step event).Stands pause (released ∨ event = .unpauses) results := by
  have heffect := hsound.effect event
  have hblocked := hstands.mem_blocked
  generalize monitor.step event = next at heffect
  obtain ⟨hasleep, hsignalled, hresults⟩ := hstands
  cases heffect with
  | arms => exact ⟨by simpa using hasleep, by simpa using hsignalled, hresults⟩
  | @passes thread site hdisarmed =>
    have hother : thread ≠ pause.thread :=
      (find?_eq_none.mp (hfree thread site rfl) pause hblocked).symm
    refine ⟨by simpa using hasleep, by simpa using hsignalled, ?_⟩
    rw [resultsOf_append monitor _ _ rfl, if_neg hother]
    exact hresults
  | blocks harmed =>
    refine ⟨fun hrunning => List.mem_append_left _ (hasleep (by simpa using hrunning)),
      by simpa using hsignalled, hresults⟩
  | releases =>
    refine ⟨fun hrunning => absurd (.inr rfl) hrunning, fun _ => ?_, hresults⟩
    exact (List.perm_append_comm.mem_iff).mp hblocked
  | idles => exact ⟨by simpa using hasleep, by simpa using hsignalled, hresults⟩
  | sleepsOn hmem hperm =>
    refine ⟨fun hrunning => hperm.mem_iff.mpr (hasleep (by simpa using hrunning)),
      by simpa using hsignalled, hresults⟩
  | @resumes woken signalled hperm =>
    have hwoken : woken ∈ monitor.signalled := hperm.mem_iff.mp List.mem_cons_self
    have hother : woken.thread ≠ pause.thread := by
      intro hsame
      exact hsound.thread_ne (hasleep (hwakes (congrArg Event.wakes hsame))) hwoken hsame.symm
    refine ⟨by simpa using hasleep, fun hreleased => ?_, ?_⟩
    · have hmem := hperm.mem_iff.mpr (hsignalled (by simpa using hreleased))
      refine (List.mem_cons.mp hmem).resolve_left ?_
      rintro rfl
      exact hother rfl
    · rw [resultsOf_append monitor _ _ rfl, if_neg hother]
      exact hresults

/-- A wake-up after its release ends a pause. -/
theorem Sound.wakes_signalled (hsound : monitor.Sound resumptions)
    (hsignalled : pause ∈ monitor.signalled) :
    (monitor.step (.wakes pause.thread)).resultsOf pause.thread =
        monitor.resultsOf pause.thread ++ [true] ∧
      (monitor.step (.wakes pause.thread)).find? pause.thread = none := by
  have heffect := hsound.effect (.wakes pause.thread)
  generalize monitor.step (.wakes pause.thread) = next at heffect
  generalize hthread : pause.thread = thread at heffect
  cases heffect with
  | idles hfree =>
    exact absurd hthread (find?_eq_none.mp hfree pause (List.mem_append_right _ hsignalled))
  | sleepsOn hmem hperm => exact absurd hthread.symm (hsound.thread_ne hmem hsignalled)
  | @resumes woken signalled hperm =>
    constructor
    · rw [resultsOf_append monitor _ _ rfl, if_pos rfl]
    · have hothers := ((perm_of_resumes hperm).map Pause.thread).nodup_iff.mpr hsound.nodup
      refine find?_eq_none.mpr fun other hother hsame => ?_
      exact (List.nodup_cons.mp hothers).1 (hsame ▸ List.mem_map_of_mem hother)

end Course

/-! ## Whole histories -/

section Histories

variable {events before later : List Event} {thread : ThreadId} {site : String}
  {position : Nat} {event : Event}

theorem sound_after (hregular : IsRegular events) :
    (after events).Sound (events.count .unpauses) := by
  induction events using List.reverseRecOn with
  | nil => exact ⟨List.nodup_nil, nofun, nofun, rfl, rfl⟩
  | append_singleton events event ih =>
    rw [after_snoc, List.count_append]
    exact (ih hregular.of_append).step hregular.free_of_last
      (List.count_append.symm.trans_lt hregular.few)

/-- The pause of a call that is made after `before`. -/
def pauseAt (before : List Event) (thread : ThreadId) (site : String) : Pause :=
  ⟨thread, site, (after before).controls.generation⟩

/-- A call that has blocked and has not resumed stands where the resumptions since have left
it. -/
theorem stands (hregular : IsRegular (before ++ .reaches thread site :: later))
    (hblocks : Blocks before thread site) (hopen : ¬ Resumed thread later) :
    (after (before ++ .reaches thread site :: later)).Stands (pauseAt before thread site)
      (.unpauses ∈ later) ((after before).resultsOf thread) := by
  induction later using List.reverseRecOn with
  | nil =>
    rw [after_snoc, step_reaches_of_mem (blocks_iff_mem.mp hblocks)]
    exact ⟨fun _ => List.mem_concat_self, fun hreleased => (nomatch hreleased), rfl⟩
  | append_singleton later event ih =>
    rw [cons_snoc] at hregular ⊢
    rw [resumed_snoc, not_or] at hopen
    obtain ⟨hopen, hwakes⟩ := hopen
    have hearlier := hregular.of_append
    have hstands := (ih hearlier hopen).step (sound_after hearlier) hregular.free_of_last
      fun hevent hreleased => hwakes ⟨hevent, hreleased⟩
    rw [after_snoc]
    simpa only [List.mem_append, List.mem_singleton, eq_comm] using hstands

theorem IsOpen.snoc (hopen : IsOpen events thread position)
    (hstays : event = .wakes thread → ∀ before site later,
      events = before ++ .reaches thread site :: later → before.length = position →
      Blocks before thread site → ¬ Resumed thread later → .unpauses ∉ later) :
    IsOpen (events ++ [event]) thread position := by
  obtain ⟨before, site, later, hsplit, hposition, hblocks, hresumed⟩ := hopen
  refine ⟨before, site, later ++ [event], snoc_eq_split.mpr (.inr ⟨later, rfl, hsplit⟩), hposition,
    hblocks, ?_⟩
  rw [resumed_snoc, not_or]
  refine ⟨hresumed, ?_⟩
  rintro ⟨hevent, hreleased⟩
  exact hstays hevent before site later hsplit hposition hblocks hresumed hreleased

/-- Every blocked pause belongs to an open call. -/
theorem exists_open (hregular : IsRegular events) {pause : Pause}
    (hmem : pause ∈ (after events).blocked) : ∃ position, IsOpen events pause.thread position := by
  induction events using List.reverseRecOn generalizing pause with
  | nil => cases hmem
  | append_singleton events event ih =>
    have hearlier := hregular.of_append
    have hsound := sound_after hearlier
    -- a pause from before stays open, unless its thread is woken after its release
    have hkept (hold : pause ∈ (after events).blocked)
        (hstays : event = .wakes pause.thread → pause ∈ (after events).asleep) :
        ∃ position, IsOpen (events ++ [event]) pause.thread position := by
      obtain ⟨position, hopen⟩ := ih hearlier hold
      refine ⟨position, hopen.snoc fun hevent before site later hsplit _ hblocks hresumed => ?_⟩
      intro hreleased
      subst hsplit
      have hstands := stands hearlier hblocks hresumed
      exact hsound.thread_ne (hstays hevent) (hstands.signalled hreleased) rfl
    rw [after_snoc] at hmem
    have heffect := hsound.effect event
    generalize (after events).step event = next at heffect hmem
    cases heffect with
    | arms | passes => exact hkept hmem (nomatch ·)
    | @blocks thread site harmed =>
      rcases List.mem_append.mp hmem with hasleep | hsignalled
      · rcases List.mem_append.mp hasleep with hold | hnew
        · exact hkept (List.mem_append_left _ hold) (nomatch ·)
        · obtain rfl := List.mem_singleton.mp hnew
          exact ⟨events.length, events, site, [], rfl, rfl, blocks_iff_mem.mpr harmed,
            not_resumed_nil⟩
      · exact hkept (List.mem_append_right _ hsignalled) (nomatch ·)
    | releases => exact hkept (List.perm_append_comm.mem_iff.mp hmem) (nomatch ·)
    | idles hfree =>
      refine hkept hmem fun hevent => ?_
      exact absurd (Event.wakes.inj hevent).symm (find?_eq_none.mp hfree pause hmem)
    | sleepsOn hasleep hperm =>
      have hold := (hperm.append_right _).mem_iff.mp hmem
      refine hkept hold fun hevent => (List.mem_append.mp hold).resolve_right fun hsignalled => ?_
      exact hsound.thread_ne hasleep hsignalled (Event.wakes.inj hevent)
    | @resumes woken signalled hperm =>
      rcases List.mem_append.mp hmem with hasleep | hsignalled
      · exact hkept (List.mem_append_left _ hasleep) fun _ => hasleep
      · have hold := hperm.mem_iff.mp (List.mem_cons_of_mem _ hsignalled)
        refine hkept (List.mem_append_right _ hold) fun hevent => ?_
        have hothers := (hperm.map Pause.thread).nodup_iff.mpr hsound.nodup_signalled
        exact absurd (Event.wakes.inj hevent ▸ List.mem_map_of_mem hsignalled)
          (List.nodup_cons.mp hothers).1

/-- The thread of an open call is blocked. -/
theorem IsOpen.blocked (hopen : IsOpen events thread position)
    (hregular : IsRegular events) :
    ∃ pause ∈ (after events).blocked, pause.thread = thread := by
  obtain ⟨before, site, later, rfl, -, hblocks, hresumed⟩ := hopen
  exact ⟨_, (stands hregular hblocks hresumed).mem_blocked, rfl⟩

theorem IsOpen.thread_eq {caller : ThreadId} (hopen : IsOpen events thread position)
    (hother : IsOpen events caller position) : thread = caller := by
  obtain ⟨before, site, later, rfl, rfl, -, -⟩ := hopen
  obtain ⟨before', site', later', hsplit, hlength, -, -⟩ := hother
  obtain ⟨-, hrest⟩ := List.append_inj hsplit hlength.symm
  exact (Event.reaches.inj (List.cons.inj hrest).1).1

/-- A thread has one open call at most. -/
theorem IsOpen.not_lt {later : Nat} (hopen : IsOpen events thread position)
    (hlater : IsOpen events thread later) (hregular : IsRegular events) :
    ¬ position < later := by
  intro hless
  obtain ⟨before, site, rest, rfl, rfl, hblocks, hresumed⟩ := hopen
  obtain ⟨before', site', rest', hsplit, rfl, -, -⟩ := hlater
  -- the later call comes after the whole beginning up to the first one
  rcases List.append_eq_append_iff.mp hsplit with ⟨between, rfl, hbetween⟩ | ⟨between, rfl, -⟩
  · cases between with
    | nil => simp at hless
    | cons first middle =>
      obtain ⟨rfl, rfl⟩ := List.cons.inj hbetween
      have hfree := hregular.sequential _ thread site' rest' hsplit
      rw [hsplit] at hregular
      have hfirst : IsOpen (before ++ .reaches thread site :: middle) thread before.length :=
        ⟨before, site, middle, rfl, rfl, hblocks, fun hmiddle => hresumed hmiddle.append⟩
      obtain ⟨pause, hpause, hsame⟩ := hfirst.blocked hregular.of_append
      exact find?_eq_none.mp hfree pause hpause hsame
  · simp at hless

theorem paused_eq_ncard (hregular : IsRegular events) :
    (after events).controls.paused = {position | ∃ thread, IsOpen events thread position}.ncard := by
  have hsound := sound_after hregular
  -- every blocked thread is blocked in one open call, and the calls are told apart by it
  let callers := (after events).blocked.map Pause.thread
  have hcallers (thread : ThreadId) (hmem : thread ∈ (callers.toFinset : Set ThreadId)) :
      ∃ position, IsOpen events thread position := by
    obtain ⟨pause, hpause, rfl⟩ := List.mem_map.mp (List.mem_toFinset.mp hmem)
    exact exists_open hregular hpause
  calc (after events).controls.paused
      = callers.length := by rw [hsound.paused, List.length_map]
    _ = (callers.toFinset : Set ThreadId).ncard := by
      rw [Set.ncard_coe_finset, List.toFinset_card_of_nodup hsound.nodup]
    _ = {position | ∃ thread, IsOpen events thread position}.ncard := by
      refine Set.ncard_congr (fun thread hmem => (hcallers thread hmem).choose) ?_ ?_ ?_
      · exact fun thread hmem => ⟨thread, (hcallers thread hmem).choose_spec⟩
      · intro thread caller hthread hcaller hsame
        have hopen := (hcallers thread hthread).choose_spec
        rw [hsame] at hopen
        exact hopen.thread_eq (hcallers caller hcaller).choose_spec
      · rintro position ⟨thread, hopen⟩
        obtain ⟨pause, hpause, rfl⟩ := hopen.blocked hregular
        have hmem : pause.thread ∈ (callers.toFinset : Set ThreadId) :=
          List.mem_toFinset.mpr (List.mem_map_of_mem hpause)
        have hchosen := (hcallers pause.thread hmem).choose_spec
        refine ⟨pause.thread, hmem, Nat.le_antisymm ?_ ?_⟩
        · exact Nat.not_lt.mp (hopen.not_lt hchosen hregular)
        · exact Nat.not_lt.mp (hchosen.not_lt hopen hregular)

/-- The wake-ups of all signalled threads. -/
def wakeUps (monitor : PauseMonitor) : List Event :=
  monitor.signalled.map fun pause => .wakes pause.thread

theorem settle_after (events : List Event) :
    (after events).settle = after (events ++ (after events).wakeUps) :=
  calc (after events).settle
      = (after events).wakeUps.foldl step (after events) := List.foldl_map.symm
    _ = after (events ++ (after events).wakeUps) := List.foldl_append.symm

/-- Every call of a history with wake-ups after it is one of the history. -/
theorem split_of_wakeUps {monitor : PauseMonitor}
    (hsplit : events ++ monitor.wakeUps = before ++ .reaches thread site :: later) :
    ∃ rest, events = before ++ .reaches thread site :: rest ∧
      later = rest ++ monitor.wakeUps := by
  have hnone : .reaches thread site ∉ monitor.wakeUps := by simp [wakeUps]
  rcases List.append_eq_append_iff.mp hsplit with ⟨between, rfl, hwakes⟩ | ⟨between, rfl, hrest⟩
  · exact absurd (hwakes ▸ List.mem_append_right _ List.mem_cons_self) hnone
  · cases between with
    | nil =>
      have hfirst : .reaches thread site :: later = monitor.wakeUps := hrest
      exact absurd (hfirst ▸ List.mem_cons_self) hnone
    | cons first rest =>
      obtain ⟨rfl, hlater⟩ := List.cons.inj hrest
      exact ⟨rest, rfl, hlater⟩

/-- Once every signalled thread has woken up, none of those that were blocked at a resumption
is blocked. -/
theorem settle_of_unpauses (hregular : IsRegular (events ++ [.unpauses])) :
    (after (events ++ [.unpauses])).settle.controls.paused = 0 ∧
      (after (events ++ [.unpauses])).settle.blocked = [] := by
  have hlonger : IsRegular
      (events ++ [.unpauses] ++ (after (events ++ [.unpauses])).wakeUps) := by
    constructor
    · intro before thread site later hsplit
      obtain ⟨rest, hrest, -⟩ := split_of_wakeUps hsplit
      exact hregular.sequential before thread site rest hrest
    · have hnone : Event.unpauses ∉ (after (events ++ [.unpauses])).wakeUps := by simp [wakeUps]
      rw [List.count_append, List.count_eq_zero.mpr hnone]
      exact hregular.few
  have hover : {position | ∃ thread, IsOpen
      (events ++ [.unpauses] ++ (after (events ++ [.unpauses])).wakeUps) thread position} = ∅ := by
    refine Set.eq_empty_iff_forall_notMem.mpr ?_
    rintro position ⟨thread, before, site, later, hsplit, -, hblocks, hresumed⟩
    obtain ⟨rest, hrest, rfl⟩ := split_of_wakeUps hsplit
    have hreleased : .unpauses ∈ rest := by
      rcases snoc_eq_split.mp hrest with ⟨-, -, hcall⟩ | ⟨shorter, rfl, -⟩
      · cases hcall
      · exact List.mem_concat_self
    have hopen : ¬ Resumed thread rest := fun hrested => hresumed hrested.append
    have hsignalled : pauseAt before thread site ∈ (after (events ++ [.unpauses])).signalled := by
      rw [hrest] at hregular ⊢
      exact (stands hregular hblocks hopen).signalled hreleased
    have hwakes : .wakes thread ∈ (after (events ++ [.unpauses])).wakeUps :=
      List.mem_map_of_mem hsignalled
    obtain ⟨first, second, hwakeUps⟩ := List.append_of_mem hwakes
    exact hresumed ⟨rest ++ first, second, by rw [hwakeUps, List.append_assoc],
      List.mem_append_left _ hreleased⟩
  have hpaused := paused_eq_ncard hlonger
  rw [hover, Set.ncard_empty] at hpaused
  rw [settle_after]
  exact ⟨hpaused, List.length_eq_zero_iff.mp ((sound_after hlonger).paused.symm.trans hpaused)⟩

end Histories

/-- Pauses are one-shot, and no resumption is lost.  In a history without calls of blocked
threads and with fewer than 2^64 resumptions, a call returns false at once exactly where no
arming of its site is left.  Any other call uses that arming up and no other one; it stays
asleep, and its thread returns nothing, until the first resumption after it, whatever there is
before; from then on it is signalled, and the next wake-up of its thread returns true.  The
number of paused threads is the number of calls that have blocked and not yet resumed, and a
resumption leaves no call asleep, and none at all blocked as soon as the threads that it
signals have woken up. -/
theorem pauses_are_one_shot {events : List Event} (hsequential : IsSequential events)
    (hcount : events.count .unpauses < 2 ^ 64) :
    (∀ before thread site later, events = before ++ .reaches thread site :: later →
      (after (before ++ [.reaches thread site]) =
          { after before with returned := (after before).returned ++ [(thread, false)] } ↔
        ¬ Armed site before) ∧
      (Armed site before →
        (∀ other, Armed other (before ++ [.reaches thread site]) ↔
          Armed other before ∧ other ≠ site) ∧
        (.unpauses ∉ later →
          (∃ pause ∈ (after events).asleep, pause.thread = thread ∧ pause.site = site) ∧
            (after events).resultsOf thread = (after before).resultsOf thread) ∧
        (.unpauses ∈ later → ¬ Resumed thread later →
          (∃ pause ∈ (after events).signalled, pause.thread = thread ∧ pause.site = site) ∧
            (after events).resultsOf thread = (after before).resultsOf thread) ∧
        ∀ waiting, later = waiting ++ [.wakes thread] → .unpauses ∈ waiting →
          ¬ Resumed thread waiting →
          (after events).resultsOf thread = (after before).resultsOf thread ++ [true] ∧
            (after events).find? thread = none)) ∧
      (after events).controls.paused =
        {position | ∃ thread, IsOpen events thread position}.ncard ∧
      ∀ earlier, events = earlier ++ [.unpauses] → (after events).asleep = [] ∧
        (after events).settle.controls.paused = 0 ∧ (after events).settle.blocked = [] := by
  have hregular : IsRegular events := ⟨hsequential, hcount⟩
  refine ⟨?_, paused_eq_ncard hregular, ?_⟩
  · rintro before thread site later rfl
    refine ⟨?_, fun harmed => ?_⟩
    · rw [after_snoc, ← mem_armed_iff]
      constructor
      · intro hpasses harmed
        rw [step_reaches_of_mem harmed] at hpasses
        simpa using congrArg PauseMonitor.returned hpasses
      · exact step_reaches_of_not_mem
    · have hblocks : Blocks before thread site := blocks_iff.mpr harmed
      refine ⟨fun other => ?_, fun hrunning => ?_, fun hreleased hopen => ?_, ?_⟩
      · rw [armed_snoc]
        constructor
        · rintro (hcall | ⟨hleft, -, hunused⟩)
          · cases hcall
          · exact ⟨hleft, fun hsame => hunused thread (hsame ▸ rfl) (hsame ▸ hblocks)⟩
        · rintro ⟨hleft, hother⟩
          refine .inr ⟨hleft, nofun, fun caller hcall => ?_⟩
          exact absurd (Event.reaches.inj hcall).2.symm hother
      · have hopen : ¬ Resumed thread later := fun hresumed => hrunning hresumed.released
        have hstands := stands hregular hblocks hopen
        exact ⟨⟨_, hstands.asleep hrunning, rfl, rfl⟩, hstands.results⟩
      · have hstands := stands hregular hblocks hopen
        exact ⟨⟨_, hstands.signalled hreleased, rfl, rfl⟩, hstands.results⟩
      · rintro waiting rfl hreleased hopen
        rw [cons_snoc] at hregular ⊢
        have hstands := stands hregular.of_append hblocks hopen
        have hsound := sound_after hregular.of_append
        obtain ⟨hresults, hfree⟩ := hsound.wakes_signalled (hstands.signalled hreleased)
        rw [after_snoc]
        exact ⟨hresults.trans (congrArg (· ++ [true]) hstands.results), hfree⟩
  · rintro earlier rfl
    refine ⟨?_, settle_of_unpauses hregular⟩
    rw [after_snoc]
    rfl

/-- A site is armed again while a call that has used its first arming up is blocked there,
which wakes up for nothing before the resumption and once after it. -/
def overlappingPauses : List Event :=
  [.arms "scan", .reaches 0 "scan", .arms "scan", .wakes 0, .reaches 1 "scan", .unpauses,
    .reaches 2 "scan", .wakes 0]

theorem pauses_are_one_shot_of_overlappingPauses :
    IsSequential overlappingPauses ∧ overlappingPauses.count .unpauses < 2 ^ 64 ∧
      (after overlappingPauses).resultsOf 0 = [true] ∧
      {position | ∃ thread, IsOpen overlappingPauses thread position}.ncard = 1 := by
  have hsequential : IsSequential overlappingPauses := by
    intro before thread site later hsplit
    simp [overlappingPauses, List.cons_eq_append_iff] at hsplit
    obtain ⟨_, rfl, ⟨rfl, ⟨rfl, -⟩, -⟩ | ⟨_, rfl, ⟨rfl, ⟨rfl, -⟩, -⟩ | ⟨rfl, ⟨rfl, -⟩, -⟩⟩⟩ := hsplit
    all_goals decide +kernel
  have hcount : overlappingPauses.count .unpauses < 2 ^ 64 := by decide
  obtain ⟨hcalls, hpaused, -⟩ := pauses_are_one_shot hsequential hcount
  have hfirst : Armed "scan" ([] ++ [.arms "scan"]) := armed_snoc.mpr (.inl rfl)
  obtain ⟨-, -, -, hreturns⟩ :=
    (hcalls [.arms "scan"] 0 "scan" _ rfl).2 hfirst
  refine ⟨hsequential, hcount, ?_, ?_⟩
  · have hopen : ¬ Resumed 0 [.arms "scan", .wakes 0, .reaches 1 "scan", .unpauses,
        .reaches 2 "scan"] := by
      rintro ⟨first, second, hsplit, hreleased⟩
      obtain ⟨_, rfl, rfl, -⟩ : ∃ rest, first = .arms "scan" :: rest ∧ rest = [] ∧
          second = [.reaches 1 "scan", .unpauses, .reaches 2 "scan"] := by
        simpa [List.cons_eq_append_iff] using hsplit
      simp at hreleased
    exact (hreturns _ rfl (by decide) hopen).1
  · rw [← hpaused]
    decide +kernel

end PauseMonitor

end FragmentLifecycle
