import FragmentLifecycle.Proofs.Reachability

/-!
# Calls made one after another

Where every call has come to its end before the next one is made, one thread at a time has
something to do.  The run of a lone thread depends on the shared state and on its own stack
only, so `Leads` relates these, and what it tells of an entry point holds above any frames.
A call made on an idle system comes to its end where the run of its thread does
(`System.IsIdle.performs`), and to no other end (`System.PerformsAll.unique`).
-/

namespace FragmentLifecycle

/-- The locks as a thread with the given stack finds them where all others have ended. -/
def LockView.lone (frames : List Frame) : LockView :=
  { setupHeldElsewhere := fun _ => false
    closingHeld := fun id => frames.any fun frame => frame.holds (.closing id) }

/-- The steps of a lone thread, from one shared state, stack and signal to another. -/
inductive Leads (thread : ThreadId) :
    World → List Frame → Signal → World → List Frame → Signal → Prop
  | refl {world frames signal} : Leads thread world frames signal world frames signal
  | step {world between world' frame rest signal next frames' signal'}
      (hexit : world.exit = none)
      (hstep : Frame.step world (.lone (frame :: rest)) thread signal frame = some (between, next))
      (hforked : next.forked = [])
      (hrest : Leads thread between (next.frames ++ rest) next.signal world' frames' signal') :
      Leads thread world (frame :: rest) signal world' frames' signal'

namespace Leads

variable {thread : ThreadId} {world between world' : World} {frame resumed callee : Frame}
  {rest frames frames' : List Frame} {signal signal' : Signal} {answer : Reply}

theorem trans {middle : List Frame} {passed : Signal}
    (hfirst : Leads thread world frames signal between middle passed)
    (hsecond : Leads thread between middle passed world' frames' signal') :
    Leads thread world frames signal world' frames' signal' := by
  induction hfirst with
  | refl => exact hsecond
  | step hexit hstep hforked _ ih => exact .step hexit hstep hforked (ih hsecond)

theorem goto (hexit : world.exit = none)
    (hstep : Frame.step world (.lone (frame :: rest)) thread signal frame =
      some (between, .goto resumed))
    (hrest : Leads thread between (resumed :: rest) .go world' frames' signal') :
    Leads thread world (frame :: rest) signal world' frames' signal' :=
  .step hexit hstep rfl hrest

theorem call (hexit : world.exit = none)
    (hstep : Frame.step world (.lone (frame :: rest)) thread signal frame =
      some (between, .call resumed callee))
    (hrest : Leads thread between (callee :: resumed :: rest) .go world' frames' signal') :
    Leads thread world (frame :: rest) signal world' frames' signal' :=
  .step hexit hstep rfl hrest

theorem reply (hexit : world.exit = none)
    (hstep : Frame.step world (.lone (frame :: rest)) thread signal frame =
      some (world', .reply answer)) :
    Leads thread world (frame :: rest) signal world' rest (.replied answer) :=
  .step hexit hstep rfl .refl

end Leads

namespace System

/-- Every thread but one has ended. -/
def IsLone (system : System) (thread : ThreadId) : Prop :=
  ∀ other, other ≠ thread → system.frames other = []

/-- Every thread has ended. -/
def IsIdle (system : System) : Prop :=
  ∀ thread, system.frames thread = []

/-- A call from outside whose thread comes to its end before anything else happens. -/
def Performs (system : System) (command : Command) (after : System) : Prop :=
  ∃ count,
    (system.call command).moves (List.replicate count (.step system.threads.length)) = some after ∧
      after.frames system.threads.length = []

/-- Calls from outside that are made one after another. -/
inductive PerformsAll : System → List Command → System → Prop
  | nil {system} : PerformsAll system [] system
  | cons {system next after command commands} (hfirst : system.Performs command next)
      (hrest : PerformsAll next commands after) :
      PerformsAll system (command :: commands) after

section Lone

variable {start system after : System} {thread : ThreadId} {world' : World}
  {frames' : List Frame} {signal' : Signal}

theorem IsLone.view (hlone : system.IsLone thread) :
    system.view thread = .lone (system.frames thread) := by
  have hsetup (lock : Lock) : system.heldElsewhere thread lock = false := by
    by_contra hheld
    rw [Bool.not_eq_false] at hheld
    obtain ⟨owner, howner, frame, hmem, -⟩ := heldElsewhere_iff.mp hheld
    simp [hlone owner howner] at hmem
  have hclosing (lock : Lock) :
      system.held lock = (system.frames thread).any fun frame => frame.holds lock := by
    rw [Bool.eq_iff_iff, held_iff, List.any_eq_true]
    constructor
    · rintro ⟨owner, frame, hmem, hholds⟩
      by_cases howner : owner = thread
      · exact ⟨frame, howner ▸ hmem, hholds⟩
      · simp [hlone owner howner] at hmem
    · exact fun ⟨frame, hmem, hholds⟩ => ⟨thread, frame, hmem, hholds⟩
  simp only [System.view, LockView.lone, hsetup, hclosing]

/-- A lone thread takes the steps that its stack leads to. -/
theorem IsLone.moves_of_leads (hlone : system.IsLone thread)
    (hleads : Leads thread system.world (system.frames thread) (system.signal thread)
      world' frames' signal') :
    ∃ count after, system.moves (List.replicate count (.step thread)) = some after ∧
      after.IsLone thread ∧ after.world = world' ∧ after.frames thread = frames' ∧
      after.signal thread = signal' ∧ after.threads.length = system.threads.length := by
  generalize hworld : system.world = world, hframes : system.frames thread = frames,
    hsignal : system.signal thread = signal at hleads
  -- a step of the lone thread starts no other, so that the thread stays a lone one
  induction hleads generalizing system with
  | refl => exact ⟨0, system, rfl, hlone, hworld, hframes, hsignal, rfl⟩
  | @step world between world' frame rest signal next frames' signal' hexit hstep hforked _ ih =>
    subst hworld hsignal
    rw [← hframes, ← hlone.view] at hstep
    obtain ⟨first, hfirst, hbetween, hadvance⟩ := exists_advance hexit hframes hstep
    have hlength := hadvance.length_threads hfirst
    rw [hforked, List.length_nil, Nat.add_zero] at hlength
    have hstill : first.IsLone thread := by
      intro other hother
      rcases hadvance.others other hother with ⟨hsame, -⟩ | ⟨-, hstarted, -⟩
      · rw [hsame, hlone other hother]
      · rw [hstarted, hforked]
    obtain ⟨count, after, hmoves, hend⟩ := ih hstill hbetween hadvance.own hadvance.ownSignal
    refine ⟨count + 1, after, ?_, hlength ▸ hend⟩
    rw [List.replicate_succ, moves, System.move, hfirst, Option.bind_some, hmoves]

/-- A call on an idle system is alone, and goes where its frame leads. -/
theorem IsIdle.moves_of_leads (hidle : system.IsIdle) (command : Command)
    (hleads : Leads system.threads.length system.world [command.frame] .go world' frames'
      signal') :
    ∃ count after,
      (system.call command).moves (List.replicate count (.step system.threads.length)) =
        some after ∧
      after.IsLone system.threads.length ∧ after.world = world' ∧
      after.frames system.threads.length = frames' ∧
      after.threads.length = system.threads.length + 1 := by
  have hturn := turnover_of_call system command
  obtain ⟨hframes, hsignal⟩ : (system.call command).frames system.threads.length =
      [command.frame] ∧ (system.call command).signal system.threads.length = .go := by
    refine (hturn.own.resolve_right ?_).2
    rintro ⟨hbefore, -⟩
    rw [hidle] at hbefore
    cases hbefore
  have hlone : (system.call command).IsLone system.threads.length := by
    intro other hother
    rw [(hturn.others other hother).1, hidle]
  rw [← hframes, ← hsignal] at hleads
  obtain ⟨count, after, hmoves, hstill, hworld, hover, -, hlength⟩ := hlone.moves_of_leads hleads
  exact ⟨count, after, hmoves, hstill, hworld, hover, by simpa [System.call] using hlength⟩

/-- A call on an idle system comes to its end where its frame leads to one. -/
theorem IsIdle.performs (hidle : system.IsIdle) (command : Command)
    (hleads : Leads system.threads.length system.world [command.frame] .go world' [] signal') :
    ∃ after, system.Performs command after ∧ after.IsIdle ∧ after.world = world' ∧
      after.threads.length = system.threads.length + 1 := by
  obtain ⟨count, after, hmoves, hstill, hworld, hover, hlength⟩ :=
    hidle.moves_of_leads command hleads
  refine ⟨after, ⟨count, hmoves, hover⟩, fun thread => ?_, hworld, hlength⟩
  by_cases hthread : thread = system.threads.length
  · rw [hthread, hover]
  · exact hstill thread hthread

/-! ### One end only -/

theorem step_of_ended (hover : system.frames thread = []) : system.step thread = none := by
  by_contra hsome
  obtain ⟨next, hnext⟩ := Option.ne_none_iff_exists'.mp hsome
  obtain ⟨frame, rest, taken, hadvance⟩ := advance_of_step hnext
  cases hover.symm.trans hadvance.frames

/-- A thread that has ended by its own steps has ended by so many. -/
theorem eq_of_moves_ended {count count' : Nat} {after' : System}
    (hmoves : system.moves (List.replicate count (.step thread)) = some after)
    (hover : after.frames thread = [])
    (hmoves' : system.moves (List.replicate count' (.step thread)) = some after')
    (hover' : after'.frames thread = []) : after = after' := by
  induction count generalizing system count' with
  | zero =>
    obtain rfl := Option.some.inj hmoves
    cases count' with
    | zero => exact Option.some.inj hmoves'
    | succ count' =>
      rw [List.replicate_succ, moves, System.move, step_of_ended hover] at hmoves'
      cases hmoves'
  | succ count ih =>
    cases count' with
    | zero =>
      obtain rfl := Option.some.inj hmoves'
      rw [List.replicate_succ, moves, System.move, step_of_ended hover'] at hmoves
      cases hmoves
    | succ count' =>
      rw [List.replicate_succ] at hmoves hmoves'
      obtain ⟨next, hnext, hrest⟩ := Option.bind_eq_some_iff.mp hmoves
      obtain ⟨next', hnext', hrest'⟩ := Option.bind_eq_some_iff.mp hmoves'
      obtain rfl := Option.some.inj (hnext.symm.trans hnext')
      exact ih hrest hrest'

theorem Performs.unique {command : Command} {after' : System}
    (hperforms : system.Performs command after) (hperforms' : system.Performs command after') :
    after = after' := by
  obtain ⟨count, hmoves, hover⟩ := hperforms
  obtain ⟨count', hmoves', hover'⟩ := hperforms'
  exact eq_of_moves_ended hmoves hover hmoves' hover'

/-- Calls made one after another come to one end. -/
theorem PerformsAll.unique {commands : List Command} {after' : System}
    (hperforms : system.PerformsAll commands after)
    (hperforms' : system.PerformsAll commands after') : after = after' := by
  induction hperforms with
  | nil =>
    cases hperforms'
    rfl
  | cons hfirst _ ih =>
    cases hperforms' with
    | cons hfirst' hrest' =>
      obtain rfl := hfirst.unique hfirst'
      exact ih hrest'

theorem PerformsAll.append {middle : System} {commands later : List Command}
    (hfirst : system.PerformsAll commands middle) (hlater : middle.PerformsAll later after) :
    system.PerformsAll (commands ++ later) after := by
  induction hfirst with
  | nil => exact hlater
  | cons hperforms _ ih => exact .cons hperforms (ih hlater)

theorem PerformsAll.reachable {commands : List Command} (hreach : start.Reachable system)
    (hperforms : system.PerformsAll commands after) : start.Reachable after := by
  induction hperforms with
  | nil => exact hreach
  | @cons system next after command commands hfirst _ ih =>
    obtain ⟨count, hmoves, -⟩ := hfirst
    exact ih (.of_moves (.move (.call command) hreach rfl) hmoves)

end Lone

end System

end FragmentLifecycle
