import FragmentLifecycle.Proofs.Reachability

/-!
# Calls in progress

A call is in progress while the stack of its thread stays above the frames that it stands
on, and has returned when these get a reply.  What other threads do in the meantime is open.
-/

namespace FragmentLifecycle

namespace System

/-- Moves during which the stack of `thread` stays higher than `height`. -/
inductive Above (thread : ThreadId) (height : Nat) (start : System) : System → Prop
  | refl (hheight : height < (start.frames thread).length) : Above thread height start start
  | move {system next : System} (move : Move) (habove : Above thread height start system)
      (hmove : system.move move = some next) (hheight : height < (next.frames thread).length) :
      Above thread height start next

/-- Moves during which every system has a property, the first and the last one included. -/
inductive Throughout (holds : System → Prop) (start : System) : System → Prop
  | refl (hholds : holds start) : Throughout holds start start
  | move {system next : System} (move : Move) (hbefore : Throughout holds start system)
      (hmove : system.move move = some next) (hholds : holds next) : Throughout holds start next

/-- The call of the innermost frame takes its next step in `system`, and has returned in
`after`. -/
def Returns (system : System) (thread : ThreadId) (frame : Frame) (after : System) : Prop :=
  ∃ started before rest reply, system.frames thread = frame :: rest ∧
    system.step thread = some started ∧ started.Above thread rest.length before ∧
    before.step thread = some after ∧ after.frames thread = rest ∧
    after.signal thread = .replied reply

section Throughout

variable {holds : System → Prop} {start system : System}

theorem Throughout.holds_last (hpath : start.Throughout holds system) : holds system := by
  cases hpath with
  | refl hholds => exact hholds
  | move _ _ _ hholds => exact hholds

theorem Throughout.imp {weaker : System → Prop} (himp : ∀ system, holds system → weaker system)
    (hpath : start.Throughout holds system) : start.Throughout weaker system := by
  induction hpath with
  | refl hholds => exact .refl (himp _ hholds)
  | move move _ hmove hholds ih => exact .move move ih hmove (himp _ hholds)

theorem Above.throughout {thread : ThreadId} {height : Nat}
    (habove : start.Above thread height system) :
    start.Throughout (fun during => height < (during.frames thread).length) system := by
  induction habove with
  | refl hheight => exact .refl hheight
  | move move _ hmove hheight ih => exact .move move ih hmove hheight

theorem Throughout.above {thread : ThreadId} {height : Nat}
    (hpath : start.Throughout (fun during => height < (during.frames thread).length) system) :
    start.Above thread height system := by
  induction hpath with
  | refl hheight => exact .refl hheight
  | move move _ hmove hheight ih => exact .move move ih hmove hheight

theorem Reachable.throughout {origin : System} (hreach : origin.Reachable start)
    (hpath : start.Throughout holds system) : origin.Reachable system := by
  induction hpath with
  | refl => exact hreach
  | move move _ hmove _ ih => exact .move move ih hmove

end Throughout

section Returns

variable {start system after : System} {thread : ThreadId} {frame : Frame} {rest : List Frame}

theorem Above.height_start {height : Nat} (habove : start.Above thread height system) :
    height < (start.frames thread).length := by
  induction habove with
  | refl hheight => exact hheight
  | move _ _ _ _ ih => exact ih

theorem moves_append (first second : List Move) :
    system.moves (first ++ second) = (system.moves first).bind fun next => next.moves second := by
  induction first generalizing system with
  | nil => rfl
  | cons move rest ih =>
    simp only [List.cons_append, moves, Option.bind_assoc]
    exact Option.bind_congr fun next _ => ih

theorem moves_steps_succ {count : Nat}
    (hmoves : system.moves (List.replicate (count + 1) (.step thread)) = some after) :
    ∃ before, system.moves (List.replicate count (.step thread)) = some before ∧
      before.step thread = some after := by
  rw [List.replicate_succ', moves_append] at hmoves
  obtain ⟨before, hbefore, hlast⟩ := Option.bind_eq_some_iff.mp hmoves
  exact ⟨before, hbefore, by simpa [moves, System.move] using hlast⟩

theorem Throughout.of_steps {holds : System → Prop} {count : Nat}
    (hholds : ∀ taken ≤ count, ∃ before,
      start.moves (List.replicate taken (.step thread)) = some before ∧ holds before)
    (hmoves : start.moves (List.replicate count (.step thread)) = some after) :
    start.Throughout holds after := by
  induction count generalizing after with
  | zero =>
    obtain ⟨same, hsame, hlast⟩ := hholds 0 (Nat.le_refl 0)
    obtain rfl := Option.some.inj hsame
    obtain rfl := Option.some.inj hmoves
    exact .refl hlast
  | succ count ih =>
    obtain ⟨same, hsame, hlast⟩ := hholds (count + 1) (Nat.le_refl _)
    obtain rfl : same = after := Option.some.inj (hsame.symm.trans hmoves)
    obtain ⟨before, hbefore, hstep⟩ := moves_steps_succ hmoves
    have hpath := ih (fun taken htaken => hholds taken (Nat.le_succ_of_le htaken)) hbefore
    exact .move (.step thread) hpath hstep hlast

/-- A call returns by steps of its own thread that stay above it until the last one. -/
theorem returns_of_steps {started : System} {count : Nat} {reply : Reply}
    (hframes : system.frames thread = frame :: rest)
    (hstart : system.step thread = some started)
    (hheight : ∀ taken ≤ count, ∃ before,
      started.moves (List.replicate taken (.step thread)) = some before ∧
        rest.length < (before.frames thread).length)
    (hmoves : started.moves (List.replicate (count + 1) (.step thread)) = some after)
    (hrest : after.frames thread = rest) (hreply : after.signal thread = .replied reply) :
    system.Returns thread frame after := by
  obtain ⟨before, hbefore, hlast⟩ := moves_steps_succ hmoves
  exact ⟨started, before, rest, reply, hframes, hstart, (Throughout.of_steps hheight hbefore).above,
    hlast, hrest, hreply⟩

/-- What is seen of a system that given moves lead to, and after some more of them. -/
theorem exists_later_of_moves (start : System) {α β : Type} (opening closing : List Move)
    (begun : System → α) (first : α) (ended : System → β) (final : β)
    (hbegin : (start.moves opening).map begun = some first)
    (hend : (start.moves (opening ++ closing)).map ended = some final) :
    ∃ system after, start.Reachable system ∧ begun system = first ∧
      (∀ moves, system.moves moves = start.moves (opening ++ moves)) ∧
      system.moves closing = some after ∧ ended after = final := by
  obtain ⟨system, hsystem, hfirst⟩ := Option.map_eq_some_iff.mp hbegin
  have hmoved (moves : List Move) : system.moves moves = start.moves (opening ++ moves) := by
    rw [moves_append, hsystem, Option.bind_some]
  obtain ⟨after, hafter, hfinal⟩ := Option.map_eq_some_iff.mp hend
  exact ⟨system, after, Reachable.refl.of_moves hsystem, hfirst, hmoved,
    (hmoved closing).trans hafter, hfinal⟩

/-- A call that given moves lead to and that steps of its own thread bring to its end, with
what is seen of the system then. -/
theorem exists_returns_of_moves (start : System) {α : Type} (opening : List Move)
    (thread : ThreadId) (count : Nat) {reply : Reply} (observe : System → α) (value : α)
    (hbegin : (start.moves opening).map (fun system => system.frames thread) =
      some (frame :: rest))
    (hheights : ∀ taken ≤ count, ((start.moves
      (opening ++ List.replicate (taken + 1) (.step thread))).map
        fun system => decide (rest.length < (system.frames thread).length)) = some true)
    (hend : ((start.moves (opening ++ List.replicate (count + 2) (.step thread))).map
      fun system => (system.frames thread, system.signal thread, observe system)) =
        some (rest, .replied reply, value)) :
    ∃ system after, start.Reachable system ∧ system.Returns thread frame after ∧
      observe after = value := by
  obtain ⟨system, after, hreach, hframes, hmoved, hafter, hseen⟩ :=
    exists_later_of_moves start opening _ _ _ _ _ hbegin hend
  obtain ⟨hover, hreply, hvalue⟩ : _ ∧ _ ∧ _ := by simpa only [Prod.mk.injEq] using hseen
  obtain ⟨started, hstart, hrest⟩ := Option.bind_eq_some_iff.mp hafter
  refine ⟨system, after, hreach, ?_, hvalue⟩
  refine returns_of_steps hframes hstart (fun taken htaken => ?_) hrest hover hreply
  obtain ⟨before, hbefore, hhigh⟩ := Option.map_eq_some_iff.mp (hheights taken htaken)
  rw [← hmoved] at hbefore
  obtain ⟨same, hsame, hbefore⟩ := Option.bind_eq_some_iff.mp hbefore
  obtain rfl : same = started := Option.some.inj (hsame.symm.trans hstart)
  exact ⟨before, hbefore, of_decide_eq_true hhigh⟩

/-- Steps of a thread that given moves lead to, with what is seen of the system before,
throughout and after them. -/
theorem exists_throughout_of_moves (start : System) {α β γ : Type} (opening : List Move)
    (thread : ThreadId) (count : Nat) (begun : System → α) (first : α) (observe : System → β)
    (value : β) (ended : System → γ) (final : γ)
    (hbegin : (start.moves opening).map begun = some first)
    (hseen : ∀ taken ≤ count, (start.moves
      (opening ++ List.replicate taken (.step thread))).map observe = some value)
    (hend : (start.moves (opening ++ List.replicate (count + 1) (.step thread))).map ended =
      some final) :
    ∃ system last after, start.Reachable system ∧ begun system = first ∧
      system.Throughout (fun during => observe during = value) last ∧
      last.step thread = some after ∧ ended after = final := by
  obtain ⟨system, after, hreach, hfirst, hmoved, hafter, hfinal⟩ :=
    exists_later_of_moves start opening _ _ _ _ _ hbegin hend
  obtain ⟨last, hlast, hstep⟩ := moves_steps_succ hafter
  refine ⟨system, last, after, hreach, hfirst, ?_, hstep, hfinal⟩
  refine .of_steps (fun taken htaken => ?_) hlast
  rw [hmoved]
  exact Option.map_eq_some_iff.mp (hseen taken htaken)

theorem Reachable.above {height : Nat} (hreach : start.Reachable system)
    (habove : system.Above thread height after) : start.Reachable after :=
  hreach.throughout habove.throughout

theorem Reachable.of_returns (hreach : start.Reachable system)
    (hreturns : system.Returns thread frame after) : start.Reachable after := by
  obtain ⟨started, before, rest, reply, -, hstart, habove, hend, -, -⟩ := hreturns
  exact .move (.step thread) (.above (.move (.step thread) hreach hstart) habove) hend

/-! ### The frame of a call -/

/-- A frame of the given role stands on `rest` in the stack of `thread`. -/
def Bears (system : System) (thread : ThreadId) (role : Role) (rest : List Frame) : Prop :=
  ∃ above base, system.frames thread = above ++ base :: rest ∧ base.role = role

variable {base top : Frame} {inner below : List Frame} {next : Next}

/-- A step leaves a frame standing, unless the frame is the innermost one and ends. -/
theorem Advance.bears (hadvance : system.Advance after thread top below next)
    (hframes : system.frames thread = inner ++ base :: rest) :
    after.Bears thread base.role rest ∨ (top = base ∧ after.frames thread = rest) := by
  cases inner with
  | nil =>
    obtain ⟨rfl, rfl⟩ := List.cons.inj (hadvance.frames.symm.trans hframes)
    have hlinks := Frame.step_links hadvance.step
    cases next with
    | goto resumed => exact .inl ⟨[], resumed, hadvance.own, hlinks⟩
    | call resumed callee => exact .inl ⟨[callee], resumed, hadvance.own, hlinks.1⟩
    | reply | raise | fork => exact .inr ⟨rfl, hadvance.own⟩
  | cons first inner =>
    obtain ⟨rfl, rfl⟩ := List.cons.inj (hadvance.frames.symm.trans hframes)
    exact .inl ⟨next.frames ++ inner, base, hadvance.own.trans (List.append_assoc _ _ _).symm, rfl⟩

theorem Bears.above {role : Role} (hstart : start.Bears thread role rest)
    (habove : start.Above thread rest.length system) : system.Bears thread role rest := by
  induction habove with
  | refl => exact hstart
  | @move system after move habove hmove hheight ih =>
    obtain ⟨inner, base, hframes, rfl⟩ := ih
    have hbusy : system.frames thread ≠ [] := by simp [hframes]
    rcases advance_or_turnover hmove with
      ⟨mover, top, below, next, hadvance⟩ | ⟨mover, root, hturn⟩
    · by_cases hthread : thread = mover
      · subst hthread
        refine (hadvance.bears hframes).resolve_right ?_
        rintro ⟨-, hover⟩
        exact absurd hheight (by simp [hover])
      · exact ⟨inner, base, (hadvance.same_of_busy hthread hbusy).1.trans hframes, rfl⟩
    · rcases hturn.same_of_busy hbusy with ⟨hsame, -⟩ | ⟨-, hgone⟩
      · exact ⟨inner, base, hsame.trans hframes, rfl⟩
      · simp [hgone] at hheight

theorem Returns.frames_eq (hreturns : system.Returns thread frame after) :
    ∃ rest, system.frames thread = frame :: rest := by
  obtain ⟨_, _, rest, _, hframes, -⟩ := hreturns
  exact ⟨rest, hframes⟩

/-- A call returns by a step of its own frame, after a first one. -/
theorem Returns.exists_steps (hreturns : system.Returns thread frame after) :
    ∃ started before last rest next reply, system.step thread = some started ∧
      started.Reachable before ∧ before.Advance after thread last rest next ∧
      last.role = frame.role ∧ next.signal = .replied reply := by
  obtain ⟨started, before, rest, reply, hframes, hstart, habove, hend, hrest, hreply⟩ := hreturns
  obtain ⟨first, below, _, hfirst⟩ := advance_of_step hstart
  have hbegun : started.Bears thread frame.role rest := by
    have hlone : system.frames thread = [] ++ frame :: rest := hframes
    refine (hfirst.bears hlone).resolve_right ?_
    rintro ⟨-, hover⟩
    exact absurd habove.height_start (by simp [hover])
  obtain ⟨inner, base, hbefore, hrole⟩ := hbegun.above habove
  obtain ⟨last, below', next, hlast⟩ := advance_of_step hend
  rcases hlast.bears hbefore with ⟨inner', base', hafter, -⟩ | ⟨rfl, -⟩
  · have hlength := congrArg List.length (hrest.symm.trans hafter)
    simp only [List.length_append, List.length_cons] at hlength
    omega
  · exact ⟨started, before, last, below', next, reply, hstart, Reachable.refl.above habove, hlast,
      hrole, hlast.ownSignal.symm.trans hreply⟩

theorem Returns.exists_last {origin : System} (hreach : origin.Reachable system)
    (hreturns : system.Returns thread frame after) :
    ∃ before last rest next reply, origin.Reachable before ∧
      before.Advance after thread last rest next ∧ last.role = frame.role ∧
      next.signal = .replied reply := by
  obtain ⟨started, before, last, rest, next, reply, hstart, hlater, hlast⟩ := hreturns.exists_steps
  have hstarted : origin.Reachable started := .move (.step thread) hreach hstart
  refine ⟨before, last, rest, next, reply, ?_, hlast⟩
  exact (hstarted.unrestricted.trans hlater.unrestricted).reachable

end Returns

end System

end FragmentLifecycle
