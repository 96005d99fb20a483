import FragmentLifecycle.Proofs.Ambient
import FragmentLifecycle.Proofs.Growth
import FragmentLifecycle.Proofs.Returns

/-!
# Scoped principals

What a body sees of the principal is a matter of what encloses the place where it looks:
`Scope.readsAll` finds these places and installs no principal.  On the stack of a thread,
every run that has taken its principal works as the one of its fragment
(`System.Reachable.works`), and a run that has ended leaves the principal as it was, in
whatever way it ended (`System.Above.principal_of_ended`).
-/

namespace FragmentLifecycle

/-! ## Bodies -/

namespace Scope

/-- What a piece of a body stands in: a body that runs as a principal, or the body of a new
thread. -/
inductive Encloser where
  | principal (principal : Principal)
  | thread
  deriving DecidableEq

/-- The principal that is visible inside `enclosing`, the innermost first: a new thread sees
nothing of what its creator stands in. -/
def visible (initial : Option Principal) : List Encloser → Option Principal
  | [] => initial
  | .principal principal :: _ => some principal
  | .thread :: _ => none

mutual

/-- What encloses the places where an item reads the principal, in the order in which it gets
there, and how the item ends. -/
def reads (enclosing : List Encloser) : Scope → List (List Encloser) × End
  | .readCurrent => ([enclosing], .returned)
  | .panics message => ([], .panicked message)
  | .runAs principal body caught =>
      let inner := readsAll (.principal principal :: enclosing) body
      (inner.1, if caught then .returned else inner.2)
  | .onThread body => ((readsAll (.thread :: enclosing) body).1, .returned)

/-- Items that follow each other, up to the first panic. -/
def readsAll (enclosing : List Encloser) : List Scope → List (List Encloser) × End
  | [] => ([], .returned)
  | item :: rest =>
      match reads enclosing item with
      | (places, .panicked message) => (places, .panicked message)
      | (places, .returned) =>
          let later := readsAll enclosing rest
          (places ++ later.1, later.2)

end

def Observation.current? : Observation → Option (Option Principal)
  | .current principal => some principal
  | .returned | .caught _ => none

/-- The principals that a run has read. -/
def Run.seen (run : Run) : List (Option Principal) :=
  run.observed.filterMap Observation.current?

/-- The run of a body as its places tell it. -/
def Run.Agrees (initial : Option Principal) (run : Run) (places : List (List Encloser) × End) :
    Prop :=
  run.seen = places.1.map (visible initial) ∧ run.ending = places.2

section Agreement

variable {initial : Option Principal} {first : Run} {rest : Option Principal → Run}
  {later : List (List Encloser) × End}

theorem Run.Agrees.andThen_of_panicked {places : List (List Encloser)} {message : String}
    (hfirst : first.Agrees initial (places, .panicked message)) :
    (first.andThen rest).Agrees initial (places, .panicked message) := by
  have hending : first.ending = .panicked message := hfirst.2
  rw [Run.andThen, hending]
  exact hfirst

theorem Run.Agrees.andThen_of_returned {places : List (List Encloser)}
    (hfirst : first.Agrees initial (places, .returned))
    (hrest : (rest first.principal).Agrees initial later) :
    (first.andThen rest).Agrees initial (places ++ later.1, later.2) := by
  have hending : first.ending = .returned := hfirst.2
  rw [Run.andThen, hending]
  refine ⟨?_, hrest.2⟩
  calc (first.observed ++ (rest first.principal).observed).filterMap Observation.current?
      = first.seen ++ (rest first.principal).seen := List.filterMap_append
    _ = (places ++ later.1).map (visible initial) := by
      rw [hfirst.1, hrest.1, List.map_append]

end Agreement

mutual

theorem run_agrees (initial : Option Principal) (enclosing : List Encloser) (item : Scope) :
    (run (visible initial enclosing) item).Agrees initial (reads enclosing item) := by
  cases item with
  | readCurrent => exact ⟨rfl, rfl⟩
  | panics message => exact ⟨rfl, rfl⟩
  | runAs principal body caught =>
    obtain ⟨hseen, hending⟩ := runAll_agrees initial (.principal principal :: enclosing) body
    rw [visible] at hseen hending
    -- the end of the body is observed, but no principal is read for it
    have hleaving {observation : Observation} (hnone : observation.current? = none) :
        ((runAll (some principal) body).observed ++ [observation]).filterMap
          Observation.current? =
        (readsAll (.principal principal :: enclosing) body).1.map (visible initial) := by
      rw [List.filterMap_append, List.filterMap_cons_none hnone, List.filterMap_nil,
        List.append_nil]
      exact hseen
    simp only [run, reads, ← hending]
    cases (runAll (some principal) body).ending with
    | returned => exact ⟨hleaving rfl, (ite_self _).symm⟩
    | panicked message =>
      cases caught with
      | true => exact ⟨hleaving rfl, rfl⟩
      | false => exact ⟨hseen, rfl⟩
  | onThread body =>
    obtain ⟨hseen, -⟩ := runAll_agrees initial (.thread :: enclosing) body
    exact ⟨hseen, rfl⟩

theorem runAll_agrees (initial : Option Principal) (enclosing : List Encloser)
    (body : List Scope) :
    (runAll (visible initial enclosing) body).Agrees initial (readsAll enclosing body) := by
  cases body with
  | nil => exact ⟨rfl, rfl⟩
  | cons item rest =>
    have hitem := run_agrees initial enclosing item
    simp only [runAll, readsAll]
    rcases hplaces : reads enclosing item with ⟨places, ending⟩
    rw [hplaces] at hitem
    cases ending with
    | panicked message => exact hitem.andThen_of_panicked
    | returned =>
      refine hitem.andThen_of_returned ?_
      rw [run_principal]
      exact runAll_agrees initial enclosing rest

end

end Scope

/-! ## Runs -/

theorem Linked.of_append {inner rest : List Frame} (hlinked : Linked (inner ++ rest)) :
    Linked rest := by
  induction inner with
  | nil => exact hlinked
  | cons frame inner ih => exact ih hlinked.tail

/-- What a scoped body gives back to the call that it is part of. -/
def Scope.Run.signal (run : Scope.Run) : Signal :=
  match run.ending with
  | .returned => .replied (.answer (.observed run.observed))
  | .panicked message => .raised (.text message)

/-- Every run on a stack that has taken its principal works as the one that it is due, where
`current` is the principal of the thread. -/
def Works (due : ExecutorId → Principal) : List Frame → Option Principal → Prop
  | [], _ => True
  | frame :: rest, current =>
      (∀ id l point, frame = .run id l point → frame.previous?.isSome → current = some (due id)) ∧
        Works due rest (frame.previous?.getD current)

section Works

variable {due : ExecutorId → Principal} {current : Option Principal} {frame : Frame}

theorem works_append {inner rest : List Frame} : Works due (inner ++ rest) current ↔
    Works due inner current ∧ Works due rest (ambient inner current) := by
  induction inner generalizing current with
  | nil => simp only [List.nil_append, Works, ambient_nil, true_and]
  | cons frame inner ih => simp only [List.cons_append, Works, ambient_cons, ih, and_assoc]

theorem ambient_of_previous {frames : List Frame}
    (hnone : ∀ frame ∈ frames, frame.previous? = none) : ambient frames current = current := by
  induction frames with
  | nil => rfl
  | cons frame rest ih =>
    rw [ambient_cons, hnone frame List.mem_cons_self, Option.getD_none]
    exact ih fun other hother => hnone other (List.mem_cons_of_mem _ hother)

/-- Frames that no run has taken a principal in work as anyone. -/
theorem works_of_previous {frames : List Frame}
    (hnone : ∀ frame ∈ frames, frame.previous? = none) : Works due frames current := by
  induction frames generalizing current with
  | nil => trivial
  | cons frame rest ih =>
    have hframe := hnone frame List.mem_cons_self
    exact ⟨fun _ _ _ _ hsome => by simp [hframe] at hsome,
      ih fun other hother => hnone other (List.mem_cons_of_mem _ hother)⟩

variable {world after : World} {view : LockView} {thread : ThreadId} {signal : Signal}
  {next : Next}

/-- Only a run goes on with a principal taken. -/
private theorem Frame.previous_of_step (hrun : ∀ id l point, frame ≠ .run id l point)
    (hstep : frame.step world view thread signal = some (after, next)) :
    ∀ pushed ∈ next.frames, pushed.previous? = none := by
  intro pushed hpushed
  cases pushed with
  | run id l point =>
    have htransition := Frame.step_transition id hstep
    generalize world.executors id = before, after.executors id = executor at htransition
    cases htransition with
    | aside _ hframes _ =>
      cases hframes _ (List.mem_append_left _ hpushed) (by simp [Frame.isCore])
      rfl
    | _ => first | exact absurd rfl (hrun _ _ _) | simp at hpushed
  | _ => rfl

private theorem stepRun_works {id : ExecutorId} {l : Option ListenerId} {point : RunPoint}
    (hdue : due id = (world.executors id).fragment.identity.principal)
    (hworks : Works due [.run id l point] (world.principals thread)) :
    ∀ result ∈ stepRun world view thread id l point signal,
      Works due result.2.frames (result.1.principals thread) := by
  unfold stepRun
  split
  · fun_cases stepSetup world view thread id l point signal
    all_goals rintro _ ⟨⟩
    all_goals exact works_of_previous (by simp [Frame.previous?])
  · split
    · fun_cases stepWindDown world thread id l point signal
      all_goals rintro _ ⟨⟩
      all_goals exact works_of_previous (by simp [Frame.previous?])
    · fun_cases stepDrive world thread id l point signal
      all_goals rintro _ ⟨⟩
      case case1 =>
        -- the run takes the principal of its fragment
        have htaken : (world.setPrincipal thread
            (some (world.executors id).fragment.identity.principal)).principals thread =
              some (due id) := by
          rw [hdue]
          exact overwrite_self _ _ _
        refine ⟨?_, ?_, trivial⟩
        · rintro _ _ _ ⟨⟩
        · rintro _ _ _ ⟨⟩ -
          exact htaken
      -- it has taken it before, or has given it back
      all_goals simp_all [Works, Frame.previous?]

/-- A step of a stack that works as it is due leaves one that does. -/
theorem Frame.step_works (hdue : ∀ id, due id = (world.executors id).fragment.identity.principal)
    {below : List Frame} (hworks : Works due (frame :: below) (world.principals thread))
    (hstep : frame.step world view thread signal = some (after, next)) :
    Works due (next.frames ++ below) (after.principals thread) := by
  obtain ⟨hframe, hbelow⟩ : Works due [frame] (world.principals thread) ∧
      Works due below (ambient [frame] (world.principals thread)) :=
    works_append.mp hworks
  rw [works_append, (Frame.step_principal hstep).2]
  refine ⟨?_, hbelow⟩
  by_cases hrun : ∃ id l point, frame = .run id l point
  · obtain ⟨id, l, point, rfl⟩ := hrun
    exact stepRun_works (hdue id) hframe _ hstep
  · push Not at hrun
    exact works_of_previous (Frame.previous_of_step hrun hstep)

end Works

namespace System

/-- The principal of the fragment of an executor. -/
def due (system : System) (id : ExecutorId) : Principal :=
  (system.executor id).fragment.identity.principal

/-- The stack of a thread is linked, and its runs work as the principals of their fragments. -/
structure Orderly (system : System) (thread : ThreadId) : Prop where
  linked : Linked (system.frames thread)
  works : Works system.due (system.frames thread) (system.world.principals thread)

section Orderly

variable {start system after : System} {thread : ThreadId} {top : Frame} {below : List Frame}
  {next : Next}

theorem Orderly.of_lone {root : Frame} (hframes : system.frames thread = [root])
    (hroot : root.role.isRoot = true) : system.Orderly thread := by
  have hnone : ∀ frame ∈ [root], frame.previous? = none := by
    intro frame hframe
    obtain rfl := List.mem_singleton.mp hframe
    cases frame with
    | run => cases hroot
    | _ => rfl
  exact ⟨hframes ▸ hroot, hframes ▸ works_of_previous hnone⟩

theorem Orderly.of_over (hframes : system.frames thread = []) : system.Orderly thread :=
  ⟨hframes ▸ trivial, hframes ▸ trivial⟩

theorem Orderly.of_same (hsame : system.Orderly thread)
    (hframes : after.frames thread = system.frames thread) (hdue : after.due = system.due)
    (hprincipal : after.world.principals thread = system.world.principals thread) :
    after.Orderly thread := by
  refine ⟨hframes ▸ hsame.linked, ?_⟩
  rw [hframes, hdue, hprincipal]
  exact hsame.works

theorem Advance.due_eq (hadvance : system.Advance after thread top below next) :
    after.due = system.due := by
  funext id
  rw [due, due]
  exact congrArg (fun fragment : Fragment => fragment.identity.principal)
    (Frame.step_transition id hadvance.step).grows.fragment

/-- A step keeps every stack in order. -/
theorem Advance.orderly (hadvance : system.Advance after thread top below next)
    (horderly : ∀ other, system.Orderly other) (other : ThreadId) : after.Orderly other := by
  have hlinks := Frame.step_links hadvance.step
  by_cases hother : other = thread
  · subst hother
    obtain ⟨hlinked, hworks⟩ := horderly other
    rw [hadvance.frames] at hlinked hworks
    refine ⟨hadvance.own ▸ hlinked.next hlinks, ?_⟩
    rw [hadvance.own, hadvance.due_eq]
    exact Frame.step_works (fun _ => rfl) hworks hadvance.step
  · obtain ⟨hframes, -⟩ | ⟨-, hforked, -⟩ := hadvance.others other hother
    · exact (horderly other).of_same hframes hadvance.due_eq
        ((Frame.step_principal hadvance.step).1 other hother)
    · cases next with
      | fork reply started hosts => exact .of_lone hforked hlinks.isRoot
      | goto | call | reply | raise => exact .of_over hforked

theorem Turnover.orderly {root : Frame} (hturn : system.Turnover after thread root)
    (hprincipals : after.world.principals = system.world.principals)
    (horderly : ∀ other, system.Orderly other) (other : ThreadId) : after.Orderly other := by
  by_cases hother : other = thread
  · subst hother
    obtain ⟨-, hbegun, -⟩ | ⟨-, hgone⟩ := hturn.own
    · exact .of_lone hbegun hturn.isRoot
    · exact .of_over hgone
  · refine (horderly other).of_same (hturn.others other hother).1 ?_ (congrFun hprincipals other)
    funext id
    rw [due, due, hturn.executor_eq id]

/-- Every move is a step, or the turnover of a lone frame that leaves all principals. -/
theorem advance_or_turnover_of_principals {move : Move} (hmove : system.move move = some after) :
    (∃ thread frame rest next, system.Advance after thread frame rest next) ∨
      ∃ thread root, system.Turnover after thread root ∧
        after.world.principals = system.world.principals := by
  cases move with
  | step thread => exact .inl ⟨thread, advance_of_step hmove⟩
  | call command =>
    obtain rfl := Option.some.inj hmove
    exact .inr ⟨_, _, turnover_of_call system command, rfl⟩
  | abandon thread =>
    obtain ⟨root, hturn, -⟩ := turnover_of_abandon hmove
    exact .inr ⟨thread, root, hturn, (principals_of_abandon hmove).1⟩

/-- From a system without threads on, with whatever principals installed, every stack stays
in order. -/
theorem Reachable.orderly (hidle : start.threads = []) (hreach : start.Reachable system)
    (thread : ThreadId) : system.Orderly thread := by
  induction hreach generalizing thread with
  | refl => exact .of_over (by simp [System.frames, stack, hidle])
  | @move system after move _ hmove ih =>
    rcases advance_or_turnover_of_principals hmove with
      ⟨_, _, _, _, hadvance⟩ | ⟨_, _, hturn, hprincipals⟩
    · exact hadvance.orderly ih thread
    · exact hturn.orderly hprincipals ih thread

/-- An advance of the tree is called by a run, which has taken its principal. -/
theorem Orderly.ambient_of_next {id : ExecutorId} {index : Nat} {point : CallPoint}
    {inner rest : List Frame} (horderly : system.Orderly thread)
    (hframes : system.frames thread = inner ++ .call id (.next index) point :: rest) :
    ambient inner (system.world.principals thread) = some (system.due id) := by
  obtain ⟨hlinked, hworks⟩ := horderly
  rw [hframes] at hlinked hworks
  obtain ⟨-, -, hcaller⟩ := works_append.mp hworks
  cases rest with
  | nil => cases hlinked.of_append
  | cons caller below =>
    cases hlinked.of_append.awaits with
    | next => exact hcaller.1 _ _ _ rfl rfl
    | entry hentry => cases (Action.entry?_eq_call hentry).2.2

/-- What an action of an advance answers about principals is what they are for the run. -/
theorem Orderly.signal_of_next {id : ExecutorId} {index : Nat} {point : CallPoint}
    {action : Action} {rest : List Frame} (horderly : system.Orderly thread)
    (hframes : system.frames thread =
      .perform id action .start :: .call id (.next index) point :: rest)
    (hstep : system.step thread = some after) :
    (action = .principal →
        after.signal thread = .replied (.answer (.principal (some (system.due id))))) ∧
      ∀ body, action = .scoped body →
        after.signal thread = (Scope.runAll (some (system.due id)) body).signal := by
  have hinner : system.frames thread =
      [.perform id action .start] ++ .call id (.next index) point :: rest := hframes
  have hprincipal : system.world.principals thread = some (system.due id) :=
    horderly.ambient_of_next hinner
  obtain ⟨_, _, next, hadvance⟩ := advance_of_step hstep
  obtain ⟨rfl, rfl⟩ := List.cons.inj (hadvance.frames.symm.trans hframes)
  have hperform := hadvance.step
  cases hsignal : system.signal thread with
  | replied | raised => simp [Frame.step, stepPerform, hsignal] at hperform
  | go =>
    rw [hadvance.ownSignal]
    constructor
    · rintro rfl
      simp only [Frame.step, stepPerform, hsignal, startAction, hprincipal] at hperform
      obtain ⟨-, rfl⟩ := Prod.mk.inj (Option.some.inj hperform)
      rfl
    · rintro body rfl
      simp only [Frame.step, stepPerform, hsignal, startAction, hprincipal] at hperform
      rw [Scope.Run.signal]
      cases hending : (Scope.runAll (some (system.due id)) body).ending
      all_goals
        rw [hending] at hperform
        obtain ⟨-, rfl⟩ := Prod.mk.inj (Option.some.inj hperform)
        rfl

/-! ### Ends of runs -/

/-- What stands above `rest` on the stack of a thread gives back the principal `value`. -/
def GivesBack (system : System) (thread : ThreadId) (rest : List Frame)
    (value : Option Principal) : Prop :=
  ∃ inner, system.frames thread = inner ++ rest ∧
    ambient inner (system.world.principals thread) = value

variable {rest : List Frame} {value : Option Principal}

theorem Advance.givesBack {mover : ThreadId} (hadvance : system.Advance after mover top below next)
    (hback : system.GivesBack thread rest value)
    (hheight : rest.length < (system.frames thread).length) :
    after.GivesBack thread rest value := by
  obtain ⟨inner, hframes, hvalue⟩ := hback
  obtain ⟨hothers, hown⟩ := Frame.step_principal hadvance.step
  by_cases hthread : thread = mover
  · subst hthread
    cases inner with
    | nil => exact absurd hheight (by simp [hframes])
    | cons first inner =>
      obtain ⟨rfl, rfl⟩ := List.cons.inj (hadvance.frames.symm.trans hframes)
      refine ⟨next.frames ++ inner, hadvance.own.trans (List.append_assoc _ _ _).symm, ?_⟩
      rw [ambient_append, hown]
      exact hvalue
  · have hbusy : system.frames thread ≠ [] :=
      List.ne_nil_of_length_pos (Nat.zero_lt_of_lt hheight)
    exact ⟨inner, (hadvance.same_of_busy hthread hbusy).1.trans hframes,
      by rw [hothers thread hthread, hvalue]⟩

theorem Above.givesBack (hback : start.GivesBack thread rest value)
    (habove : start.Above thread rest.length system) : system.GivesBack thread rest value := by
  induction habove with
  | refl => exact hback
  | @move system after move habove hmove hheight ih =>
    have hbefore := habove.throughout.holds_last
    rcases advance_or_turnover_of_principals hmove with
      ⟨_, _, _, _, hadvance⟩ | ⟨_, _, hturn, hprincipals⟩
    · exact hadvance.givesBack ih hbefore
    · have hbusy : system.frames thread ≠ [] :=
        List.ne_nil_of_length_pos (Nat.zero_lt_of_lt hbefore)
      rcases hturn.same_of_busy hbusy with ⟨hsame, -⟩ | ⟨-, hgone⟩
      · obtain ⟨inner, hframes, hvalue⟩ := ih
        exact ⟨inner, hsame.trans hframes, by rw [hprincipals, hvalue]⟩
      · simp [hgone] at hheight

theorem Above.givesBack_of_step {frame : Frame} (hframes : start.frames thread = frame :: rest)
    (habove : start.Above thread rest.length system) (hstep : system.step thread = some after) :
    after.GivesBack thread rest (ambient [frame] (start.world.principals thread)) := by
  obtain ⟨_, _, _, hadvance⟩ := advance_of_step hstep
  have hfirst : start.GivesBack thread rest (ambient [frame] (start.world.principals thread)) :=
    ⟨[frame], hframes, rfl⟩
  exact hadvance.givesBack (habove.givesBack hfirst) habove.throughout.holds_last

/-- A stack that has come down to the height of `rest` is `rest`. -/
theorem Above.frames_of_length {frame : Frame} (hframes : start.frames thread = frame :: rest)
    (habove : start.Above thread rest.length system) (hstep : system.step thread = some after)
    (hlength : (after.frames thread).length = rest.length) : after.frames thread = rest := by
  obtain ⟨inner, hinner, -⟩ := habove.givesBack_of_step hframes hstep
  rw [hinner, List.length_append] at hlength
  obtain rfl : inner = [] := List.length_eq_zero_iff.mp (by omega)
  exact hinner

/-- A frame that has not taken a principal leaves the one that it found when it has ended. -/
theorem Above.principal_of_ended {frame : Frame} (hframes : start.frames thread = frame :: rest)
    (hnone : frame.previous? = none) (habove : start.Above thread rest.length system)
    (hstep : system.step thread = some after) (hover : after.frames thread = rest) :
    after.world.principals thread = start.world.principals thread := by
  obtain ⟨inner, hinner, hvalue⟩ := habove.givesBack_of_step hframes hstep
  obtain rfl : inner = [] := List.append_left_eq_self.mp (hinner.symm.trans hover)
  calc after.world.principals thread
      = ambient [frame] (start.world.principals thread) := hvalue
    _ = start.world.principals thread :=
      ambient_of_previous fun _ hmem => List.mem_singleton.mp hmem ▸ hnone

end Orderly

/-- Principals are scoped.  A body ends, normally or by a panic, with the principal that it
began with, and reads at every place the principal of the innermost body around it on its own
thread.  In a system that began without threads, an advance of the tree runs as the user of
the query exactly where impersonation is on: that is the principal as long as nothing inside
the advance has taken another one, whatever the advances before it have done, and so what its
own actions are told.  A run that has ended, by a reply or by a panic, leaves the principal that
the thread had when it began. -/
theorem principals_are_scoped {start system : System} (hidle : start.threads = [])
    (hreach : start.Reachable system) (thread : ThreadId) :
    (∀ initial body,
      (Scope.runAll initial body).principal = initial ∧
        (Scope.runAll initial body).seen =
          (Scope.readsAll [] body).1.map (Scope.visible initial) ∧
        (Scope.runAll initial body).ending = (Scope.readsAll [] body).2) ∧
      (∀ id index point inner rest,
        system.frames thread = inner ++ .call id (.next index) point :: rest →
        (∀ frame ∈ inner, frame.previous? = none) →
        system.world.principals thread = some (system.due id)) ∧
      (∀ id index point action rest after,
        system.frames thread = .perform id action .start :: .call id (.next index) point :: rest →
        system.step thread = some after →
        (action = .principal →
            after.signal thread = .replied (.answer (.principal (some (system.due id))))) ∧
          ∀ body, action = .scoped body →
            after.signal thread = (Scope.runAll (some (system.due id)) body).signal) ∧
      (∀ id, system.due id =
        if (start.executor id).fragment.identity.impersonation then
          .proxy (start.executor id).fragment.identity.user
        else .processUser) ∧
      ∀ id listener rest before after,
        system.frames thread = .run id listener .start :: rest →
        system.Above thread rest.length before → before.step thread = some after →
        after.frames thread = rest →
        after.world.principals thread = system.world.principals thread := by
  have horderly := hreach.orderly hidle thread
  refine ⟨fun initial body => ?_, ?_, ?_, fun id => ?_, ?_⟩
  · obtain ⟨hseen, hending⟩ := Scope.runAll_agrees initial [] body
    exact ⟨Scope.runAll_principal initial body, hseen, hending⟩
  · intro id index point inner rest hframes hnone
    calc system.world.principals thread
        = ambient inner (system.world.principals thread) := (ambient_of_previous hnone).symm
      _ = some (system.due id) := horderly.ambient_of_next hframes
  · intro id index point action rest after hframes hstep
    exact horderly.signal_of_next hframes hstep
  · have hfragment := (hreach.unrestricted.grows id).fragment
    rw [due, hfragment]
    rfl
  · intro id listener rest before after hframes habove hstep hover
    exact habove.principal_of_ended hframes rfl hstep hover

/-- A fragment of a user's query.  Its first advance works for someone else, panics there and
catches that, asks for the principal and panics again. -/
def impersonatingFragment : Fragment where
  identity := ⟨⟨⟨0⟩, 0, 0⟩, ⟨"", 0, 0, 0⟩, ⟨"", 0, 0, 0⟩, "alice", true⟩
  root := ⟨"", .null⟩
  script :=
    let borrowed := Action.scoped [.runAs (.proxy "bob") [.readCurrent, .panics "lost"] true]
    { steps := [{ actions := [borrowed, .principal], outcome := .panic .other }] }
  heapPolicy := .report

/-- A system of that fragment in which every thread has a principal from the start. -/
def ofImpersonated (initial : Option Principal) : System :=
  let system := ofFragments [impersonatingFragment] { slots := { free := 0 } }
  { system with world := { system.world with principals := fun _ => initial } }

/-- Whether the first thread is about to ask for the principal in the first advance. -/
def isAsking (system : System) : Bool :=
  match system.frames 0 with
  | .perform id .principal .start :: .call owner (.next index) _ :: _ =>
      decide (id = 0 ∧ owner = 0 ∧ index = 0)
  | _ => false

theorem exists_frames_of_isAsking {system : System} (hasking : system.isAsking = true) :
    ∃ point rest,
      system.frames 0 = .perform 0 .principal .start :: .call 0 (.next 0) point :: rest := by
  unfold isAsking at hasking
  split at hasking
  · rename_i hframes
    obtain ⟨rfl, rfl, rfl⟩ := of_decide_eq_true hasking
    exact ⟨_, _, hframes⟩
  · cases hasking

/-- What the first advance has done as someone else leaves it the user of the query, and its
panic at the end leaves the thread of the run what it had. -/
theorem principals_are_scoped_of_panicking_body :
    (∃ system after point rest, (ofImpersonated (some .processUser)).Reachable system ∧
      system.frames 0 = .perform 0 .principal .start :: .call 0 (.next 0) point :: rest ∧
      system.step 0 = some after ∧
      after.signal 0 = .replied (.answer (.principal (some (.proxy "alice"))))) ∧
    ∃ system before after, (ofImpersonated (some .processUser)).Reachable system ∧
      system.frames 0 = [.run 0 none .start, .perform 0 .run .waiting] ∧
      system.Above 0 1 before ∧ before.step 0 = some after ∧
      after.frames 0 = [.perform 0 .run .waiting] ∧
      after.world.principals 0 = some .processUser := by
  constructor
  · obtain ⟨system, after, hreach, hasking, -, hafter, -⟩ :=
      exists_later_of_moves (ofImpersonated (some .processUser))
        (.call (.act 0 .run) :: List.replicate 25 (.step 0)) [.step 0]
        isAsking true (fun _ => true) true (by decide +kernel) (by decide +kernel)
    obtain ⟨point, rest, hframes⟩ := exists_frames_of_isAsking hasking
    have hstep : system.step 0 = some after := by simpa [moves, System.move] using hafter
    obtain ⟨-, -, hanswer, hdue, -⟩ := principals_are_scoped rfl hreach 0
    have hsignal := (hanswer 0 0 point .principal rest after hframes hstep).1 rfl
    rw [hdue 0] at hsignal
    exact ⟨system, after, point, rest, hreach, hframes, hstep, hsignal⟩
  · obtain ⟨system, before, after, hreach, hbegun, hpath, hstep, hended⟩ :=
      exists_throughout_of_moves (ofImpersonated (some .processUser))
        [.call (.act 0 .run), .step 0] 0 52
        (fun system => (system.frames 0, system.world.principals 0))
        ([.run 0 none .start, .perform 0 .run .waiting], some .processUser)
        (fun system => decide (1 < (system.frames 0).length)) true
        (fun system => (system.frames 0).length) 1
        rfl (by decide +kernel) (by decide +kernel)
    obtain ⟨hframes, hinitial⟩ : _ ∧ _ := by simpa only [Prod.mk.injEq] using hbegun
    have habove : system.Above 0 1 before :=
      (hpath.imp fun _ hheight => of_decide_eq_true hheight).above
    have hover : after.frames 0 = [.perform 0 .run .waiting] :=
      habove.frames_of_length hframes hstep hended
    obtain ⟨-, -, -, -, hrestores⟩ := principals_are_scoped rfl hreach 0
    have hrestored := hrestores 0 none _ before after hframes habove hstep hover
    exact ⟨system, before, after, hreach, hframes, habove, hstep, hover, hrestored.trans hinitial⟩

end System

end FragmentLifecycle
