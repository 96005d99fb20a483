import FragmentLifecycle.Proofs.Calls
import FragmentLifecycle.Proofs.TerminalReport

/-!
# The operator tree

The builder is called once, so there is at most one tree.  From the return of the builder
a tree is followed like a token: it is on its way to the run, about to be stored, stored,
or about to be closed, until the close of the tree is entered
(`System.ReachableUnder.tree_total`).
-/

namespace FragmentLifecycle

/-! ## Trees -/

def Call.isBuild : Call → Bool
  | .build => true
  | _ => false

def Call.isCloseRoot : Call → Bool
  | .closeRoot => true
  | _ => false

/-- Whether a builder with this outcome returns a tree. -/
def Outcome.succeeds : Outcome → Bool
  | .error _ | .panic _ => false
  | _ => true

/-- The return of a builder with a tree. -/
def Entry.isTree (script : Script) : Entry → Bool
  | .left .build unwound => !unwound && script.build.outcome.succeeds
  | _ => false

def Executor.treesBuilt (executor : Executor) : Nat :=
  tally (Entry.isTree executor.fragment.script) executor.journal

/-- Whether a reply to the run brings a tree. -/
def Signal.isTree : Signal → Bool
  | .replied (.failed _) => false
  | .replied _ => true
  | _ => false

def Frame.awaitsTree (id : ExecutorId) : Frame → Bool
  | .run owner _ .building => owner = id
  | _ => false

def Frame.isBuild (id : ExecutorId) : Frame → Bool
  | .call owner .build _ => owner = id
  | _ => false

theorem Frame.eq_call_of_isBuild {id : ExecutorId} {frame : Frame}
    (hbuild : frame.isBuild id = true) : ∃ point, frame = .call id .build point := by
  cases frame with
  | call owner call point =>
    cases call with
    | build =>
      obtain rfl : owner = id := by simpa [Frame.isBuild] using hbuild
      exact ⟨point, rfl⟩
    | _ => cases hbuild
  | _ => cases hbuild

/-- Weighs a run that has got a tree from the builder. -/
def pendingTree (id : ExecutorId) : List Frame → Signal → Nat
  | [], _ => 0
  | frame :: _, signal => (frame.awaitsTree id && signal.isTree).toNat

/-- Weighs the frames that the builder is still to return from. -/
def Frame.buildDue : Frame → Nat
  | .run _ _ .enrol | .run _ _ .lockSetup | .run _ _ .inspect => 1
  | .call _ target _ => target.isBuild.toNat
  | _ => 0

/-- Weighs the frames that a tree is stored or closed from. -/
def Frame.treeDue : Frame → Nat
  | .run _ _ .keepTree => 1
  | .call _ .closeRoot .enter => 1
  | _ => 0

theorem Frame.Awaits.awaitsTree_eq_false {caller : Frame} {role : Role} {id : ExecutorId}
    (hawaits : caller.Awaits role) (hrole : role ≠ .call id .build) :
    caller.awaitsTree id = false := by
  cases hawaits <;> simp_all [Frame.awaitsTree]

theorem Signal.isTree_of_ne_failed {reply : Reply} (hreply : ∀ fault, reply ≠ .failed fault) :
    (Signal.replied reply).isTree = true := by
  cases reply with
  | failed fault => exact absurd rfl (hreply fault)
  | answer | progress => rfl

theorem Outcome.isTree_of_reply {outcome : Outcome} {reply : Reply}
    (hreply : outcome.reply? = some reply) : (Signal.replied reply).isTree = outcome.succeeds := by
  cases outcome <;> cases hreply <;> rfl

theorem tally_isTree_le (script : Script) (journal : List Record) :
    tally (Entry.isTree script) journal ≤ tally (Entry.isLeft Call.isBuild) journal := by
  refine List.countP_mono_left fun record _ htree => ?_
  cases hentry : record.entry with
  | left call unwound =>
    cases call with
    | build => rfl
    | _ => simp [hentry, Entry.isTree] at htree
  | _ => simp [hentry, Entry.isTree] at htree

section Transitions

variable {view : LockView} {thread : ThreadId} {id : ExecutorId} {frame : Frame}
  {signal : Signal} {executor executor' : Executor} {next : Next}

/-- Builders that have returned and builders due never become more, but where a run
begins. -/
theorem Transition.build_le
    (htransition : Transition view thread id frame signal executor next executor')
    (hcore : frame.isCore id = true) :
    tally (Entry.isLeft Call.isBuild) executor'.journal + executor'.course.fresh +
      (next.frames.map (within id Frame.buildDue)).sum ≤
        tally (Entry.isLeft Call.isBuild) executor.journal + executor.course.fresh +
          frame.buildDue := by
  cases htransition
  case aside houtside _ _ => simp [houtside] at hcore
  case runBegins hnew => simp [hnew, Frame.buildDue, Course.fresh]
  case callProceeds hsame hjournal =>
    rw [hjournal, hsame.course]
    simp [Frame.buildDue]
  all_goals simp [Frame.buildDue, Entry.isLeft]
  case callReturns | parkingReturns | callPanics | callUnwinds => omega
  case alarmUnwinds | closingUnwinds | reportUnwinds | retires =>
    simp only [Course.fresh]
    omega
  all_goals simp [Call.isBuild]

/-- A tree is built where the builder's reply brings one. -/
theorem Transition.treesBuilt_eq
    (htransition : Transition view thread id frame signal executor next executor')
    (hplays : ∀ call point, frame = .call id call point →
      point.Plays (executor.fragment.script.planOf call)) :
    executor'.treesBuilt =
      executor.treesBuilt + (frame.isBuild id && next.signal.isTree).toNat := by
  cases htransition
  case aside houtside _ hsame =>
    have hbuild : frame.isBuild id = false := by
      by_contra hbuild
      obtain ⟨point, rfl⟩ := Frame.eq_call_of_isBuild (by simpa using hbuild)
      simp [Frame.isCore] at houtside
    rcases hsame.journal with hjournal | ⟨receiver, hjournal⟩ <;>
      simp [Executor.treesBuilt, hjournal, hsame.fragment, hbuild, Entry.isTree]
  case callProceeds hsame hjournal =>
    simp [Executor.treesBuilt, hjournal, hsame.fragment, Signal.isTree]
  case callReturns call reply hreply =>
    cases call with
    | build =>
      have htree := Outcome.isTree_of_reply hreply
      simp [Executor.treesBuilt, Entry.isTree, Frame.isBuild, Call.replyTo, htree, Script.planOf]
    | _ => simp [Executor.treesBuilt, Entry.isTree, Frame.isBuild]
  case parkingReturns call =>
    cases call with
    | build =>
      have houtcome : executor.fragment.script.build.outcome = .park := hplays _ _ rfl
      simp [Executor.treesBuilt, Entry.isTree, Frame.isBuild, Call.replyTo, houtcome,
        Outcome.succeeds, Signal.isTree]
    | _ => simp [Executor.treesBuilt, Entry.isTree, Frame.isBuild]
  case callPanics call payload _ | callUnwinds call action rest payload =>
    cases call <;> simp [Executor.treesBuilt, Entry.isTree, Signal.isTree]
  all_goals simp [Executor.treesBuilt, Frame.isBuild, Entry.isTree, Signal.isTree]

/-- The run takes up a tree where it moves on to store it. -/
theorem Transition.tree_balance
    (htransition : Transition view thread id frame signal executor next executor')
    (hcore : frame.isCore id = true)
    (hle : executor.treeHeld.toNat + frame.treeDue ≤ 1) :
    tally (Entry.isEntered Call.isCloseRoot) executor'.journal + executor'.treeHeld.toNat +
        (next.frames.map (within id Frame.treeDue)).sum =
      tally (Entry.isEntered Call.isCloseRoot) executor.journal + executor.treeHeld.toNat +
        frame.treeDue + pendingTree id [frame] signal := by
  cases htransition
  case aside houtside _ _ => simp [houtside] at hcore
  case treeKept =>
    have hheld : executor.treeHeld.toNat = 0 := by
      simp only [Frame.treeDue] at hle
      omega
    simp [Frame.treeDue, pendingTree, Frame.awaitsTree, hheld]
  case callProceeds hpoints hsame hjournal =>
    rw [hjournal, hsame.treeHeld]
    cases hpoints <;> simp [Frame.treeDue, pendingTree, Frame.awaitsTree]
  case buildReturns htree =>
    simp [Frame.treeDue, pendingTree, Frame.awaitsTree, Signal.isTree_of_ne_failed htree]
  case treeTaken hheld => simp [Frame.treeDue, pendingTree, Frame.awaitsTree, hheld]
  case callEntered call hcall =>
    cases call with
    | closeRoot =>
      simp [Frame.treeDue, pendingTree, Frame.awaitsTree, Entry.isEntered, Call.isCloseRoot]
      omega
    | _ => simp [Frame.treeDue, pendingTree, Frame.awaitsTree, Entry.isEntered, Call.isCloseRoot]
  all_goals simp [Frame.treeDue, pendingTree, Frame.awaitsTree, Entry.isEntered, Signal.isTree,
    Call.isCloseRoot]

end Transitions

namespace System

section Tree

variable {fragments : List Fragment} {host : Host} {permitted : Command → Prop}
  {system after : System} {id : ExecutorId} {thread : ThreadId} {frame : Frame}
  {rest : List Frame} {next : Next}

theorem ReachableUnder.build_le
    (hreach : (ofFragments fragments host).ReachableUnder permitted system) (id : ExecutorId) :
    tally (Entry.isLeft Call.isBuild) (system.executor id).journal +
      (system.executor id).course.fresh + system.total (within id Frame.buildDue) ≤ 1 := by
  refine hreach.once id _ Frame.buildDue (fun _ => rfl) ?_ fun htransition hcore =>
    htransition.build_le hcore
  rintro frame ⟨⟩ <;> rfl

/-- There is at most one tree. -/
theorem ReachableUnder.treesBuilt_le
    (hreach : (ofFragments fragments host).ReachableUnder permitted system) (id : ExecutorId) :
    (system.executor id).treesBuilt ≤ 1 := by
  have htrees := tally_isTree_le (system.executor id).fragment.script (system.executor id).journal
  have hbuild := hreach.build_le id
  rw [Executor.treesBuilt]
  omega

/-- The reply of a builder goes to the run. -/
theorem Advance.pendingTree_eq
    (hreach : (ofFragments fragments host).ReachableUnder permitted system)
    (hadvance : system.Advance after thread frame rest next) :
    pendingTree id (next.frames ++ rest) next.signal =
      (frame.isBuild id && next.signal.isTree).toNat := by
  by_cases htree : next.signal.isTree = true
  · have hgone : next.frames = [] := by
      apply Next.frames_of_signal
      rintro hgo
      rw [hgo] at htree
      cases htree
    have hlinked := hadvance.frames ▸ hreach.linked thread
    rw [hgone, List.nil_append, htree, Bool.and_true]
    cases rest with
    | nil =>
      cases frame with
      | call => cases hlinked
      | _ => rfl
    | cons caller below =>
      rw [pendingTree, htree, Bool.and_true]
      congr 1
      have hawaits := hlinked.awaits
      cases frame with
      | call owner call point =>
        cases call with
        | build =>
          simp only [Frame.role] at hawaits
          cases hawaits with
          | build => rfl
          | entry hentry => cases (Action.entry?_eq_call hentry).2.2
        | _ => exact hawaits.awaitsTree_eq_false (by simp [Frame.role])
      | _ => exact hawaits.awaitsTree_eq_false (by simp [Frame.role])
  · rw [Bool.not_eq_true] at htree
    cases hframes : next.frames ++ rest with
    | nil => simp [pendingTree, htree]
    | cons => simp [pendingTree, htree]

theorem Advance.treesBuilt_eq
    (hreach : (ofFragments fragments host).ReachableUnder permitted system)
    (hadvance : system.Advance after thread frame rest next) (id : ExecutorId) :
    (after.executor id).treesBuilt =
      (system.executor id).treesBuilt + (frame.isBuild id && next.signal.isTree).toNat := by
  refine (Frame.step_transition id hadvance.step).treesBuilt_eq ?_
  rintro call point rfl
  exact hreach.plays (hadvance.frames ▸ List.mem_cons_self)

/-- A step moves a tree on, or takes it up from the builder's reply. -/
theorem Advance.tree_balance (hadvance : system.Advance after thread frame rest next)
    (id : ExecutorId)
    (hle : (system.executor id).treeHeld.toNat + within id Frame.treeDue frame ≤ 1) :
    tally (Entry.isEntered Call.isCloseRoot) (after.executor id).journal +
        (after.executor id).treeHeld.toNat + after.total (within id Frame.treeDue) =
      tally (Entry.isEntered Call.isCloseRoot) (system.executor id).journal +
        (system.executor id).treeHeld.toNat + system.total (within id Frame.treeDue) +
        pendingTree id [frame] (system.signal thread) := by
  have htransition := Frame.step_transition id hadvance.step
  simp only [System.executor] at hle ⊢
  by_cases hcore : frame.isCore id = true
  · have hlaw := hadvance.total_within id Frame.treeDue
    rw [within, if_pos hcore] at hlaw hle
    have hstep := htransition.tree_balance hcore hle
    omega
  · have houtside : frame.isCore id = false := by simpa using hcore
    obtain ⟨-, hsame⟩ := htransition.outside houtside
    have hnone : pendingTree id [frame] (system.signal thread) = 0 := by
      have hother : frame.awaitsTree id = false := by
        cases frame with
        | run owner l point =>
          cases point with
          | building => exact houtside
          | _ => rfl
        | _ => rfl
      simp [pendingTree, hother]
    rw [hsame.tally_eq fun _ => rfl, hsame.treeHeld, hnone, Nat.add_zero,
      hadvance.total_outside houtside Frame.treeDue (by rintro frame ⟨⟩ <;> rfl)]

/-- A tree that was built is on its way to the run, about to be stored, stored, or about
to be closed, until its close is entered. -/
theorem ReachableUnder.tree_total
    (hreach : (ofFragments fragments host).ReachableUnder permitted system) (id : ExecutorId) :
    (system.executor id).treesBuilt =
      tally (Entry.isEntered Call.isCloseRoot) (system.executor id).journal +
        (system.executor id).treeHeld.toNat + system.total (within id Frame.treeDue) +
        system.weigh (pendingTree id) := by
  refine hreach.invariant (fun system => (system.executor id).treesBuilt =
    tally (Entry.isEntered Call.isCloseRoot) (system.executor id).journal +
      (system.executor id).treeHeld.toNat + system.total (within id Frame.treeDue) +
      system.weigh (pendingTree id)) rfl ?_ ?_
  · intro system after thread root hturn htotal
    have hroot : root.awaitsTree id = false := by
      have hroot := hturn.isRoot
      cases root with
      | run => cases hroot
      | _ => rfl
    rw [hturn.executor_eq, hturn.total_within,
      hturn.weigh (pendingTree id) (fun _ => rfl) (by simp [pendingTree, hroot])]
    exact htotal
  · intro system after thread frame rest next hreach hadvance htotal
    have hbuilt := hadvance.treesBuilt_eq hreach id
    have hmost := hreach.treesBuilt_le id
    have hpending : pendingTree id (next.frames ++ rest) next.signal =
        (frame.isBuild id && next.signal.isTree).toNat := hadvance.pendingTree_eq hreach
    have hweigh := hadvance.weigh (pendingTree id) rfl
    have hforked : pendingTree id next.forked .go = 0 := by
      cases next.forked <;> simp [pendingTree, Signal.isTree]
    have htop : pendingTree id (frame :: rest) (system.signal thread) =
        pendingTree id [frame] (system.signal thread) := rfl
    have hdue := weight_le_total (within id Frame.treeDue) (hadvance.frames ▸ List.mem_cons_self)
    have hmoved := hadvance.tree_balance id (by omega)
    omega

/-- Before the run there is no tree, and none was closed. -/
theorem ReachableUnder.treeless_of_new
    (hreach : (ofFragments fragments host).ReachableUnder permitted system)
    (hnew : (system.executor id).course = .notStarted) :
    (system.executor id).treeHeld = false ∧
      tally (Entry.isEntered Call.isCloseRoot) (system.executor id).journal = 0 := by
  have htrees := tally_isTree_le (system.executor id).fragment.script (system.executor id).journal
  have hbuild := hreach.build_le id
  have htotal := hreach.tree_total id
  rw [Executor.treesBuilt] at htotal
  rw [hnew] at hbuild
  simp only [Course.fresh] at hbuild
  refine ⟨?_, by omega⟩
  rw [← Bool.toNat_eq_zero]
  omega

end Tree

end System

end FragmentLifecycle
