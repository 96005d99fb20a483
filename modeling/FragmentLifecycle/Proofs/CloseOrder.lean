import FragmentLifecycle.Proofs.Closing
import FragmentLifecycle.Proofs.Resources

/-!
# The order of the last calls

A run ends with the close of its tree, the close of the context, and the report, in this
order.  No advance is in progress when the tree is closed and none follows, and there is
one close of the tree for a tree that was built, whoever comes to close the resources.
-/

namespace FragmentLifecycle

/-- An advance comes before the close of the tree, this comes when every advance has
ended, the context is closed when the close of the tree has ended, and the report is made
when the close of the context has ended. -/
def ClosesInOrder : List Record → Prop :=
  Consistent fun before record =>
    (∀ index, record.entry = .entered (.next index) →
      tally (Entry.isEntered Call.isCloseRoot) before = 0) ∧
    (record.entry = .entered .closeRoot →
      tally (Entry.isLeft Call.isNext) before = tally (Entry.isEntered Call.isNext) before ∧
        tally (Entry.isEntered Call.isCloseContext) before = 0) ∧
    (record.entry = .entered .closeContext →
      tally (Entry.isLeft Call.isCloseRoot) before =
        tally (Entry.isEntered Call.isCloseRoot) before) ∧
    (record.entry.isTerminalReport = true →
      tally (Entry.isLeft Call.isCloseContext) before = 1)

namespace System

section Order

variable {fragments : List Fragment} {host : Host} {permitted : Command → Prop}
  {system after : System} {id : ExecutorId} {thread : ThreadId}

/-! ### The close of the tree -/

/-- While the tree is closed, no advance is in progress. -/
theorem ReachableUnder.not_advancing_of_closeRoot
    (hdisciplined : ((fragments[id]?).getD .vacant).script.Disciplined)
    (hreach : (ofFragments fragments host).ReachableUnder permitted system)
    {point point' : CallPoint} {owner : ThreadId} {index : Nat}
    (hmem : .call id .closeRoot point ∈ system.frames thread) :
    .call id (.next index) point' ∉ system.frames owner := by
  intro hnext
  obtain ⟨l, hrun⟩ := hreach.run_of_closing hdisciplined (hreach.closing_of_closeRoot hmem) rfl
  obtain ⟨l', previous, hadvancing⟩ := hreach.advancing_of_next hnext
  obtain ⟨-, -, hsame⟩ := hreach.live_unique hrun (by simp) hadvancing (by simp)
  cases hsame

/-- While the tree advances, it has not been closed. -/
theorem ReachableUnder.not_closed_of_next
    (hdisciplined : ((fragments[id]?).getD .vacant).script.Disciplined)
    (hreach : (ofFragments fragments host).ReachableUnder permitted system) {index : Nat}
    {point : CallPoint} (hmem : .call id (.next index) point ∈ system.frames thread) :
    tally (Entry.isEntered Call.isCloseRoot) (system.executor id).journal = 0 := by
  obtain ⟨l, previous, hrun⟩ := hreach.advancing_of_next hmem
  have hheld := hreach.treeHeld_of_driving hdisciplined hrun rfl
  have htree := hreach.tree_total id
  have hmost := hreach.treesBuilt_le id
  rw [hheld, Bool.toNat_true] at htree
  omega

theorem ReachableUnder.closeRoot_le
    (hreach : (ofFragments fragments host).ReachableUnder permitted system) (id : ExecutorId) :
    tally (Entry.isEntered Call.isCloseRoot) (system.executor id).journal ≤
      (system.executor id).treesBuilt := by
  have htree := hreach.tree_total id
  omega

/-! ### The close of the context -/

/-- Where all closes have ended, nothing weighs that only stands inside a close. -/
theorem IsClosed.total_eq_zero {weight : Frame → Nat} (hclosed : system.IsClosed id)
    (hinside : ∀ thread, ∀ frame ∈ system.frames thread, 0 < within id weight frame →
      ∃ point, .closeResources id point ∈ system.frames thread ∧ point.holdsClosing = true) :
    system.total (within id weight) = 0 := by
  refine System.total_eq_zero _ fun owner frame hmem => ?_
  by_contra hweighs
  obtain ⟨point, hcloser, hholds⟩ := hinside owner frame hmem (Nat.pos_of_ne_zero hweighs)
  have hclosing := weight_le_total (within id Frame.closing) hcloser
  rw [hclosed.2] at hclosing
  simp [Frame.closing, hholds] at hclosing

/-- Where all closes have ended, the close of the context was entered and has ended. -/
theorem ReachableUnder.context_of_closed
    (hdisciplined : ((fragments[id]?).getD .vacant).script.Disciplined)
    (hreach : (ofFragments fragments host).ReachableUnder (Command.SparesContext id) system)
    (hclosed : system.IsClosed id) :
    tally (Entry.isEntered Call.isCloseContext) (system.executor id).journal = 1 ∧
      tally (Entry.isLeft Call.isCloseContext) (system.executor id).journal = 1 := by
  have hcontext := hreach.context_total hdisciplined
  have hdue : system.total (within id Frame.contextDue) = 0 := by
    refine hclosed.total_eq_zero fun owner frame hmem hweighs => ?_
    obtain ⟨hcore, hweight⟩ := within_pos id _ hweighs
    cases frame with
    | closeResources other point =>
      obtain rfl : other = id := by simpa [Frame.isCore] using hcore
      refine ⟨point, hmem, ?_⟩
      cases point <;> first | rfl | cases hweight
    | call other call point =>
      obtain rfl : other = id := by simpa [Frame.isCore] using hcore
      cases call with
      | closeContext => exact ⟨_, hreach.closing_of_closeContext hdisciplined hmem, rfl⟩
      | _ => cases hweight
    | _ => cases hweight
  have hentered : tally (Entry.isEntered Call.isCloseContext) (system.executor id).journal = 1 := by
    rw [hclosed.1, hdue] at hcontext
    exact hcontext
  refine ⟨hentered, ?_⟩
  rw [← hentered]
  refine hreach.calls_balanced fun owner call point hmem => ?_
  by_contra hkind
  cases call with
  | closeContext =>
    have hcloser := hreach.closing_of_closeContext hdisciplined hmem
    have hclosing := weight_le_total (within id Frame.closing) hcloser
    rw [hclosed.2] at hclosing
    simp [Frame.closing, ClosePoint.holdsClosing] at hclosing
  | _ => exact hkind rfl

/-- A run that has returned leaves its resources closed. -/
theorem ReachableUnder.closed_of_ended
    (hreach : (ofFragments fragments host).ReachableUnder permitted system)
    (hended : (system.executor id).course = .ended thread) : system.IsClosed id := by
  refine hreach.invariant (fun system => ∀ thread,
    (system.executor id).course = .ended thread → system.IsClosed id) ?_ ?_ ?_ thread hended
  · rintro thread ⟨⟩
  · intro system after thread root hturn hholds owner hended
    rw [hturn.executor_eq] at hended
    exact (hholds owner hended).turnover hturn
  · intro system after thread frame rest next hreach hadvance hholds owner hended
    rcases (Frame.step_transition id hadvance.step).course_of_ended hended with hbefore | ⟨l, rfl⟩
    · exact (hholds owner hbefore).advance hadvance
    · have htop := hadvance.frames ▸ List.mem_cons_self
      exact (hreach.closed_of_past htop rfl).advance hadvance

/-- Where no run is about to store a tree and no tree is being closed, a tree that was
built is stored or its close was entered. -/
theorem ReachableUnder.tree_of_quiet
    (hreach : (ofFragments fragments host).ReachableUnder permitted system)
    (hrun : ∀ owner l point, .run id l point ∈ system.frames owner → point.isBuilding = false)
    (hroot : ∀ owner point, .call id .closeRoot point ∉ system.frames owner) :
    (system.executor id).treesBuilt =
      tally (Entry.isEntered Call.isCloseRoot) (system.executor id).journal +
        (system.executor id).treeHeld.toNat := by
  have htree := hreach.tree_total id
  have hdue : system.total (within id Frame.treeDue) = 0 := by
    refine System.total_eq_zero _ fun owner frame hmem => ?_
    by_contra hweighs
    obtain ⟨hcore, hweight⟩ := within_pos id _ (Nat.pos_of_ne_zero hweighs)
    cases frame with
    | run other l point =>
      obtain rfl : other = id := by simpa [Frame.isCore] using hcore
      have hpoint := hrun owner l point hmem
      cases point with
      | keepTree => cases hpoint
      | _ => cases hweight
    | call other call point =>
      obtain rfl : other = id := by simpa [Frame.isCore] using hcore
      cases call with
      | closeRoot => exact hroot owner point hmem
      | _ => cases hweight
    | _ => cases hweight
  have hpending : system.weigh (pendingTree id) = 0 := by
    refine weigh_eq_zero _ fun owner => ?_
    cases hframes : system.frames owner with
    | nil => rfl
    | cons top below =>
      have hother : top.awaitsTree id = false := by
        by_contra hawaits
        cases top with
        | run other l point =>
          cases point with
          | building =>
            obtain rfl : other = id := by simpa [Frame.awaitsTree] using hawaits
            cases hrun owner l .building (hframes ▸ List.mem_cons_self)
          | _ => exact hawaits rfl
        | _ => exact hawaits rfl
      simp [pendingTree, hother]
  omega

/-- When the run has returned, a tree that was built is stored or its close was entered. -/
theorem ReachableUnder.tree_of_ended
    (hreach : (ofFragments fragments host).ReachableUnder permitted system)
    (hended : (system.executor id).course = .ended thread) :
    (system.executor id).treesBuilt =
      tally (Entry.isEntered Call.isCloseRoot) (system.executor id).journal +
        (system.executor id).treeHeld.toNat := by
  refine hreach.tree_of_quiet (fun owner l point hmem => ?_) fun owner point hmem => ?_
  · by_cases hpoint : point = .start
    · rw [hpoint]
      rfl
    · rw [hreach.course_of_run hmem hpoint] at hended
      cases hended
  · have hweighs := weight_le_total (within id Frame.closing) (hreach.closing_of_closeRoot hmem)
    rw [(hreach.closed_of_ended hended).2] at hweighs
    simp [Frame.closing, ClosePoint.holdsClosing] at hweighs

/-- A run that has returned has closed the tree that was built for it. -/
theorem ReachableUnder.closeRoot_of_ended
    (hdisciplined : ((fragments[id]?).getD .vacant).script.Disciplined)
    (hreach : (ofFragments fragments host).ReachableUnder permitted system)
    (htrusted : tally Entry.isBreach (system.executor id).journal = 0)
    (hended : (system.executor id).course = .ended thread) :
    tally (Entry.isEntered Call.isCloseRoot) (system.executor id).journal =
      (system.executor id).treesBuilt := by
  have htree := hreach.tree_of_ended hended
  have hclosed := hreach.closed_of_ended hended
  have hheld : (system.executor id).treeHeld = false := by
    by_contra hheld
    rw [Bool.not_eq_false] at hheld
    have htaking := hreach.taking_of_held hdisciplined htrusted hheld hclosed.1
    have hnone : system.total (within id Frame.taking) = 0 := by
      refine hclosed.total_eq_zero fun owner frame hmem hweighs => ?_
      obtain ⟨hcore, hweight⟩ := within_pos id _ hweighs
      cases frame with
      | closeResources other point =>
        obtain rfl : other = id := by simpa [Frame.isCore] using hcore
        refine ⟨point, hmem, ?_⟩
        cases point <;> first | rfl | cases hweight
      | _ => cases hweight
    omega
  rw [hheld, Bool.toNat_false] at htree
  omega

/-! ### The order -/

theorem ReachableUnder.context_le
    (hdisciplined : ((fragments[id]?).getD .vacant).script.Disciplined)
    (hreach : (ofFragments fragments host).ReachableUnder (Command.SparesContext id) system) :
    tally (Entry.isEntered Call.isCloseContext) (system.executor id).journal +
      system.total (within id Frame.contextDue) ≤ 1 := by
  rw [hreach.context_total hdisciplined]
  exact Bool.toNat_le _

theorem ReachableUnder.closesInOrder
    (hdisciplined : ((fragments[id]?).getD .vacant).script.Disciplined)
    (hreach : (ofFragments fragments host).ReachableUnder (Command.SparesContext id) system) :
    ClosesInOrder (system.executor id).journal := by
  refine hreach.consistent id _ fun {system after thread frame rest next} hreach hadvance entry
    hwrites => ?_
  have htop : frame ∈ system.frames thread := hadvance.frames ▸ List.mem_cons_self
  refine ⟨fun index hentry => ?_, fun hentry => ?_, fun hentry => ?_, fun hreport => ?_⟩
  · cases hwrites with
    | entered =>
      obtain rfl := Entry.entered.inj hentry
      exact hreach.not_closed_of_next hdisciplined htop
    | _ => cases hentry
  · cases hwrites with
    | entered =>
      obtain rfl := Entry.entered.inj hentry
      constructor
      · refine hreach.calls_balanced fun owner call point hmem => ?_
        cases call with
        | next => exact absurd hmem (hreach.not_advancing_of_closeRoot hdisciplined htop)
        | _ => rfl
      · have hcontext := hreach.context_le hdisciplined
        have hweighs := weight_le_total (within id Frame.contextDue)
          (hreach.closing_of_closeRoot htop)
        simp [Frame.contextDue] at hweighs
        omega
    | _ => cases hentry
  · cases hwrites with
    | entered =>
      obtain rfl := Entry.entered.inj hentry
      have hcontext := hreach.closing_of_closeContext hdisciplined htop
      refine hreach.calls_balanced fun owner call point hmem => ?_
      cases call with
      | closeRoot =>
        -- the close of the tree would be inside a second close of the resources
        have hunique := hreach.closing_unique hcontext (hreach.closing_of_closeRoot hmem) rfl rfl
        cases hunique.2
      | _ => rfl
    | _ => cases hentry
  · cases hwrites with
    | entered =>
      obtain ⟨l, hrun⟩ := hreach.reporting_of_terminal htop hreport
      have hclosed := hreach.closed_of_past (List.mem_of_mem_tail hrun) rfl
      exact (hreach.context_of_closed hdisciplined hclosed).2
    | _ => cases hreport

end Order

variable {fragments : List Fragment} {host : Host} {system : System} {id : ExecutorId}

/-- Resources are closed exactly once, in order, before the report.  Only the tree calls
back, nobody else closes the context, and the trusted calls return.  Then a close of the
tree is in progress only inside the run, with no advance in progress anywhere; the calls
that end a fragment are entered in order; the tree is closed at most once and only if it
was built, the context at most once.  When the run has returned, a tree that was built has
been closed once, the close of the context is complete, and the run does not unwind. -/
theorem resources_closed_in_order
    (hdisciplined : ((fragments[id]?).getD .vacant).script.Disciplined)
    (hreach : (ofFragments fragments host).ReachableUnder (Command.SparesContext id) system)
    (htrusted : tally Entry.isBreach (system.executor id).journal = 0) :
    (∀ thread point, .call id .closeRoot point ∈ system.frames thread →
      (∃ l, .run id l .closing ∈ system.frames thread) ∧
        (system.executor id).course = .underWay thread ∧
        ∀ owner index point', .call id (.next index) point' ∉ system.frames owner) ∧
      ClosesInOrder (system.executor id).journal ∧
      tally (Entry.isEntered Call.isCloseRoot) (system.executor id).journal ≤
        (system.executor id).treesBuilt ∧
      (system.executor id).treesBuilt ≤ 1 ∧
      tally (Entry.isEntered Call.isCloseContext) (system.executor id).journal ≤ 1 ∧
      (∀ thread, (system.executor id).course = .ended thread →
        tally (Entry.isEntered Call.isCloseRoot) (system.executor id).journal =
            (system.executor id).treesBuilt ∧
          tally (Entry.isEntered Call.isCloseContext) (system.executor id).journal = 1 ∧
          tally (Entry.isLeft Call.isCloseContext) (system.executor id).journal = 1) ∧
      ∀ thread, (system.executor id).course ≠ .unwound thread := by
  refine ⟨?_, hreach.closesInOrder hdisciplined, hreach.closeRoot_le id, hreach.treesBuilt_le id,
    ?_, ?_, ?_⟩
  · intro thread point hmem
    obtain ⟨l, hrun⟩ := hreach.run_of_closing hdisciplined (hreach.closing_of_closeRoot hmem) rfl
    exact ⟨⟨l, hrun⟩, hreach.course_of_run hrun (by simp),
      fun owner index point' => hreach.not_advancing_of_closeRoot hdisciplined hmem⟩
  · have hcontext := hreach.context_le hdisciplined
    omega
  · intro thread hended
    have hclosed := hreach.closed_of_ended hended
    exact ⟨hreach.closeRoot_of_ended hdisciplined htrusted hended,
      hreach.context_of_closed hdisciplined hclosed⟩
  · intro thread hunwound
    have hbreach := hreach.breach_of_unwound hunwound
    omega

/-- A run is cancelled while it advances its tree: it closes the tree that it built, and the
context after it. -/
theorem resources_closed_in_order_of_cancelled_run :
    ∃ system, Fragment.vacant.script.Disciplined ∧
      (ofFragments [.vacant] { slots := { free := 0 } }).ReachableUnder
        (Command.SparesContext 0) system ∧
      tally Entry.isBreach (system.executor 0).journal = 0 ∧
      (system.executor 0).state = .cancelled ∧
      ClosesInOrder (system.executor 0).journal ∧
      (system.executor 0).treesBuilt = 1 ∧
      tally (Entry.isEntered Call.isNext) (system.executor 0).journal = 1 ∧
      tally (Entry.isEntered Call.isCloseRoot) (system.executor 0).journal = 1 ∧
      tally (Entry.isEntered Call.isCloseContext) (system.executor 0).journal = 1 := by
  have hdisciplined : Fragment.vacant.script.Disciplined := by
    constructor
    · intro call _ action hmem
      cases call <;> simp [Script.planOf, Fragment.vacant] at hmem
    · intro call action hmem
      cases call <;> simp [Script.planOf, Fragment.vacant] at hmem
  obtain ⟨system, hreach, hend⟩ := exists_reachable_of_moves (Command.SparesContext 0)
    (ofFragments [.vacant] { slots := { free := 0 } })
    (.call (.act 0 .run) :: List.replicate 21 (.step 0) ++ .call (.act 0 .cancel) ::
      List.replicate 10 (.step 1) ++ List.replicate 24 (.step 0))
    (by simp [Move.Permitted, Command.SparesContext])
    (fun system => ((system.executor 0).course, (system.executor 0).state,
      (system.executor 0).treesBuilt, tally Entry.isBreach (system.executor 0).journal,
      tally (Entry.isEntered Call.isNext) (system.executor 0).journal))
    (.ended 0, .cancelled, 1, 0, 1) rfl
  simp only [Prod.mk.injEq] at hend
  obtain ⟨hended, hstate, hbuilt, htrusted, hadvanced⟩ := hend
  obtain ⟨-, horder, -, -, -, hcounts, -⟩ :=
    @resources_closed_in_order [.vacant] _ _ 0 hdisciplined hreach htrusted
  obtain ⟨hroot, hcontext, -⟩ := hcounts 0 hended
  exact ⟨system, hdisciplined, hreach, htrusted, hstate, horder, hbuilt, hadvanced,
    hroot.trans hbuilt, hcontext⟩

end System

end FragmentLifecycle
