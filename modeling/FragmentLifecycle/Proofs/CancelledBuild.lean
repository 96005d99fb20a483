import FragmentLifecycle.Proofs.Cancellation
import FragmentLifecycle.Proofs.CloseOrder
import FragmentLifecycle.Proofs.Outcome

/-!
# A builder that cancels its fragment

The setup lock lets the thread of the builder through, so a builder may cancel the
fragment that it builds a tree for.  No tree is stored then, so the cancellation closes
the resources without one.  A tree that the builder returns after that is stored, and
nobody is left to close it; the run asks to go on as if nothing had happened, is refused,
and reports a failure (`System.tree_leaked_iff_builder_cancels`).
-/

namespace FragmentLifecycle

/-- The points of a run with a tree that has not asked for the running state. -/
def RunPoint.isStoring : RunPoint → Bool
  | .keepTree | .watch | .announce => true
  | _ => false

/-- Weighs the runs that are still to ask for the finished state. -/
def Frame.finishDue : Frame → Nat
  | .run _ _ .start => 0
  | .run _ _ point => (!point.isSettled).toNat
  | _ => 0

/-- A request for a state that a fragment without a failure ends in. -/
def Entry.isFinishRequest : Entry → Bool
  | .requested _ .finished | .requested _ .cancelled => true
  | _ => false

/-- As `Script.Disciplined`, but for a builder that may cancel the fragment. -/
structure Script.DisciplinedElsewhere (script : Script) : Prop where
  passive : ∀ call, call.isNext = false → ∀ action ∈ (script.planOf call).actions,
    action.isPassive = true ∨ (call = .build ∧ action = .cancel)
  context : ∀ call, ∀ action ∈ (script.planOf call).actions, action ≠ .closeContext

theorem Script.DisciplinedElsewhere.disciplined {script : Script}
    (helsewhere : script.DisciplinedElsewhere) (hspares : .cancel ∉ script.build.actions) :
    script.Disciplined := by
  refine ⟨fun call hcall action hmem => ?_, helsewhere.context⟩
  rcases helsewhere.passive call hcall action hmem with hpassive | ⟨rfl, rfl⟩
  · exact hpassive
  · exact absurd hmem hspares

theorem State.eq_of_apply_decide {state : State} (target : State)
    (hend : (state.decide target).apply state = .finished ∨
      (state.decide target).apply state = .cancelled) :
    (state = .finished ∨ state = .cancelled) ∨ target = .finished ∨ target = .cancelled := by
  revert hend
  cases state <;> cases target <;> decide

/-- Nothing but a request to finish ends a fragment without a failure. -/
theorem replay_of_no_finish {journal : List Record}
    (hnone : tally Entry.isFinishRequest journal = 0) :
    ¬ (replay journal = .finished ∨ replay journal = .cancelled) := by
  induction journal using List.reverseRecOn with
  | nil => simp [replay]
  | append_singleton journal record ih =>
    obtain ⟨thread, entry⟩ := record
    rw [tally_append] at hnone
    have hbefore := ih (by omega)
    rw [replay_append]
    cases entry with
    | requested current target =>
      intro hend
      rcases State.eq_of_apply_decide target hend with hold | rfl | rfl
      · exact hbefore hold
      · simp [Entry.isFinishRequest] at hnone
      · simp [Entry.isFinishRequest] at hnone
    | _ => exact hbefore

theorem Call.exists_fail_of_reported {call : Call} {state : State}
    (hreported : call.reported? = some state) (hend : ¬ (state = .finished ∨ state = .cancelled)) :
    ∃ report, call = .fail report := by
  cases call with
  | fail report => exact ⟨report, rfl⟩
  | stateChanged told =>
    cases told with
    | finished =>
      obtain rfl := Option.some.inj hreported
      exact absurd (.inl rfl) hend
    | cancelled =>
      obtain rfl := Option.some.inj hreported
      exact absurd (.inr rfl) hend
    | _ => cases hreported
  | _ => cases hreported

section Transitions

variable {view : LockView} {thread : ThreadId} {id : ExecutorId} {frame : Frame}
  {signal : Signal} {executor executor' : Executor} {next : Next}

/-- A tree that is stored was returned by the builder. -/
theorem Transition.storing_pushed
    (htransition : Transition view thread id frame signal executor next executor')
    (hcore : frame.isCore id = true) {l : Option ListenerId} {point : RunPoint}
    (hpushed : .run id l point ∈ next.frames) (hpoint : point.isStoring = true) :
    (∃ l' point', frame = .run id l' point' ∧ point'.isStoring = true) ∨
      (frame = .run id l .building ∧ signal.isTree = true) := by
  cases htransition
  case aside houtside _ _ => simp [houtside] at hcore
  all_goals simp at hpushed
  all_goals try obtain ⟨rfl, rfl⟩ := hpushed
  all_goals try cases hpoint
  case buildReturns htree => exact .inr ⟨rfl, Signal.isTree_of_ne_failed htree⟩
  all_goals exact .inl ⟨_, _, rfl, rfl⟩

/-- Requests to finish that were made and runs that are to make one never become more,
but where a run begins. -/
theorem Transition.finish_le
    (htransition : Transition view thread id frame signal executor next executor')
    (hcore : frame.isCore id = true) :
    tally Entry.isFinishRequest executor'.journal + executor'.course.fresh +
      (next.frames.map (within id Frame.finishDue)).sum ≤
        tally Entry.isFinishRequest executor.journal + executor.course.fresh +
          frame.finishDue := by
  cases htransition
  case aside houtside _ _ => simp [houtside] at hcore
  case runBegins hnew => simp [hnew, Frame.finishDue, Course.fresh, RunPoint.isSettled]
  case callProceeds hsame hjournal =>
    rw [hjournal, hsame.course]
    simp [Frame.finishDue]
  all_goals simp [Frame.finishDue, Entry.isFinishRequest, RunPoint.isSettled]
  all_goals
    simp only [Course.fresh]
    omega

theorem Transition.finishRequest_cases
    (htransition : Transition view thread id frame signal executor next executor') :
    tally Entry.isFinishRequest executor'.journal =
        tally Entry.isFinishRequest executor.journal ∨ ∃ l, frame = .run id l .finish := by
  rcases htransition.journal_cases with hsame | ⟨entry, hwrites, hlonger⟩
  · exact .inl (congrArg _ hsame)
  · rw [hlonger, tally_append]
    cases hwrites with
    | finished => exact .inr ⟨_, rfl⟩
    | _ => exact .inl rfl

end Transitions

namespace System

section Built

variable {fragments : List Fragment} {host : Host} {permitted : Command → Prop}
  {system after : System} {id : ExecutorId} {thread : ThreadId} {frame : Frame}
  {rest : List Frame} {next : Next}

/-- A tree is built where the builder returns, and it is the first one. -/
theorem Advance.build_of_built
    (hreach : (ofFragments fragments host).ReachableUnder permitted system)
    (hadvance : system.Advance after thread frame rest next)
    (hbuilt : 0 < (after.executor id).treesBuilt) :
    0 < (system.executor id).treesBuilt ∨
      ((system.executor id).treesBuilt = 0 ∧
        ∃ point reply, frame = .call id .build point ∧ next.signal = .replied reply) := by
  have hlaw := hadvance.treesBuilt_eq hreach id
  rcases Nat.eq_zero_or_pos (system.executor id).treesBuilt with hnone | hbefore
  · right
    rw [hlaw, hnone, Nat.zero_add] at hbuilt
    have hboth : (frame.isBuild id && next.signal.isTree) = true := by
      by_contra hneither
      rw [Bool.not_eq_true] at hneither
      rw [hneither] at hbuilt
      cases hbuilt
    obtain ⟨hbuild, htree⟩ := Bool.and_eq_true_iff.mp hboth
    obtain ⟨point, rfl⟩ := Frame.eq_call_of_isBuild hbuild
    cases hsignal : next.signal with
    | replied reply => exact ⟨hnone, point, reply, rfl, rfl⟩
    | _ => simp [hsignal, Signal.isTree] at htree
  · exact .inl hbefore

/-- A builder that cancels and returns a tree all the same leaves a fragment that has
stopped, with its resources closed and no close of the tree. -/
structure TreeLeaked (system : System) (id : ExecutorId) : Prop where
  closed : system.IsClosed id
  stopped : (system.executor id).state.continues = false
  unclosed : tally (Entry.isEntered Call.isCloseRoot) (system.executor id).journal = 0

namespace TreeLeaked

theorem turnover {root : Frame} (hleaked : system.TreeLeaked id)
    (hturn : system.Turnover after thread root) : after.TreeLeaked id := by
  refine ⟨hleaked.closed.turnover hturn, ?_, ?_⟩ <;> rw [hturn.executor_eq]
  · exact hleaked.stopped
  · exact hleaked.unclosed

theorem advance (hreach : (ofFragments fragments host).ReachableUnder permitted system)
    (hleaked : system.TreeLeaked id)
    (hadvance : system.Advance after thread frame rest next) : after.TreeLeaked id := by
  have htransition := Frame.step_transition id hadvance.step
  refine ⟨hleaked.closed.advance hadvance, htransition.grows.stopped hleaked.stopped, ?_⟩
  rcases htransition.closeRoot_cases with hsame | rfl
  · exact hsame.trans hleaked.unclosed
  · -- the close of the resources that the call is made for has come to its end
    have hcloser := hreach.closing_of_closeRoot (hadvance.frames ▸ List.mem_cons_self)
    have hclosing := weight_le_total (within id Frame.closing) hcloser
    rw [hleaked.closed.2] at hclosing
    simp [Frame.closing, ClosePoint.holdsClosing] at hclosing

end TreeLeaked

theorem ReachableUnder.finish_le
    (hreach : (ofFragments fragments host).ReachableUnder permitted system) (id : ExecutorId) :
    tally Entry.isFinishRequest (system.executor id).journal +
      (system.executor id).course.fresh + system.total (within id Frame.finishDue) ≤ 1 := by
  refine hreach.once id _ Frame.finishDue (fun _ => rfl) ?_ fun htransition hcore =>
    htransition.finish_le hcore
  rintro frame ⟨⟩ <;> rfl

/-- A run that stores a tree has got it from the builder. -/
theorem ReachableUnder.built_of_storing
    (hreach : (ofFragments fragments host).ReachableUnder permitted system)
    {l : Option ListenerId} {point : RunPoint} (hmem : .run id l point ∈ system.frames thread)
    (hpoint : point.isStoring = true) : 0 < (system.executor id).treesBuilt := by
  refine hreach.pervades id (fun system _ frame => ∀ l point, frame = .run id l point →
    point.isStoring = true → 0 < (system.executor id).treesBuilt) ?_ ?_ ?_ ?_ hmem
    (by simp [Frame.isCore]) l point rfl hpoint
  · rintro system thread _ ⟨⟩ l point ⟨⟩ ⟨⟩
  · intro system after thread root hturn owner frame hholds
    rw [hturn.executor_eq]
    exact hholds
  · rintro system after thread frame rest next hreach hadvance htransition hcore hframe _ hpushed -
      l point rfl hpoint
    refine Nat.lt_of_lt_of_le ?_ (hadvance.treesBuilt_le id)
    rcases htransition.storing_pushed hcore hpushed hpoint with
      ⟨l', point', rfl, hstoring⟩ | ⟨rfl, htree⟩
    · exact hframe l' point' rfl hstoring
    · have htotal := hreach.tree_total id
      have hpending := weight_le_weigh system thread (pendingTree id) rfl
      rw [hadvance.frames, pendingTree, htree] at hpending
      simp [Frame.awaitsTree] at hpending
      omega
  · intro system after thread frame rest next hreach hadvance _ owner other _ _ hother l point
      hframe hpoint
    exact Nat.lt_of_lt_of_le (hother l point hframe hpoint) (hadvance.treesBuilt_le id)

section Leak

variable (hcancels : .cancel ∈ ((fragments[id]?).getD .vacant).script.build.actions)

include hcancels

/-- The tree of a builder that has cancelled is leaked from its return. -/
theorem Advance.treeLeaked
    (hreach : (ofFragments fragments host).ReachableUnder permitted system)
    {point : CallPoint} {reply : Reply}
    (hadvance : system.Advance after thread (.call id .build point) rest next)
    (hnone : (system.executor id).treesBuilt = 0) (hsignal : next.signal = .replied reply) :
    after.TreeLeaked id := by
  have htransition := Frame.step_transition id hadvance.step
  have hplayed := htransition.remaining_of_replied hsignal
    ((fragments[id]?).getD .vacant).script.build
  have htop : .call id .build point ∈ system.frames thread :=
    hadvance.frames ▸ List.mem_cons_self
  have hcancelled : system.IsCancelled id := by
    rcases hreach.remaining_or_cancelled htop hcancels with hstill | hcancelled
    · rw [Script.planOf, hplayed] at hstill
      cases hstill
    · exact hcancelled
  obtain ⟨hclosed | hbuilt, hstopped⟩ := hcancelled
  · refine ⟨hclosed.advance hadvance, htransition.grows.stopped hstopped, ?_⟩
    have hbefore := hreach.closeRoot_le id
    rcases htransition.closeRoot_cases with hsame | hroot
    · rw [System.executor, hsame]
      simp only [System.executor] at hbefore hnone
      omega
    · cases hroot
  · omega

theorem ReachableUnder.treeLeaked_of_built
    (hreach : (ofFragments fragments host).ReachableUnder permitted system)
    (hbuilt : 0 < (system.executor id).treesBuilt) : system.TreeLeaked id := by
  refine hreach.invariant (fun system => 0 < (system.executor id).treesBuilt →
    system.TreeLeaked id) ?_ ?_ ?_ hbuilt
  · intro hbuilt
    cases hbuilt
  · intro system after thread root hturn hholds hbuilt
    rw [hturn.executor_eq] at hbuilt
    exact (hholds hbuilt).turnover hturn
  · intro system after thread frame rest next hreach hadvance hholds hbuilt
    rcases hadvance.build_of_built hreach hbuilt with hbefore | ⟨hnone, point, reply, rfl, hsignal⟩
    · exact (hholds hbefore).advance hreach hadvance
    · exact hadvance.treeLeaked hcancels hreach hnone hsignal

/-- A run with such a tree never gets to a running fragment. -/
theorem ReachableUnder.not_built_of_running
    (hreach : (ofFragments fragments host).ReachableUnder permitted system)
    {l : Option ListenerId} {point : RunPoint} (hmem : .run id l point ∈ system.frames thread)
    (hpoint : point.isRunning = true) : (system.executor id).treesBuilt = 0 := by
  refine hreach.everywhere id (fun executor _ frame => ∀ l point, frame = .run id l point →
    point.isRunning = true → executor.treesBuilt = 0) ?_ ?_ ?_ hmem (by simp [Frame.isCore]) l
    point rfl hpoint
  · rintro executor thread _ ⟨⟩ l point ⟨⟩ ⟨⟩
  · rintro system after thread frame rest next hreach hadvance htransition hcore hframe _ hpushed -
      l point rfl hpoint
    by_contra hbuilt
    rcases hadvance.build_of_built hreach (Nat.pos_of_ne_zero hbuilt) with
      hbefore | ⟨-, point', reply, rfl, hsignal⟩
    · rcases htransition.running_pushed hcore hpushed hpoint with
        ⟨point', rfl, hrunning⟩ | ⟨rfl, -⟩ | ⟨rfl, hcontinues, -⟩
      · rw [hframe l point' rfl hrunning] at hbefore
        cases hbefore
      · -- the builder is still to be called
        have hbuild := hreach.build_le id
        have htrees := tally_isTree_le (system.executor id).fragment.script
          (system.executor id).journal
        have hdue := weight_le_total (within id Frame.buildDue)
          (hadvance.frames ▸ List.mem_cons_self)
        rw [Executor.treesBuilt] at hbefore
        simp [Frame.buildDue] at hdue
        omega
      · rw [(hreach.treeLeaked_of_built hcancels hbefore).stopped] at hcontinues
        cases hcontinues
    · have hgone : next.frames = [] := Next.frames_of_signal (by simp [hsignal])
      simp [hgone] at hpushed
  · rintro system after thread frame rest next hreach hadvance htransition owner other hbeside -
      hother l point rfl hpoint
    by_contra hbuilt
    rcases hadvance.build_of_built hreach (Nat.pos_of_ne_zero hbuilt) with
      hbefore | ⟨-, point', reply, rfl, hsignal⟩
    · rw [hother l point rfl hpoint] at hbefore
      cases hbefore
    · obtain ⟨l', hbuilding⟩ := hreach.building_of_build (hadvance.frames ▸ List.mem_cons_self)
      obtain ⟨-, -, rfl⟩ := hreach.live_unique (hadvance.mem_of_beside hbeside)
        (by rintro rfl; cases hpoint) hbuilding (by simp)
      cases hpoint

/-- A run with such a tree never asks to finish. -/
theorem ReachableUnder.no_finish_of_built
    (hreach : (ofFragments fragments host).ReachableUnder permitted system)
    (hbuilt : 0 < (system.executor id).treesBuilt) :
    tally Entry.isFinishRequest (system.executor id).journal = 0 := by
  refine hreach.invariant (fun system => 0 < (system.executor id).treesBuilt →
    tally Entry.isFinishRequest (system.executor id).journal = 0) ?_ ?_ ?_ hbuilt
  · intro _
    rfl
  · intro system after thread root hturn hholds
    rw [hturn.executor_eq]
    exact hholds
  · intro system after thread frame rest next hreach hadvance hholds hbuilt
    have htop := hadvance.frames ▸ List.mem_cons_self
    have hbefore : tally Entry.isFinishRequest (system.executor id).journal = 0 := by
      rcases hadvance.build_of_built hreach hbuilt with hold | ⟨-, point, reply, rfl, -⟩
      · exact hholds hold
      · obtain ⟨l, hbuilding⟩ := hreach.building_of_build htop
        have hle := hreach.finish_le id
        have hdue := weight_le_total (within id Frame.finishDue) hbuilding
        simp [Frame.finishDue, RunPoint.isSettled] at hdue
        omega
    rcases (Frame.step_transition id hadvance.step).finishRequest_cases with hsame | ⟨l, rfl⟩
    · exact hsame.trans hbefore
    · have hnone := hreach.not_built_of_running hcancels htop rfl
      rcases hadvance.build_of_built hreach hbuilt with hold | ⟨-, point, reply, hbuild, -⟩
      · omega
      · cases hbuild

/-- What such a run asks for to go on is refused. -/
theorem ReachableUnder.running_refused
    (hreach : (ofFragments fragments host).ReachableUnder permitted system) :
    Consistent (fun _ record => ∀ current, record.entry = .requested current .running →
      current.decide .running = .invalid) (system.executor id).journal := by
  refine hreach.consistent id _ fun {system after thread frame rest next} hreach hadvance entry
    hwrites current hentry => ?_
  cases hwrites with
  | running =>
    have hbuilt := hreach.built_of_storing (hadvance.frames ▸ List.mem_cons_self) rfl
    have hstopped := (hreach.treeLeaked_of_built hcancels hbuilt).stopped
    obtain ⟨rfl, -⟩ := Entry.requested.inj hentry
    rw [State.decide_running, if_neg]
    intro hstate
    rw [hstate] at hstopped
    cases hstopped
  | _ => cases hentry

/-- Every terminal report of such a run is of a failure. -/
theorem ReachableUnder.failed_of_report
    (hreach : (ofFragments fragments host).ReachableUnder permitted system)
    (hbuilt : 0 < (system.executor id).treesBuilt) :
    ∀ record ∈ (system.executor id).terminalReports,
      ∃ report, record.entry = .entered (.fail report) := by
  intro record hmem
  obtain ⟨hjournal, hreport⟩ := List.mem_filter.mp hmem
  obtain ⟨thread, entry⟩ := record
  cases entry with
  | entered call =>
    obtain ⟨seen, after, hsplit⟩ := List.append_of_mem hjournal
    obtain ⟨before, state, gap, -, hread, hreported, hstate, -⟩ :=
      hreach.conclusion_of_report hsplit hreport
    have hnone := hreach.no_finish_of_built hcancels hbuilt
    have hprior := tally_mono Entry.isFinishRequest before (hread ▸ List.prefix_append _ _)
    have hend := replay_of_no_finish (Nat.le_zero.mp (hnone ▸ hprior))
    rw [← hstate] at hend
    obtain ⟨report, rfl⟩ := Call.exists_fail_of_reported hreported hend
    exact ⟨report, rfl⟩
  | _ => cases hreport

end Leak

end Built

variable {fragments : List Fragment} {host : Host} {system : System}

/-- The tree of a builder that cancels its fragment is leaked.  The close of the resources
is over when the builder returns, so the tree is stored and never closed, whatever happens
later and however often the fragment is cancelled; the run is refused when it asks to go
on, and what is reported is a failure.  Where no other collaborator but the tree calls
back and the trusted calls return, this is the only way to leak a tree. -/
theorem tree_leaked_iff_builder_cancels (hreach : (ofFragments fragments host).Reachable system)
    (id : ExecutorId) (hbuilt : 0 < (system.executor id).treesBuilt) :
    (.cancel ∈ (system.executor id).fragment.script.build.actions →
      tally (Entry.isEntered Call.isCloseRoot) (system.executor id).journal = 0 ∧
        system.IsClosed id ∧
        (∀ record ∈ (system.executor id).journal, ∀ current,
          record.entry = .requested current .running → current.decide .running = .invalid) ∧
        (∀ record ∈ (system.executor id).terminalReports,
          ∃ report, record.entry = .entered (.fail report)) ∧
        ∀ thread, (system.executor id).course = .ended thread →
          (system.executor id).treeHeld = true ∧
            (system.executor id).terminalReports.length = 1) ∧
      ((system.executor id).fragment.script.DisciplinedElsewhere →
        tally Entry.isBreach (system.executor id).journal = 0 →
        ∀ thread, (system.executor id).course = .ended thread →
          (tally (Entry.isEntered Call.isCloseRoot) (system.executor id).journal = 0 ↔
            .cancel ∈ (system.executor id).fragment.script.build.actions)) := by
  have hunder := hreach.unrestricted
  rw [hunder.fragment_eq id]
  constructor
  · intro hcancels
    have hleaked := hunder.treeLeaked_of_built hcancels hbuilt
    refine ⟨hleaked.unclosed, hleaked.closed, ?_, hunder.failed_of_report hcancels hbuilt, ?_⟩
    · intro record hmem
      obtain ⟨before, after, hsplit⟩ := List.append_of_mem hmem
      exact hunder.running_refused hcancels before record after hsplit
    · intro thread hended
      have htree := hunder.tree_of_ended hended
      rw [hleaked.unclosed, Nat.zero_add] at htree
      rw [Executor.length_terminalReports]
      refine ⟨?_, hunder.report_of_ended hended⟩
      by_contra hnone
      rw [Bool.not_eq_true] at hnone
      rw [hnone] at htree
      rw [htree] at hbuilt
      cases hbuilt
  · intro helsewhere htrusted thread hended
    constructor
    · intro hunclosed
      by_contra hspares
      have hdisciplined := helsewhere.disciplined hspares
      have hclosed := hunder.closeRoot_of_ended hdisciplined htrusted hended
      omega
    · intro hcancels
      exact (hunder.treeLeaked_of_built hcancels hbuilt).unclosed

/-- A builder that cancels, on a run that nothing else disturbs. -/
theorem tree_leaked_iff_builder_cancels_of_lone_run :
    ∃ system,
      (ofFragments [{ Fragment.vacant with script := { build := { actions := [.cancel] } } }]
        { slots := { free := 0 } }).Reachable system ∧
      0 < (system.executor 0).treesBuilt ∧
      (system.executor 0).fragment.script.DisciplinedElsewhere ∧
      tally Entry.isBreach (system.executor 0).journal = 0 ∧
      (system.executor 0).course = .ended 0 ∧
      tally (Entry.isEntered Call.isCloseRoot) (system.executor 0).journal = 0 ∧
      ∀ record ∈ (system.executor 0).terminalReports,
        ∃ report, record.entry = .entered (.fail report) := by
  obtain ⟨system, hreach, hend⟩ := exists_reachable_of_moves (fun _ => True)
    (ofFragments [{ Fragment.vacant with script := { build := { actions := [.cancel] } } }]
      { slots := { free := 0 } })
    (.call (.act 0 .run) :: List.replicate 47 (.step 0))
    (fun move _ => by cases move <;> trivial)
    (fun system => ((system.executor 0).course, (system.executor 0).treesBuilt,
      tally Entry.isBreach (system.executor 0).journal, (system.executor 0).fragment.script))
    (.ended 0, 1, 0, { build := { actions := [.cancel] } }) rfl
  simp only [Prod.mk.injEq] at hend
  obtain ⟨hended, hbuilt, htrusted, hscript⟩ := hend
  have hpositive : 0 < (system.executor 0).treesBuilt := by omega
  have hcancels : .cancel ∈ (system.executor 0).fragment.script.build.actions := by
    simp [hscript]
  have helsewhere : (system.executor 0).fragment.script.DisciplinedElsewhere := by
    rw [hscript]
    constructor
    · intro call _ action hmem
      cases call <;> simp_all [Script.planOf]
    · intro call action hmem
      cases call <;> simp_all [Script.planOf]
  obtain ⟨hleaked, hexact⟩ := tree_leaked_iff_builder_cancels hreach.reachable 0 hpositive
  have hunclosed := (hexact helsewhere htrusted 0 hended).mpr hcancels
  exact ⟨system, hreach.reachable, hpositive, helsewhere, htrusted, hended, hunclosed,
    (hleaked hcancels).2.2.2.1⟩

end System

end FragmentLifecycle
