import FragmentLifecycle.Proofs.Setup

/-!
# Closing in order

The run and a cancellation may both come to close the resources.  Whoever is first closes
them all, the tree before the context, and the run reports only when that is done.
-/

namespace FragmentLifecycle

def Call.isCloseContext : Call → Bool
  | .closeContext => true
  | _ => false

/-- Weighs the cancellations that may have closed the resources and have yet to ask for
their state. -/
def Frame.cancelling : Frame → Nat
  | .cancel _ .closing | .cancel _ .request => 1
  | _ => 0

/-- Weighs the closes that are yet to look for a tree. -/
def Frame.taking : Frame → Nat
  | .closeResources _ .takeTree => 1
  | _ => 0

/-- Weighs the frames that the close of the context is yet to be entered from. -/
def Frame.contextDue : Frame → Nat
  | .closeResources _ .takeTree | .closeResources _ .closingRoot
  | .closeResources _ .recording => 1
  | .call _ .closeContext .enter => 1
  | _ => 0

/-- The points of a run from its call of the builder until a tree is stored. -/
def RunPoint.isBuilding : RunPoint → Bool
  | .building | .keepTree => true
  | _ => false

/-- The points of a run at which it drives a tree. -/
def RunPoint.isDriving : RunPoint → Bool
  | .check _ | .advancing _ => true
  | _ => false

theorem Frame.inside_of_cancelling {id : ExecutorId} {frame : Frame}
    (hweighs : 0 < within id Frame.cancelling frame) :
    ∃ point, frame = .cancel id point ∧ point.holdsSetup = true := by
  obtain ⟨hcore, hweight⟩ := within_pos id _ hweighs
  cases frame with
  | cancel owner point =>
    obtain rfl : owner = id := by simpa [Frame.isCore] using hcore
    refine ⟨point, rfl, ?_⟩
    cases point <;> first | rfl | cases hweight
  | _ => cases hweight

section Transitions

variable {view : LockView} {thread : ThreadId} {id : ExecutorId} {frame : Frame}
  {signal : Signal} {executor executor' : Executor} {next : Next}

theorem Transition.closed_cases
    (htransition : Transition view thread id frame signal executor next executor')
    (hclosed : executor'.resourcesClosed = true) :
    executor.resourcesClosed = true ∨ frame = .closeResources id .lockClosing := by
  cases htransition
  case aside hsame => exact .inl (hsame.resourcesClosed ▸ hclosed)
  case callProceeds hsame _ => exact .inl (hsame.resourcesClosed ▸ hclosed)
  case closeBegins => exact .inr rfl
  all_goals exact .inl hclosed

/-- A cancellation that closed the resources goes on until the fragment has stopped. -/
theorem Transition.le_cancelling
    (htransition : Transition view thread id frame signal executor next executor')
    (hcore : frame.isCore id = true) :
    frame.cancelling ≤ (next.frames.map (within id Frame.cancelling)).sum ∨
      executor'.state.continues = false ∨
      (frame = .cancel id .closing ∧ ∃ payload, signal = .raised payload) := by
  cases htransition
  case aside houtside _ _ => simp [houtside] at hcore
  case cancelCloseUnwinds => exact .inr (.inr ⟨rfl, _, rfl⟩)
  case cancelAccepted hstate =>
    refine .inr (.inl ?_)
    rw [Executor.state_request, State.decide_cancellationRequested, if_pos hstate]
    rfl
  case cancelIgnored hstate => exact .inr (.inl (State.continues_apply_decide _ hstate))
  all_goals exact .inl (by simp [Frame.cancelling])

/-- Closed resources and a tree go together only while a close is yet to look for it. -/
theorem Transition.le_taking
    (htransition : Transition view thread id frame signal executor next executor')
    (hcore : frame.isCore id = true) (hheld : executor'.treeHeld = true)
    (hclosed : executor'.resourcesClosed = true) :
    0 < (next.frames.map (within id Frame.taking)).sum ∨
      (frame.taking = 0 ∧ executor.resourcesClosed = true) := by
  cases htransition
  case aside houtside _ _ => simp [houtside] at hcore
  case closeBegins => exact .inl (by simp [Frame.taking])
  case treeTaken => cases hheld
  case treeAbsent hnone => simp [hnone] at hheld
  case callProceeds hsame _ => exact .inr ⟨rfl, hsame.resourcesClosed ▸ hclosed⟩
  all_goals exact .inr ⟨rfl, hclosed⟩

/-- Whoever closes the resources goes on to close the context. -/
theorem Transition.context_balance
    (htransition : Transition view thread id frame signal executor next executor')
    (hcore : frame.isCore id = true) :
    tally (Entry.isEntered Call.isCloseContext) executor'.journal +
        (next.frames.map (within id Frame.contextDue)).sum + executor.resourcesClosed.toNat =
      tally (Entry.isEntered Call.isCloseContext) executor.journal + frame.contextDue +
        executor'.resourcesClosed.toNat := by
  cases htransition
  case aside houtside _ _ => simp [houtside] at hcore
  case callProceeds hpoints hsame hjournal =>
    rw [hjournal, hsame.resourcesClosed]
    cases hpoints <;> simp [Frame.contextDue]
  case closeBegins hclosed => simp [Frame.contextDue, hclosed]
  case callEntered call hcall =>
    cases call with
    | closeContext => exact absurd rfl hcall
    | _ => simp [Frame.contextDue, Entry.isEntered, Call.isCloseContext]
  all_goals simp [Frame.contextDue, Entry.isEntered, Call.isCloseContext]

theorem Transition.building_pushed
    (htransition : Transition view thread id frame signal executor next executor')
    (hcore : frame.isCore id = true) {l : Option ListenerId} {point : RunPoint}
    (hpushed : .run id l point ∈ next.frames) (hpoint : point.isBuilding = true) :
    executor' = executor ∧
      ((frame = .run id l .inspect ∧ executor.state.continues = true) ∨
        frame = .run id l .building) := by
  cases htransition
  case aside houtside _ _ => simp [houtside] at hcore
  all_goals simp at hpushed
  all_goals try obtain ⟨rfl, rfl⟩ := hpushed
  all_goals try cases hpoint
  case buildBegins hstate => exact ⟨rfl, .inl ⟨rfl, hstate⟩⟩
  case buildReturns => exact ⟨rfl, .inr rfl⟩

theorem Transition.driving_pushed
    (htransition : Transition view thread id frame signal executor next executor')
    (hcore : frame.isCore id = true) {l : Option ListenerId} {point : RunPoint}
    (hpushed : .run id l point ∈ next.frames) (hpoint : point.isDriving = true) :
    executor'.treeHeld = executor.treeHeld ∧
      (executor.treeHeld = true ∨
        ∃ point', frame = .run id l point' ∧ point'.isDriving = true) := by
  cases htransition
  case aside houtside _ _ => simp [houtside] at hcore
  all_goals simp at hpushed
  all_goals try obtain ⟨rfl, rfl⟩ := hpushed
  all_goals try cases hpoint
  case treeFetched hheld => exact ⟨rfl, .inl hheld⟩
  all_goals exact ⟨rfl, .inr ⟨_, rfl, rfl⟩⟩

theorem Transition.treeHeld_of_held
    (htransition : Transition view thread id frame signal executor next executor')
    (hheld : executor.treeHeld = true) :
    executor'.treeHeld = true ∨ frame = .closeResources id .takeTree := by
  cases htransition
  case aside hsame => exact .inl (hsame.treeHeld.trans hheld)
  case callProceeds hsame _ => exact .inl (hsame.treeHeld.trans hheld)
  case treeTaken => exact .inr rfl
  case treeKept => exact .inl rfl
  all_goals exact .inl hheld

/-- The close of the tree is entered by the call that does it. -/
theorem Transition.closeRoot_cases
    (htransition : Transition view thread id frame signal executor next executor') :
    tally (Entry.isEntered Call.isCloseRoot) executor'.journal =
        tally (Entry.isEntered Call.isCloseRoot) executor.journal ∨
      frame = .call id .closeRoot .enter := by
  rcases htransition.journal_cases with hsame | ⟨entry, hwrites, hlonger⟩
  · exact .inl (congrArg _ hsame)
  · rw [hlonger, tally_append]
    cases hwrites with
    | @entered call =>
      cases call with
      | closeRoot => exact .inr rfl
      | _ => exact .inl rfl
    | _ => exact .inl rfl

end Transitions

namespace System

section Resources

variable {fragments : List Fragment} {host : Host} {permitted : Command → Prop}
  {system after : System} {id : ExecutorId} {thread : ThreadId} {frame : Frame}
  {rest : List Frame} {next : Next}

/-! ### Who calls -/

/-- The builder is called by the run that it builds for. -/
theorem ReachableUnder.building_of_build
    (hreach : (ofFragments fragments host).ReachableUnder permitted system) {point : CallPoint}
    (hmem : .call id .build point ∈ system.frames thread) :
    ∃ l, .run id l .building ∈ system.frames thread := by
  obtain ⟨caller, hcaller, hawaits⟩ := (hreach.linked thread).exists_caller hmem rfl
  simp only [Frame.role] at hawaits
  cases hawaits with
  | build => exact ⟨_, List.mem_of_mem_tail hcaller⟩
  | entry hentry => cases (Action.entry?_eq_call hentry).2.2

theorem ReachableUnder.advancing_of_next
    (hreach : (ofFragments fragments host).ReachableUnder permitted system) {index : Nat}
    {point : CallPoint} (hmem : .call id (.next index) point ∈ system.frames thread) :
    ∃ l previous, .run id l (.advancing previous) ∈ system.frames thread := by
  obtain ⟨caller, hcaller, hawaits⟩ := (hreach.linked thread).exists_caller hmem rfl
  simp only [Frame.role] at hawaits
  cases hawaits with
  | next => exact ⟨_, _, List.mem_of_mem_tail hcaller⟩
  | entry hentry => cases (Action.entry?_eq_call hentry).2.2

theorem ReachableUnder.closing_of_closeRoot
    (hreach : (ofFragments fragments host).ReachableUnder permitted system) {point : CallPoint}
    (hmem : .call id .closeRoot point ∈ system.frames thread) :
    .closeResources id .closingRoot ∈ system.frames thread := by
  obtain ⟨caller, hcaller, hawaits⟩ := (hreach.linked thread).exists_caller hmem rfl
  simp only [Frame.role] at hawaits
  cases hawaits with
  | closeRoot => exact List.mem_of_mem_tail hcaller
  | entry hentry => cases (Action.entry?_eq_call hentry).2.2

/-- Nobody closes the context directly. -/
theorem ReachableUnder.not_closing_directly
    (hdisciplined : ((fragments[id]?).getD .vacant).script.Disciplined)
    (hreach : (ofFragments fragments host).ReachableUnder (Command.SparesContext id) system)
    (point : PerformPoint) : .perform id .closeContext point ∉ system.frames thread := by
  intro hmem
  rcases (hreach.linked thread).last_or_awaited hmem with hlast | ⟨caller, hcaller, hawaits⟩
  · refine hreach.outermost (fun role => role ≠ .perform id .closeContext) ?_ ?_ thread hlast rfl
    · intro command hspares hrole
      cases command with
      | act owner action =>
        obtain ⟨rfl, rfl⟩ : owner = id ∧ action = .closeContext := by
          simpa [Command.frame, Frame.role] using hrole
        exact hspares rfl
      | _ => cases hrole
    · intro owner handle hrole
      cases hrole
  · simp only [Frame.role] at hawaits
    cases hawaits with
    | action =>
      exact hdisciplined.context _ _ (hreach.mem_plan (List.mem_of_mem_tail hcaller)) rfl
    | @entry owner action _ hentry => cases action <;> cases hentry

/-- The context is closed for a close of the resources. -/
theorem ReachableUnder.closing_of_closeContext
    (hdisciplined : ((fragments[id]?).getD .vacant).script.Disciplined)
    (hreach : (ofFragments fragments host).ReachableUnder (Command.SparesContext id) system)
    {point : CallPoint} (hmem : .call id .closeContext point ∈ system.frames thread) :
    .closeResources id .closingContext ∈ system.frames thread := by
  obtain ⟨caller, hcaller, hawaits⟩ := (hreach.linked thread).exists_caller hmem rfl
  simp only [Frame.role] at hawaits
  cases hawaits with
  | closeContext => exact List.mem_of_mem_tail hcaller
  | entry hentry =>
    obtain ⟨rfl, rfl, -⟩ := Action.entry?_eq_call hentry
    exact absurd (List.mem_of_mem_tail hcaller) (hreach.not_closing_directly hdisciplined _)

/-! ### What is known when the resources are closed -/

/-- Once the resources are closed, the fragment has stopped, or the cancellation that
closed them is about to stop it. -/
theorem ReachableUnder.stopped_of_closed
    (hreach : (ofFragments fragments host).ReachableUnder permitted system) (id : ExecutorId)
    (htrusted : tally Entry.isBreach (system.executor id).journal = 0)
    (hclosed : (system.executor id).resourcesClosed = true) :
    (system.executor id).state.continues = false ∨
      0 < system.total (within id Frame.cancelling) := by
  refine hreach.invariant (fun system => tally Entry.isBreach (system.executor id).journal = 0 →
    (system.executor id).resourcesClosed = true →
      (system.executor id).state.continues = false ∨
        0 < system.total (within id Frame.cancelling)) ?_ ?_ ?_ htrusted hclosed
  · intro _ hclosed
    cases hclosed
  · intro system after thread root hturn hholds
    rw [hturn.executor_eq, hturn.total_within]
    exact hholds
  · intro system after thread frame rest next hreach hadvance hholds htrusted hclosed
    have htransition := Frame.step_transition id hadvance.step
    have hgrows := htransition.grows
    have hbefore : tally Entry.isBreach (system.executor id).journal = 0 := by
      have hmono := tally_mono Entry.isBreach _ hgrows.journal
      simp only [System.executor] at htrusted ⊢
      omega
    rcases htransition.closed_cases hclosed with hclosed | rfl
    · rcases hholds hbefore hclosed with hstopped | hcancelling
      · exact .inl (hgrows.stopped hstopped)
      · have hlaw := hadvance.total_within id Frame.cancelling
        by_cases hcore : frame.isCore id = true
        · rcases htransition.le_cancelling hcore with hle | hstopped | ⟨rfl, payload, hraised⟩
          · rw [within, if_pos hcore] at hlaw
            exact .inr (by omega)
          · exact .inl hstopped
          · have hbreach := hreach.breach_of_raised hadvance.frames hraised hcore rfl
            omega
        · have houtside : frame.isCore id = false := by simpa using hcore
          rw [within_outside id _ houtside] at hlaw
          exact .inr (by omega)
    · rcases hreach.closer (hadvance.frames ▸ List.mem_cons_self) with ⟨l, hrun⟩ | hcancel
      · have hterminal := (hreach.settled (List.mem_of_mem_tail hrun)).terminal rfl
        exact .inl (hgrows.stopped (State.continues_of_isTerminal hterminal))
      · right
        have hstill : .cancel id .closing ∈ after.frames thread := by
          rw [hadvance.own]
          rw [hadvance.frames] at hcancel
          exact List.mem_append_right _ hcancel
        have hweighs := weight_le_total (within id Frame.cancelling) hstill
        simp [Frame.cancelling] at hweighs
        omega

/-- No tree is built or stored once the resources are closed. -/
theorem ReachableUnder.not_closed_of_building
    (hdisciplined : ((fragments[id]?).getD .vacant).script.Disciplined)
    (hreach : (ofFragments fragments host).ReachableUnder permitted system)
    (htrusted : tally Entry.isBreach (system.executor id).journal = 0)
    {l : Option ListenerId} {point : RunPoint} (hmem : .run id l point ∈ system.frames thread)
    (hpoint : point.isBuilding = true) : (system.executor id).resourcesClosed = false := by
  refine hreach.everywhere id (fun executor _ frame => tally Entry.isBreach executor.journal = 0 →
    ∀ l point, frame = .run id l point → point.isBuilding = true →
      executor.resourcesClosed = false) ?_ ?_ ?_ hmem (by simp [Frame.isCore]) htrusted l point rfl
    hpoint
  · rintro executor thread _ ⟨⟩ - l point ⟨⟩ ⟨⟩
  · rintro system after thread frame rest next hreach hadvance htransition hcore hframe _ hpushed
      - htrusted l point rfl hpoint
    obtain ⟨hsame, ⟨rfl, hcontinues⟩ | rfl⟩ := htransition.building_pushed hcore hpushed hpoint
    · rw [hsame] at htrusted ⊢
      by_contra hclosed
      rw [Bool.not_eq_false] at hclosed
      rcases hreach.stopped_of_closed id htrusted hclosed with hstopped | hcancelling
      · rw [hstopped] at hcontinues
        cases hcontinues
      · -- a cancellation would be inside the setup section beside the run
        obtain ⟨owner, other, hother, hweighs⟩ := exists_of_total_pos _ hcancelling
        obtain ⟨point', rfl, hinside⟩ := Frame.inside_of_cancelling hweighs
        have htop := hadvance.frames ▸ List.mem_cons_self
        have hunique := eq_of_total_le_one (within id Frame.setup)
          (hreach.setup_total hdisciplined) htop hother
          (by simp [Frame.setup, RunPoint.holdsSetup]) (by simp [Frame.setup, hinside])
        cases hunique.2
    · rw [hsame] at htrusted ⊢
      exact hframe htrusted l _ rfl rfl
  · rintro system after thread frame rest next hreach hadvance htransition owner other hbeside
      - hother htrusted l point rfl hpoint
    have hbefore : tally Entry.isBreach (system.executor id).journal = 0 := by
      have hmono := tally_mono Entry.isBreach _ htransition.grows.journal
      omega
    by_contra hclosed
    rw [Bool.not_eq_false] at hclosed
    rcases htransition.closed_cases hclosed with hclosed | rfl
    · rw [hother hbefore l point rfl hpoint] at hclosed
      cases hclosed
    · have hrun := hadvance.mem_of_beside hbeside
      rcases hreach.closer (hadvance.frames ▸ List.mem_cons_self) with ⟨l', hclosing⟩ | hcancel
      · obtain ⟨-, -, hsame⟩ := hreach.live_unique hrun (by rintro rfl; cases hpoint)
          (List.mem_of_mem_tail hclosing) (by simp)
        rw [hsame] at hpoint
        cases hpoint
      · have hinside : point.holdsSetup = true := by
          cases point <;> first | rfl | cases hpoint
        have hunique := eq_of_total_le_one (within id Frame.setup)
          (hreach.setup_total hdisciplined) hrun (List.mem_of_mem_tail hcancel)
          (by simp [Frame.setup, hinside]) (by simp [Frame.setup, CancelPoint.holdsSetup])
        cases hunique.2

/-- A tree that is there when the resources are closed is about to be taken. -/
theorem ReachableUnder.taking_of_held
    (hdisciplined : ((fragments[id]?).getD .vacant).script.Disciplined)
    (hreach : (ofFragments fragments host).ReachableUnder permitted system)
    (htrusted : tally Entry.isBreach (system.executor id).journal = 0)
    (hheld : (system.executor id).treeHeld = true)
    (hclosed : (system.executor id).resourcesClosed = true) :
    0 < system.total (within id Frame.taking) := by
  refine hreach.invariant (fun system => tally Entry.isBreach (system.executor id).journal = 0 →
    (system.executor id).treeHeld = true → (system.executor id).resourcesClosed = true →
      0 < system.total (within id Frame.taking)) ?_ ?_ ?_ htrusted hheld hclosed
  · intro _ hheld
    cases hheld
  · intro system after thread root hturn hholds
    rw [hturn.executor_eq, hturn.total_within]
    exact hholds
  · intro system after thread frame rest next hreach hadvance hholds htrusted hheld hclosed
    have htransition := Frame.step_transition id hadvance.step
    have hlaw := hadvance.total_within id Frame.taking
    have hbefore : tally Entry.isBreach (system.executor id).journal = 0 := by
      have hmono := tally_mono Entry.isBreach _ htransition.grows.journal
      simp only [System.executor] at htrusted ⊢
      omega
    by_cases hcore : frame.isCore id = true
    · have htop := weight_le_total (within id Frame.taking) (hadvance.frames ▸ List.mem_cons_self)
      rw [within, if_pos hcore] at hlaw htop
      rcases htransition.le_taking hcore hheld hclosed with hpushed | ⟨hzero, hclosed⟩
      · omega
      · rcases htransition.treeHeld_cases hheld with hheld | ⟨l, rfl⟩
        · have hpositive := hholds hbefore hheld hclosed
          omega
        · -- a tree is not stored once the resources are closed
          have hopen := hreach.not_closed_of_building hdisciplined hbefore
            (hadvance.frames ▸ List.mem_cons_self) rfl
          rw [System.executor, hclosed] at hopen
          cases hopen
    · obtain ⟨-, hsame⟩ := htransition.outside (by simpa using hcore)
      rw [within_outside id _ (by simpa using hcore)] at hlaw
      have hpositive := hholds hbefore (hsame.treeHeld ▸ hheld) (hsame.resourcesClosed ▸ hclosed)
      omega

/-- The tree is there while the run drives it. -/
theorem ReachableUnder.treeHeld_of_driving
    (hdisciplined : ((fragments[id]?).getD .vacant).script.Disciplined)
    (hreach : (ofFragments fragments host).ReachableUnder permitted system)
    {l : Option ListenerId} {point : RunPoint} (hmem : .run id l point ∈ system.frames thread)
    (hpoint : point.isDriving = true) : (system.executor id).treeHeld = true := by
  refine hreach.everywhere id (fun executor _ frame => ∀ l point, frame = .run id l point →
    point.isDriving = true → executor.treeHeld = true) ?_ ?_ ?_ hmem (by simp [Frame.isCore]) l
    point rfl hpoint
  · rintro executor thread _ ⟨⟩ l point ⟨⟩ ⟨⟩
  · rintro system after thread frame rest next hreach hadvance htransition hcore hframe _ hpushed
      - l point rfl hpoint
    obtain ⟨hsame, hheld | ⟨point', rfl, hdriving⟩⟩ :=
      htransition.driving_pushed hcore hpushed hpoint
    · exact hsame.trans hheld
    · exact hsame.trans (hframe l point' rfl hdriving)
  · rintro system after thread frame rest next hreach hadvance htransition owner other hbeside
      - hother l point rfl hpoint
    have hheld := hother l point rfl hpoint
    rcases htransition.treeHeld_of_held hheld with hstill | rfl
    · exact hstill
    · -- only a run that closes the resources takes the tree away
      have hrun := hadvance.mem_of_beside hbeside
      rcases hreach.closer (hadvance.frames ▸ List.mem_cons_self) with ⟨l', hclosing⟩ | hcancel
      · obtain ⟨-, -, hsame⟩ := hreach.live_unique hrun (by rintro rfl; cases hpoint)
          (List.mem_of_mem_tail hclosing) (by simp)
        rw [hsame] at hpoint
        cases hpoint
      · have hnone := hreach.treeHeld_of_closing hdisciplined (List.mem_of_mem_tail hcancel)
        rw [hheld] at hnone
        cases hnone

/-- Only a close of the resources moves on to the close of the context. -/
theorem Advance.not_entering_context
    (hdisciplined : ((fragments[id]?).getD .vacant).script.Disciplined)
    (hafter : (ofFragments fragments host).ReachableUnder (Command.SparesContext id) after)
    (hadvance : system.Advance after thread frame rest next)
    (houtside : frame.isCore id = false) : .call id .closeContext .enter ∉ next.frames := by
  intro hmem
  have hlinks := Frame.step_links hadvance.step
  have hnotCall : frame.role ≠ .call id .closeContext := by
    intro hrole
    obtain ⟨point, rfl⟩ := Frame.eq_call_of_role hrole
    simp [Frame.isCore] at houtside
  have hnotClose : frame.role ≠ .closeResources id := by
    intro hrole
    obtain ⟨point, rfl⟩ := Frame.eq_closeResources_of_role hrole
    simp [Frame.isCore] at houtside
  cases next with
  | goto resumed =>
    obtain rfl := List.mem_singleton.mp hmem
    exact hnotCall hlinks.symm
  | call resumed called =>
    simp only [Next.frames_call, List.mem_cons, List.not_mem_nil, or_false] at hmem
    obtain ⟨hrole, hawaits⟩ := hlinks
    rcases hmem with rfl | rfl
    · simp only [Frame.role] at hawaits
      cases hawaits with
      | closeContext => exact hnotClose hrole.symm
      | entry hentry =>
        obtain ⟨rfl, rfl, -⟩ := Action.entry?_eq_call hentry
        have hclosing : .perform id .closeContext .waiting ∈ after.frames thread := by
          rw [hadvance.own]
          simp
        exact hafter.not_closing_directly hdisciplined .waiting hclosing
    · exact hnotCall hrole.symm
  | reply | raise | fork => cases hmem

/-- The close of the context is entered once, by whoever closed the resources. -/
theorem ReachableUnder.context_total
    (hdisciplined : ((fragments[id]?).getD .vacant).script.Disciplined)
    (hreach : (ofFragments fragments host).ReachableUnder (Command.SparesContext id) system) :
    tally (Entry.isEntered Call.isCloseContext) (system.executor id).journal +
      system.total (within id Frame.contextDue) =
        (system.executor id).resourcesClosed.toNat := by
  induction hreach with
  | refl => rfl
  | @move system after move hpermitted hreach hmove htotal =>
    obtain ⟨thread, frame, rest, next, hadvance⟩ | ⟨thread, root, hturn⟩ :=
      advance_or_turnover hmove
    · have htransition := Frame.step_transition id hadvance.step
      have hlaw := hadvance.total_within id Frame.contextDue
      by_cases hcore : frame.isCore id = true
      · have hstep := htransition.context_balance hcore
        rw [within, if_pos hcore] at hlaw
        simp only [System.executor] at htotal ⊢
        omega
      · have houtside : frame.isCore id = false := by simpa using hcore
        obtain ⟨hframes, hsame⟩ := htransition.outside houtside
        have hpushed : (next.frames.map (within id Frame.contextDue)).sum = 0 := by
          refine List.sum_eq_zero fun value hvalue => ?_
          obtain ⟨pushed, hpushed, rfl⟩ := List.mem_map.mp hvalue
          by_cases hlifecycle : pushed.isCore id = true
          · rw [within, if_pos hlifecycle]
            cases hframes pushed (List.mem_append_left _ hpushed) hlifecycle with
            | closeContext =>
              obtain rfl : _ = id := by simpa [Frame.isCore] using hlifecycle
              exact absurd hpushed (hadvance.not_entering_context hdisciplined
                (hreach.move move hpermitted hmove) houtside)
            | run | cancel | fail => rfl
          · exact within_outside id _ (by simpa using hlifecycle)
        rw [within_outside id _ houtside, hpushed] at hlaw
        simp only [System.executor] at htotal ⊢
        rw [hsame.tally_eq fun _ => rfl, hsame.resourcesClosed]
        omega
    · rw [hturn.executor_eq, hturn.total_within]
      exact htotal

end Resources

end System

end FragmentLifecycle
