import FragmentLifecycle.Proofs.Ambient
import FragmentLifecycle.Proofs.Calls
import FragmentLifecycle.Proofs.HostTable
import FragmentLifecycle.Proofs.Listeners
import FragmentLifecycle.Proofs.OwnFrames
import FragmentLifecycle.Proofs.SlotLedger
import FragmentLifecycle.Proofs.TerminalReport

/-!
# Work for concealed fragments

Some fragments are concealed, told by their handles.  A frame that works for one of them, or a
control message addressed to one, leads to such frames only, and nothing of what threads share
looks different after its step to who does not look at concealed fragments: neither the other
executors nor their entries in the table nor their watches
(`System.ReachableUnder.concealed_step`).  The exception is a collaborator that makes a
departure of nodes known.
-/

namespace FragmentLifecycle

/-! ## Concealed frames -/

/-- The fragment that a control message is addressed to, if it is to one. -/
def HostCall.addressee? : HostCall → Option Handle
  | .cancel handle | .unpause handle | .status handle => some handle
  | .finished sender _ => some sender
  | .running _ | .cancelAll _ | .waitIdle => none

section Concealed

variable (handle : ExecutorId → Handle) (veiled : Handle → Bool)

/-- The fragment that a frame works for, or that its message is addressed to. -/
def Frame.addressee? : Frame → Option Handle
  | .run id _ _ | .cancel id _ | .closeResources id _ | .fail id _ _ | .call id _ _
  | .pause id _ _ | .finished id _ _ | .perform id _ _ | .start id _ _ | .hosted id _ _ =>
      some (handle id)
  | .host message .start | .host message .waiting => message.addressee?
  | .host _ _ | .depart _ _ => none

/-- The frame works for a concealed fragment. -/
def Frame.isConcealed (frame : Frame) : Bool :=
  (frame.addressee? handle).any veiled

variable {handle veiled}

theorem Frame.addressee?_of_isOwn {frame : Frame} {id : ExecutorId}
    (hown : frame.isOwn id = true) : frame.addressee? handle = some (handle id) := by
  cases frame with
  | depart | start | host => cases hown
  | _ =>
    obtain rfl := of_decide_eq_true hown
    rfl

theorem Frame.isConcealed_of_isOwn {frame : Frame} {id : ExecutorId}
    (hown : frame.isOwn id = true) : frame.isConcealed handle veiled = veiled (handle id) := by
  rw [isConcealed, addressee?_of_isOwn hown, Option.any_some]

theorem Frame.isConcealed_of_keeps {frame : Frame} {id : ExecutorId}
    (hkeeps : frame.keeps? = some id) : frame.isConcealed handle veiled = veiled (handle id) := by
  revert hkeeps
  fun_cases Frame.keeps? frame
  all_goals
    intro hkeeps
    cases hkeeps
  all_goals rfl

end Concealed

/-! ## Their steps -/

/-- A step changes the executors of concealed fragments only, and leads to concealed frames. -/
structure StaysConcealed (handle : ExecutorId → Handle) (veiled : Handle → Bool) (world : World)
    (result : World × Next) : Prop where
  others : ∀ id, veiled (handle id) = false → result.1.executors id = world.executors id
  frames : ∀ pushed ∈ result.2.frames ++ result.2.forked, pushed.isConcealed handle veiled = true

section Steps

variable {handle : ExecutorId → Handle} {veiled : Handle → Bool} {world after : World}
  {view : LockView} {thread : ThreadId} {signal : Signal} {frame : Frame} {next : Next}

private theorem KeepsTo.staysConcealed {id : ExecutorId} {result : World × Next}
    (hkeeps : KeepsTo id world result) (hveiled : veiled (handle id) = true) :
    StaysConcealed handle veiled world result := by
  refine ⟨fun other hother => hkeeps.others other ?_, fun pushed hmem => ?_⟩
  · rintro rfl
    rw [hveiled] at hother
    cases hother
  · rw [hkeeps.forked, List.append_nil] at hmem
    rw [Frame.isConcealed_of_isOwn (hkeeps.frames pushed hmem), hveiled]

private theorem stepStart_concealed {id : ExecutorId} {refusal : Option String}
    {point : StartPoint} (hveiled : veiled (handle id) = true) :
    ∀ result ∈ stepStart world thread id refusal point signal,
      StaysConcealed handle veiled world result := by
  fun_cases stepStart world thread id refusal point signal
  all_goals intro result hresult
  case case2 =>
    obtain ⟨slots, -, rfl⟩ := Option.map_eq_some_iff.mp hresult
    exact ⟨fun _ _ => rfl, by simp [Frame.isConcealed, Frame.addressee?, hveiled]⟩
  all_goals cases hresult
  all_goals exact ⟨fun _ _ => rfl, by simp [Frame.isConcealed, Frame.addressee?, hveiled]⟩

private theorem startHostCall_concealed {call : HostCall}
    (hveiled : call.addressee?.any veiled = true)
    (hhandles : ∀ entry ∈ world.host.running, entry.1 = handle entry.2) :
    StaysConcealed handle veiled world (startHostCall world call) := by
  have hfound {wanted : Handle} {id : ExecutorId}
      (hlisted : world.host.executor? wanted = some id) : handle id = wanted :=
    (hhandles _ (Host.mem_of_executor? hlisted)).symm
  cases call with
  | running | cancelAll | waitIdle => cases hveiled
  | cancel wanted | unpause wanted | finished wanted | status wanted =>
    simp only [startHostCall]
    split
    all_goals
      rename_i hlisted
      try have hsame := hfound hlisted
      refine ⟨fun _ _ => rfl, ?_⟩
      simp_all [Frame.isConcealed, Frame.addressee?, HostCall.addressee?]

private theorem stepHost_concealed {call : HostCall} {point : HostPoint}
    (hconcealed : (Frame.host call point).isConcealed handle veiled = true)
    (hhandles : ∀ entry ∈ world.host.running, entry.1 = handle entry.2) :
    ∀ result ∈ stepHost world call point signal,
      StaysConcealed handle veiled world result := by
  fun_cases stepHost world call point signal
  all_goals rintro _ ⟨⟩
  case case1 => exact startHostCall_concealed hconcealed hhandles
  all_goals first
  | cases hconcealed
  | exact ⟨fun _ _ => rfl, by simp⟩

/-- A step of a concealed frame changes concealed executors only, and leads to concealed
frames. -/
theorem Frame.step_concealed (hconcealed : frame.isConcealed handle veiled = true)
    (hsilent : frame.isAnnouncement = false)
    (hhandles : ∀ entry ∈ world.host.running, entry.1 = handle entry.2)
    (hstep : frame.step world view thread signal = some (after, next)) :
    StaysConcealed handle veiled world (after, next) := by
  cases frame with
  | depart => cases hconcealed
  | start id => exact stepStart_concealed hconcealed _ hstep
  | host call point => exact stepHost_concealed hconcealed hhandles _ hstep
  | run id | cancel id | closeResources id | fail id | call id | pause id | finished id
  | perform id | hosted id =>
    have hkeeps : KeepsTo id world (after, next) :=
      Frame.step_own (by simp [isOwn]) hsilent hstep
    exact hkeeps.staysConcealed hconcealed

end Steps

/-! ## What is in sight -/

/-- The entries of the table that are not concealed. -/
def Host.inSight (veiled : Handle → Bool) (host : Host) : List (Handle × ExecutorId) :=
  host.running.filter fun entry => !veiled entry.1

/-- The watches of fragments that are not concealed, in registration order. -/
def World.watchesInSight (handle : ExecutorId → Handle) (veiled : Handle → Bool)
    (world : World) : List Watch :=
  world.registry.snapshot.filter fun watch => !veiled (handle watch.executor)

/-- Two worlds differ in concealed fragments only. -/
structure World.SameInSight (handle : ExecutorId → Handle) (veiled : Handle → Bool)
    (before after : World) : Prop where
  executors : ∀ id, veiled (handle id) = false → after.executors id = before.executors id
  running : after.host.inSight veiled = before.host.inSight veiled
  watches : after.watchesInSight handle veiled = before.watchesInSight handle veiled

section InSight

variable {handle : ExecutorId → Handle} {veiled : Handle → Bool} {thread other : ThreadId}
  {signal : Signal} {frame : Frame} {next : Next} {h h' : Host}

theorem TableStep.inSight (hstep : TableStep handle frame signal h next h')
    (hconcealed : frame.isConcealed handle veiled = true) :
    h'.inSight veiled = h.inSight veiled := by
  cases hstep with
  | kept hrunning _ _ | unwound _ _ _ _ _ _ hrunning => rw [Host.inSight, hrunning, Host.inSight]
  | registered id refusal hframe hnext hfree hrunning =>
    subst hframe
    have hveiled : veiled (handle id) = true := hconcealed
    simp [Host.inSight, hrunning, hveiled]
  | removed id hkeeps hpushed hrunning =>
    rw [Frame.isConcealed_of_keeps hkeeps] at hconcealed
    rw [Host.inSight, hrunning, List.filter_filter, Host.inSight]
    refine List.filter_congr fun entry _ => ?_
    by_cases hsame : entry.1 = handle id
    · simp [hsame, hconcealed]
    · simp [hsame]

/-- Where nobody waits for a slot, a step leaves the grants of other threads as they are. -/
theorem HostStep.mem_granted (hstep : HostStep handle thread frame signal h next h')
    (hserved : h.slots.waiting = []) (hother : other ≠ thread) :
    other ∈ h'.slots.granted ↔ other ∈ h.slots.granted := by
  cases hstep
  case slotRequested =>
    simp only [Slots.request]
    split <;> simp [hother]
  case slotTaken => exact List.mem_erase_of_ne hother
  case deregistered => rw [Host.slots_deregister]
  case rejected | spawnFailed | slotReturned | slotDropped => simp [Slots.release, hserved]
  all_goals rfl

end InSight

/-! ## Reports and closes that return -/

/-- The reports, and the close of the context. -/
def Call.isReportOrClose : Call → Bool
  | .stateChanged _ | .fail _ | .closeContext => true
  | _ => false

/-- No report and no close of the context was left by a panic. -/
def Executor.ReturnsFromReports (executor : Executor) : Prop :=
  ∀ record ∈ executor.journal, ∀ call, call.isReportOrClose = true →
    record.entry ≠ .left call true

theorem Executor.ReturnsFromReports.of_grows {before after : Executor}
    (hreturns : after.ReturnsFromReports) (hgrows : before.Grows after) :
    before.ReturnsFromReports :=
  fun record hmem => hreturns record (hgrows.journal.subset hmem)

theorem Transition.not_returns_of_raised {view : LockView} {thread : ThreadId}
    {id : ExecutorId} {signal : Signal} {executor executor' : Executor} {next : Next}
    {call : Call} {point : CallPoint} {payload : Payload}
    (htransition : Transition view thread id (.call id call point) signal executor next executor')
    (hkind : call.isReportOrClose = true) (hraised : next.signal = .raised payload) :
    ¬ executor'.ReturnsFromReports := by
  intro hreturns
  cases htransition with
  | callPanics | callUnwinds =>
    exact hreturns ⟨thread, .left call true⟩ (by simp) call hkind rfl
  | aside houtside => simp [Frame.isCore] at houtside
  | _ => cases hraised

namespace System

section Concealed

variable {fragments : List Fragment} {host : Host} {permitted : Command → Prop}
  {system after : System} {thread : ThreadId} {frame : Frame} {rest : List Frame} {next : Next}
  {id : ExecutorId} {veiled : Handle → Bool}

theorem watchesInSight_eq {handle : ExecutorId → Handle} (system : System)
    (hveiled : veiled (handle id) = true) : system.world.watchesInSight handle veiled =
      ((system.others id).map Prod.snd).filter fun watch => !veiled (handle watch.executor) := by
  rw [World.watchesInSight, Registry.snapshot, others, List.filter_map, List.filter_map,
    List.filter_filter]
  congr 1
  refine List.filter_congr fun entry _ => ?_
  by_cases hsame : entry.2.executor = id
  · simp [hsame, hveiled]
  · simp [hsame]

/-- After a step of a concealed frame, nothing looks different but concealed fragments. -/
theorem ReachableUnder.concealed_step
    (hreach : (ofFragments fragments host).ReachableUnder permitted system)
    (hempty : host.running = []) (hadvance : system.Advance after thread frame rest next)
    (hconcealed : frame.isConcealed (handleIn fragments) veiled = true)
    (hsilent : frame.isAnnouncement = false) :
    system.world.SameInSight (handleIn fragments) veiled after.world ∧
      ∀ pushed ∈ next.frames ++ next.forked,
        pushed.isConcealed (handleIn fragments) veiled = true := by
  obtain ⟨hothers, hpushed⟩ := Frame.step_concealed hconcealed hsilent
    (hreach.table hempty).handles hadvance.step
  refine ⟨⟨hothers, (hreach.table_step hadvance).inSight hconcealed, ?_⟩, hpushed⟩
  cases frame with
  | run owner l point =>
    rw [watchesInSight_eq after hconcealed, watchesInSight_eq system hconcealed,
      hadvance.others_eq hreach]
    rintro other l' point' ⟨⟩ hother
    exact absurd rfl hother
  | _ => rw [World.watchesInSight, Frame.step_registry hadvance.step]; rfl

end Concealed

/-! ## What concealed collaborators may do -/

section Collaborators

variable {fragments : List Fragment} {host : Host} {permitted : Command → Prop}
  {system : System} {thread : ThreadId} {id : ExecutorId}

/-- Where nobody acts on an executor from outside, an action in progress is one of a plan, or
was asked for by a control message. -/
theorem ReachableUnder.action_cases
    (hreach : (ofFragments fragments host).ReachableUnder permitted system)
    (hmanaged : ∀ command, permitted command → ∀ id action, command ≠ .act id action)
    {action : Action} {point : PerformPoint}
    (hmem : .perform id action point ∈ system.frames thread) :
    action = .unpause ∨
      ∃ call, action ∈ ((system.executor id).fragment.script.planOf call).actions := by
  rcases (hreach.linked thread).last_or_awaited hmem with hlast | ⟨caller, hcaller, hawaits⟩
  · have hroot := hreach.outermost (fun role => ∀ id action, role ≠ .perform id action)
      (fun command hpermitted id action hrole => ?_) (by simp) thread hlast
    · exact absurd rfl (hroot id action)
    · cases command with
      | act owner acted => exact hmanaged _ hpermitted owner acted rfl
      | depart | start | host => cases hrole
  · cases hawaits with
    | @action _ call _ remaining =>
      have hplays : _ :: _ <:+ _ := hreach.plays (List.mem_of_mem_tail hcaller)
      exact .inr ⟨call, hplays.mem List.mem_cons_self⟩
    | hostUnpause => exact .inl rfl
    | @entry _ outer _ hentry => cases outer <;> cases hentry

/-- A panic that comes to a cancellation has left a report or the close of the context. -/
theorem ReachableUnder.not_raised_of_returns
    (hreach : (ofFragments fragments host).ReachableUnder permitted system)
    (hreturns : (system.executor id).ReturnsFromReports) {point : CancelPoint}
    {rest : List Frame} (hframes : system.frames thread = .cancel id point :: rest)
    (payload : Payload) : system.signal thread ≠ .raised payload := by
  intro hsignal
  refine hreach.on_return id (fun executor _ caller signal =>
    ((∃ point, caller = .cancel id point) ∨ caller = .closeResources id .closingContext) →
      ∀ payload, signal = .raised payload → ¬ executor.ReturnsFromReports) ?_ ?_ hframes
    (by simp [hsignal]) (.inl ⟨point, rfl⟩) payload hsignal hreturns
  · intro system after thread frame caller rest next hreach hadvance htransition hawaits hnext
      hbefore hcaller payload hraised
    generalize hrole : frame.role = role at hawaits
    rcases hcaller with ⟨point, rfl⟩ | rfl
    · cases hawaits with
      | cancelClose =>
        obtain ⟨point, rfl⟩ := Frame.eq_closeResources_of_role hrole
        obtain ⟨rfl, ⟨reason, hsignal⟩, hsame⟩ := htransition.closing_of_raised hraised
        rw [hsame]
        exact hbefore (by simp [hsignal]) (.inr rfl) reason hsignal
      | cancelReport =>
        obtain ⟨point, rfl⟩ := Frame.eq_call_of_role hrole
        exact htransition.not_returns_of_raised rfl hraised
    · cases hawaits with
      | closeContext =>
        obtain ⟨point, rfl⟩ := Frame.eq_call_of_role hrole
        exact htransition.not_returns_of_raised rfl hraised
  · intro system after thread frame rest next hreach hadvance htransition owner caller signal
      _ _ hholds hcaller payload hraised hreturns
    exact hholds hcaller payload hraised (hreturns.of_grows htransition.grows)

end Collaborators

end System

end FragmentLifecycle
