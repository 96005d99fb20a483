import FragmentLifecycle.Proofs.Concealment
import FragmentLifecycle.Proofs.PassiveCalls

/-!
# What looks alike without concealed fragments

One run has concealed fragments, another one has none of them.  Their executors, answers and
frames look alike to who sees no concealed fragment.  `Mirrored` says that two threads that are
about to take a step see the same of their worlds, `Echoes` that the results of the two steps
look alike.
-/

namespace FragmentLifecycle

/-! ## What is seen -/

section Seen

variable (veiled : Handle → Bool)

/-- An answer without what concealed fragments add to it. -/
def Answer.seen : Answer → Answer
  | .count _ => .count 0
  | .handles listed => .handles (listed.filter fun handle => !veiled handle)
  | answer => answer

def Entry.seen : Entry → Entry
  | .acted action answer => .acted action (answer.seen veiled)
  | entry => entry

def Course.seen : Course → Course
  | .notStarted => .notStarted
  | .underWay _ => .underWay 0
  | .ended _ => .ended 0
  | .unwound _ => .unwound 0

/-- An executor without the numbers of threads and without answers about concealed fragments. -/
def Executor.seen (executor : Executor) : Executor :=
  { executor with
    course := executor.course.seen
    worker := none
    journal := executor.journal.map fun record => ⟨0, record.entry.seen veiled⟩ }

/-- Two replies differ by what concealed fragments add. -/
inductive Reply.Alike : Reply → Reply → Prop
  | answer {answer answer' : Answer} (hseen : answer'.seen veiled = answer.seen veiled) :
      Alike (.answer answer) (.answer answer')
  | progress (more : Bool) : Alike (.progress more) (.progress more)
  | failed (fault : Fault) : Alike (.failed fault) (.failed fault)

theorem Reply.Alike.refl (reply : Reply) : reply.Alike veiled reply := by
  cases reply with
  | answer => exact .answer rfl
  | progress more => exact .progress more
  | failed fault => exact .failed fault

inductive Signal.Alike : Signal → Signal → Prop
  | go : Alike .go .go
  | replied {reply reply' : Reply} (hreply : reply.Alike veiled reply') :
      Alike (.replied reply) (.replied reply')
  | raised (payload : Payload) : Alike (.raised payload) (.raised payload)

end Seen

/-- The frames that are the same in both runs. -/
def Frame.isPlain : Frame → Bool
  | .depart _ (.walk _) | .depart _ (.cancelling _) | .call _ _ .parked
  | .host _ (.walk _) | .host _ (.listening _) | .host _ (.asleep _) => false
  | _ => true

section Frames

variable (handle : ExecutorId → Handle) (veiled : Handle → Bool)

/-- Two frames are alike: the second one has an identifier of its own for its listener, does
not meet concealed fragments on its way, and is never put to sleep. -/
inductive Frame.Alike : Frame → Frame → Prop
  | plain {frame : Frame} (hplain : frame.isPlain = true)
      (hsight : frame.isConcealed handle veiled = false) : Alike frame frame
  | run {id : ExecutorId} {listener listener' : Option ListenerId} {point : RunPoint}
      (hlistens : listener'.isSome = listener.isSome) (hsight : veiled (handle id) = false) :
      Alike (.run id listener point) (.run id listener' point)
  | parked {id : ExecutorId} {call : Call} (hsight : veiled (handle id) = false) :
      Alike (.call id call .parked) (.call id call .parking)
  | walk {nodes : NodeSet} {watches : List Watch} :
      Alike (.depart nodes (.walk watches))
        (.depart nodes (.walk (watches.filter fun watch => !veiled (handle watch.executor))))
  | cancelling {nodes : NodeSet} {rest : List Watch} :
      Alike (.depart nodes (.cancelling rest))
        (.depart nodes (.cancelling (rest.filter fun watch => !veiled (handle watch.executor))))
  | round {call : HostCall} {rest : List ExecutorId} :
      Alike (.host call (.walk rest))
        (.host call (.walk (rest.filter fun id => !veiled (handle id))))
  | listening {call : HostCall} {signals signals' : Nat} :
      Alike (.host call (.listening signals)) (.host call (.listening signals'))
  | asleep {call : HostCall} {signals signals' : Nat} :
      Alike (.host call (.asleep signals)) (.host call (.listening signals'))

/-- What follows on two stacks is alike. -/
structure Next.Alike (next next' : Next) : Prop where
  frames : List.Forall₂ (Frame.Alike handle veiled) next.frames next'.frames
  forked : List.Forall₂ (Frame.Alike handle veiled) next.forked next'.forked
  signal : next.signal.Alike veiled next'.signal

end Frames

/-- Two threads that take a step see the same of their worlds. -/
structure Mirrored (handle : ExecutorId → Handle) (veiled : Handle → Bool)
    (world : World) (view : LockView) (thread : ThreadId)
    (world' : World) (view' : LockView) (thread' : ThreadId) : Prop where
  executors : ∀ id, veiled (handle id) = false →
    (world'.executors id).seen veiled = (world.executors id).seen veiled
  principal : world'.principals thread' = world.principals thread
  exit : world'.exit = world.exit
  setup : ∀ id, veiled (handle id) = false →
    view'.setupHeldElsewhere id = view.setupHeldElsewhere id
  closing : ∀ id, veiled (handle id) = false → view'.closingHeld id = view.closingHeld id
  running : world'.host.running = world.host.inSight veiled
  handles : ∀ entry ∈ world.host.running, entry.1 = handle entry.2
  named : ∀ id, (world.executors id).handle = handle id
  watches : world'.registry.snapshot = world.watchesInSight handle veiled
  granted : thread' ∈ world'.host.slots.granted ↔ thread ∈ world.host.slots.granted

/-- Two results of a step look alike. -/
structure Echoes (handle : ExecutorId → Handle) (veiled : Handle → Bool)
    (thread thread' : ThreadId) (result result' : World × Next) : Prop where
  executors : ∀ id, veiled (handle id) = false →
    (result'.1.executors id).seen veiled = (result.1.executors id).seen veiled
  principal : result'.1.principals thread' = result.1.principals thread
  exit : result'.1.exit = result.1.exit
  next : result.2.Alike handle veiled result'.2

namespace World

variable (world : World) (id : ExecutorId) (thread : ThreadId)

/-- What threads see of the world beside the host and the registry. -/
def core : (ExecutorId → Executor) × (ThreadId → Option Principal) × Option ProcessExit :=
  (world.executors, world.principals, world.exit)

/-- The core with another executor. -/
def coreWith (executor : Executor) :
    (ExecutorId → Executor) × (ThreadId → Option Principal) × Option ProcessExit :=
  (overwrite world.executors id executor, world.principals, world.exit)

variable {world} in
theorem core_eq {executors : ExecutorId → Executor} {principals : ThreadId → Option Principal}
    {exit : Option ProcessExit} : world.core = (executors, principals, exit) ↔
      world.executors = executors ∧ world.principals = principals ∧ world.exit = exit := by
  rw [core, Prod.mk.injEq, Prod.mk.injEq]

theorem core_snd_request (target : State) : (world.request id thread target).2.core =
    world.coreWith id ((world.executors id).request thread target).2 := by
  refine core_eq.mpr ⟨funext fun other => ?_, principals_snd_request _ _ _ _,
    exit_snd_request _ _ _ _⟩
  rw [executors_snd_request, overwrite]

theorem core_wakeWorker : (world.wakeWorker id).core = world.core :=
  core_eq.mpr ⟨executors_wakeWorker _ _, principals_wakeWorker _ _, exit_wakeWorker _ _⟩

theorem core_record_modify (change : Executor → Executor) (entry : Entry) :
    ((world.modify id change).record id thread entry).core =
      world.coreWith id ((change (world.executors id)).record thread entry) := by
  refine core_eq.mpr ⟨funext fun other => ?_, rfl, rfl⟩
  simp only [record, modify, overwrite]
  split <;> simp

end World

/-! ## Likeness -/

section Likeness

variable {handle : ExecutorId → Handle} {veiled : Handle → Bool}

namespace Next.Alike

variable {frame frame' callee callee' : Frame} {given given' : Reply}

theorem goto (hframe : frame.Alike handle veiled frame') :
    (Next.goto frame).Alike handle veiled (.goto frame') :=
  ⟨.cons hframe .nil, .nil, .go⟩

theorem call (hframe : frame.Alike handle veiled frame')
    (hcallee : callee.Alike handle veiled callee') :
    (Next.call frame callee).Alike handle veiled (.call frame' callee') :=
  ⟨.cons hcallee (.cons hframe .nil), .nil, .go⟩

theorem reply (hreply : given.Alike veiled given') :
    (Next.reply given).Alike handle veiled (.reply given') :=
  ⟨.nil, .nil, .replied hreply⟩

theorem fork (hreply : given.Alike veiled given') (hframe : frame.Alike handle veiled frame')
    (hosts : ExecutorId) :
    (Next.fork given frame hosts).Alike handle veiled (.fork given' frame' hosts) :=
  ⟨.nil, .cons hframe .nil, .replied hreply⟩

theorem done : Next.done.Alike handle veiled .done :=
  ⟨.nil, .nil, .replied (.answer rfl)⟩

theorem raise (payload : Payload) :
    (Next.raise payload).Alike handle veiled (.raise payload) :=
  ⟨.nil, .nil, .raised payload⟩

end Next.Alike

end Likeness

namespace Executor

variable {veiled : Handle → Bool} {executor executor' : Executor}

/-- What is read of an executor without looking at threads and answers. -/
theorem eq_of_seen {α : Type} (read : Executor → α)
    (hread : ∀ executor, read (executor.seen veiled) = read executor)
    (hseen : executor'.seen veiled = executor.seen veiled) : read executor' = read executor := by
  rw [← hread executor', hseen, hread]

theorem seen_record (executor : Executor) (thread : ThreadId) (entry : Entry) :
    (executor.record thread entry).seen veiled =
      { executor.seen veiled with
        journal := (executor.seen veiled).journal ++ [⟨0, entry.seen veiled⟩] } := by
  simp [seen, record]

theorem seen_append (executor : Executor) (thread : ThreadId) (cause : Fault) :
    (executor.append thread cause).seen veiled =
      { executor.seen veiled with
        lifecycle := (executor.seen veiled).lifecycle.append cause
        journal := (executor.seen veiled).journal ++ [⟨0, .recorded cause⟩] } := by
  simp [seen, append, Entry.seen]

theorem seen_request (executor : Executor) (thread : ThreadId) (target : State) :
    (executor.request thread target).2.seen veiled =
      { executor.seen veiled with
        lifecycle := ((executor.seen veiled).lifecycle.request target).2
        journal := (executor.seen veiled).journal ++
          [⟨0, .requested (executor.seen veiled).state target⟩] } := by
  simp [seen, request, Entry.seen, state]

end Executor

section Mirrored

variable {handle : ExecutorId → Handle} {veiled : Handle → Bool} {world world' : World}
  {view view' : LockView} {thread thread' : ThreadId} {id : ExecutorId}
  {signal signal' : Signal}

namespace Mirrored

variable (hmirrored : Mirrored handle veiled world view thread world' view' thread')
  (hsight : veiled (handle id) = false)

include hmirrored hsight

theorem fragment : (world'.executors id).fragment = (world.executors id).fragment :=
  Executor.eq_of_seen Executor.fragment (fun _ => rfl) (hmirrored.executors id hsight)

theorem lifecycle : (world'.executors id).lifecycle = (world.executors id).lifecycle :=
  Executor.eq_of_seen Executor.lifecycle (fun _ => rfl) (hmirrored.executors id hsight)

theorem state : (world'.executors id).state = (world.executors id).state :=
  Executor.eq_of_seen Executor.state (fun _ => rfl) (hmirrored.executors id hsight)

theorem treeHeld : (world'.executors id).treeHeld = (world.executors id).treeHeld :=
  Executor.eq_of_seen Executor.treeHeld (fun _ => rfl) (hmirrored.executors id hsight)

theorem advances : (world'.executors id).advances = (world.executors id).advances :=
  Executor.eq_of_seen Executor.advances (fun _ => rfl) (hmirrored.executors id hsight)

theorem gate : (world'.executors id).gate = (world.executors id).gate :=
  Executor.eq_of_seen Executor.gate (fun _ => rfl) (hmirrored.executors id hsight)

theorem resourcesClosed :
    (world'.executors id).resourcesClosed = (world.executors id).resourcesClosed :=
  Executor.eq_of_seen Executor.resourcesClosed (fun _ => rfl) (hmirrored.executors id hsight)

theorem context : (world'.executors id).context = (world.executors id).context :=
  Executor.eq_of_seen Executor.context (fun _ => rfl) (hmirrored.executors id hsight)

theorem controls : (world'.executors id).controls = (world.executors id).controls :=
  Executor.eq_of_seen Executor.controls (fun _ => rfl) (hmirrored.executors id hsight)

theorem released : (world'.executors id).released = (world.executors id).released :=
  Executor.eq_of_seen Executor.released (fun _ => rfl) (hmirrored.executors id hsight)

theorem handle_eq : (world'.executors id).handle = (world.executors id).handle :=
  Executor.eq_of_seen Executor.handle (fun _ => rfl) (hmirrored.executors id hsight)

theorem text : (world'.executors id).text = (world.executors id).text :=
  Executor.eq_of_seen Executor.text (fun _ => rfl) (hmirrored.executors id hsight)

theorem course_eq_notStarted : (world'.executors id).course = .notStarted ↔
    (world.executors id).course = .notStarted := by
  have hcourse : (world'.executors id).course.seen = (world.executors id).course.seen :=
    congrArg Executor.course (hmirrored.executors id hsight)
  generalize (world'.executors id).course = course' at hcourse
  generalize (world.executors id).course = course at hcourse
  cases course <;> cases course' <;> simp [Course.seen] at hcourse ⊢

omit hsight

/-- A walk over both tables meets the entries in sight in the same order. -/
theorem listing_eq (order : List Handle) : world'.host.listing order =
    (world.host.listing order).filter fun entry => !veiled entry.1 := by
  rw [Host.listing, hmirrored.running, Host.inSight, Host.listing]
  exact Host.arrange_filter (fun handle => !veiled handle) order world.host.running

/-- An entry in sight is found in both tables. -/
theorem executor?_eq {wanted : Handle} (hwanted : veiled wanted = false) :
    world'.host.executor? wanted = world.host.executor? wanted := by
  rw [Host.executor?, hmirrored.running, Host.inSight, Host.executor?]
  induction world.host.running with
  | nil => rfl
  | cons entry rest ih =>
    obtain ⟨listed, owner⟩ := entry
    by_cases hlisted : wanted = listed
    · simp [List.lookup_cons_self, ← hlisted, hwanted]
    · have hskips (others : List (Handle × ExecutorId)) :
          ((listed, owner) :: others).lookup wanted = others.lookup wanted := by
        rw [List.lookup_cons, beq_eq_false_iff_ne.mpr hlisted]
      rw [List.filter_cons, hskips]
      split
      · rw [hskips, ih]
      · exact ih

/-- Nothing changes but what is not looked at. -/
theorem kept {result result' : World × Next} (hcore : result.1.core = world.core)
    (hcore' : result'.1.core = world'.core) (hnext : result.2.Alike handle veiled result'.2) :
    Echoes handle veiled thread thread' result result' := by
  obtain ⟨hexecutors, hprincipals, hexit⟩ := World.core_eq.mp hcore
  obtain ⟨hexecutors', hprincipals', hexit'⟩ := World.core_eq.mp hcore'
  refine ⟨?_, ?_, ?_, hnext⟩
  · rw [hexecutors, hexecutors']
    exact hmirrored.executors
  · rw [hprincipals, hprincipals']
    exact hmirrored.principal
  · rw [hexit, hexit']
    exact hmirrored.exit

/-- One executor changes, in the same way on both sides. -/
theorem changed {result result' : World × Next} {executor executor' : Executor}
    (hcore : result.1.core = world.coreWith id executor)
    (hcore' : result'.1.core = world'.coreWith id executor')
    (hseen : executor'.seen veiled = executor.seen veiled)
    (hnext : result.2.Alike handle veiled result'.2) :
    Echoes handle veiled thread thread' result result' := by
  obtain ⟨hexecutors, hprincipals, hexit⟩ := World.core_eq.mp hcore
  obtain ⟨hexecutors', hprincipals', hexit'⟩ := World.core_eq.mp hcore'
  refine ⟨fun other hother => ?_, ?_, ?_, hnext⟩
  · rw [hexecutors, hexecutors']
    by_cases hsame : other = id
    · rw [hsame, overwrite_self, overwrite_self]
      exact hseen
    · rw [overwrite_of_ne _ _ hsame, overwrite_of_ne _ _ hsame]
      exact hmirrored.executors other hother
  · rw [hprincipals, hprincipals']
    exact hmirrored.principal
  · rw [hexit, hexit']
    exact hmirrored.exit

/-- Both threads take the same principal. -/
theorem repossessed (principal : Option Principal) {next next' : Next}
    (hnext : next.Alike handle veiled next') :
    Echoes handle veiled thread thread' (world.setPrincipal thread principal, next)
      (world'.setPrincipal thread' principal, next') where
  executors := hmirrored.executors
  principal := (overwrite_self _ _ _).trans (overwrite_self _ _ _).symm
  exit := hmirrored.exit
  next := hnext

/-- A request for a state is decided in the same way on both sides. -/
theorem exists_request (hsight : veiled (handle id) = false) (target : State) :
    ∃ decision next next', world.request id thread target = (decision, next) ∧
      world'.request id thread' target = (decision, next') ∧
      ∀ {then_ then_' : Next}, then_.Alike handle veiled then_' →
        Echoes handle veiled thread thread' (next, then_) (next', then_') := by
  have hdecision : (world'.request id thread' target).1 = (world.request id thread target).1 := by
    rw [World.fst_request, World.fst_request, hmirrored.state hsight]
  refine ⟨(world.request id thread target).1, (world.request id thread target).2,
    (world'.request id thread' target).2, rfl, Prod.ext hdecision rfl, fun halike => ?_⟩
  refine hmirrored.changed (World.core_snd_request _ _ _ _) (World.core_snd_request _ _ _ _) ?_
    halike
  rw [Executor.seen_request, Executor.seen_request, hmirrored.executors id hsight]

end Mirrored

end Mirrored

end FragmentLifecycle
