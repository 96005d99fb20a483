import FragmentLifecycle.Execution.Schedule
import FragmentLifecycle.Proofs.ShadowRest

/-!
# Fragments hosted together

Some of the fragments of a host are concealed.  A script that plays with all of them and the
script without the operations on concealed ones tell the same of the others, and where the
calls on collaborators of concealed fragments return, they come to rest together
(`System.hosted_fragments_do_not_interfere`).  A concealed fragment whose build does not return
keeps a cancellation from the others (`System.unreturned_build_interferes`).
-/

namespace FragmentLifecycle.System

/-! ## What two runs tell -/

/-- Two calls have come to the same end, but for what concealed fragments add to an answer. -/
inductive Conclusion.Alike (veiled : Handle → Bool) : Conclusion → Conclusion → Prop
  | pending : Alike veiled .pending .pending
  | replied {reply reply' : Reply} (hreply : reply.Alike veiled reply') :
      Alike veiled (.replied reply) (.replied reply')
  | panicked (payload : Payload) : Alike veiled (.panicked payload) (.panicked payload)

/-- The second run, which has made `calls'`, tells of the fragments in sight what the first one
tells.  Threads of the first run that work for them have counterparts, which `names` tells. -/
structure Retells (handle : ExecutorId → Handle) (veiled : Handle → Bool)
    (names : List ThreadId) (calls' : List (ThreadId × Command)) (system retold : System) :
    Prop where
  order : names.Sublist (List.range system.threads.length)
  threads : retold.threads.length = names.length
  concealed : ∀ thread, thread ∉ names →
    ∀ frame ∈ system.frames thread, frame.isConcealed handle veiled = true
  executors : ∀ id, veiled (handle id) = false →
    (retold.executor id).seen veiled = (system.executor id).seen veiled
  conclusions : ∀ thread thread', names[thread']? = some thread →
    (thread', .host .waitIdle) ∉ calls' →
    (system.conclusion thread).Alike veiled (retold.conclusion thread')
  proceeds : system.world.exit = none → ∀ thread thread' frame rest,
    names[thread']? = some thread → system.frames thread = frame :: rest →
    frame.isConcealed handle veiled = false → frame.isAsleep = false →
    (retold.step thread').isSome = (system.step thread).isSome

section Telling

variable {fragments : List Fragment} {host : Host} {permitted : Command → Prop}
  {handle : ExecutorId → Handle} {veiled : Handle → Bool} {asleep : ThreadId → Prop}
  {names : List ThreadId} {calls calls' : List (ThreadId × Command)}
  {system shadow after' : System} {thread thread' : ThreadId} {frame : Frame} {rest : List Frame}

theorem conclusion_eq (system : System) (thread : ThreadId) :
    system.conclusion thread =
      match system.frames thread, system.signal thread with
      | [], .replied reply => .replied reply
      | [], .raised payload => .panicked payload
      | _, _ => .pending := by
  rw [conclusion, System.frames, System.signal, stack]
  cases system.threads[thread]? <;> rfl

theorem conclusion_of_busy (hframes : system.frames thread = frame :: rest) :
    system.conclusion thread = .pending := by
  rw [conclusion_eq, hframes]

theorem Abreast.conclusion (habreast : Abreast handle veiled asleep system thread shadow thread') :
    (system.conclusion thread).Alike veiled (shadow.conclusion thread') := by
  cases habreast with
  | level _ hframes hsignal =>
    rw [conclusion_eq, conclusion_eq]
    generalize system.frames thread = frames at hframes
    generalize shadow.frames thread' = frames' at hframes
    generalize system.signal thread = signal at hsignal
    generalize shadow.signal thread' = signal' at hsignal
    cases hframes with
    | nil =>
      cases hsignal with
      | go => exact .pending
      | replied hreply => exact .replied hreply
      | raised payload => exact .panicked payload
    | cons => exact .pending
  | held inner walker walker' rest rest' hframes hframes' =>
    rw [conclusion_of_busy hframes']
    cases inner with
    | nil =>
      rw [conclusion_of_busy hframes]
      exact .pending
    | cons top inner =>
      rw [conclusion_of_busy hframes]
      exact .pending
  | left signals hframes hframes' hgo =>
    rw [conclusion_of_busy hframes', conclusion_eq, hframes, hgo]
    exact .pending
  | slept _ id call rest rest' hframes hframes' =>
    rw [conclusion_of_busy hframes, conclusion_of_busy hframes']
    exact .pending

theorem Shadows.retells (hshadows : Shadows (handleIn fragments) veiled asleep names system shadow)
    (hreach : (ofFragments fragments host).ReachableUnder permitted system)
    (hempty : host.running = []) :
    Retells (handleIn fragments) veiled names calls' system shadow where
  order := hshadows.sublist
  threads := hshadows.length
  concealed _ hgone := hshadows.concealed hgone
  executors := hshadows.worlds.executors
  conclusions _ _ hname _ := (hshadows.abreast hname).conclusion
  proceeds hexit _ _ _ _ := hshadows.proceeds hreach hempty hexit

/-- A process that has ended has ended in the shadow, unless a concealed fragment has ended it. -/
theorem Shadows.still_of_exited (hshadows : Shadows handle veiled asleep names system shadow)
    (hexit : system.world.exit ≠ none)
    (honly : ∀ id, veiled (handle id) = true → system.OnlyAdvances id) :
    shadow.IsStill ∧ shadow.world.exit = system.world.exit := by
  have hsame : shadow.world.exit = system.world.exit := by
    refine (hshadows.exited hexit).resolve_right ?_
    rintro ⟨thread, id, exhaustion, hmem, hveiled⟩
    obtain ⟨index, hnext⟩ := honly id hveiled thread _ _ hmem
    cases hnext
  refine ⟨fun thread => ?_, hsame⟩
  by_contra hmoves
  obtain ⟨after, hafter⟩ := Option.ne_none_iff_exists'.mp hmoves
  exact hexit (hsame ▸ exit_of_step hafter)

/-- The shadow of a system at rest can come to rest, and still tells the same. -/
theorem Shadows.exists_still
    (hshadows : Shadows (handleIn fragments) veiled
      (system.Slumbers (handleIn fragments) veiled) names system shadow)
    (hreach : (ofFragments fragments host).ReachableUnder permitted system)
    (hplays : (ofFragments fragments host).Plays calls' shadow)
    (hempty : host.running = []) (hexit : system.world.exit = none) (hstill : system.IsStill)
    (honly : ∀ id, veiled (handleIn fragments id) = true → system.OnlyAdvances id) :
    ∃ retold, (ofFragments fragments host).Plays calls' retold ∧
      Retells (handleIn fragments) veiled names calls' system retold ∧ retold.IsStill ∧
      retold.world.exit = system.world.exit := by
  have hexit' := hshadows.worlds.exit hexit
  obtain ⟨retold, hretold, hrests, hlength, hworld, hkept⟩ := hplays.exists_settled hexit'
    hshadows.worlds.served.2 (List.range shadow.threads.length) fun thread' => by
      have hcases := hshadows.still_or_listening hreach hplays hempty hexit hstill honly thread'
      refine hcases.imp_right ?_
      rintro ⟨signals, hframes⟩
      exact ⟨List.mem_range.mpr (lt_length_of_frames (by simp [hframes])), signals, hframes⟩
  refine ⟨retold, hretold, ?_, hrests, by rw [hworld, hexit', hexit]⟩
  refine ⟨hshadows.sublist, hlength.trans hshadows.length, fun _ => hshadows.concealed, ?_, ?_, ?_⟩
  · intro id hsight
    rw [System.executor, hworld]
    exact hshadows.worlds.executors id hsight
  · intro thread thread' hname hother
    obtain ⟨hframes, hsignal⟩ := hkept thread' fun signals hlistens =>
      hother (hplays.called (hlistens ▸ List.mem_singleton_self _)).1
    rw [conclusion_eq retold, hframes, hsignal, ← conclusion_eq shadow]
    exact (hshadows.abreast hname).conclusion
  · intro _ thread thread' _ _ _ _ _ _
    rw [hstill thread, hrests thread']

end Telling

/-- Fragments that are hosted together do not interfere.  Where concealed fragments make no
departure of nodes known and their reports and the close of their context return, whatever a
script leads to is retold by the script without the calls on them: the other calls are made in
the same order and come to the same end, and the other executors look the same, with their
journals, their states and the causes of their failures.  A thread at work for one of these can
go on in one of the runs where it can in the other.  If the script has come to rest, and of the
calls on collaborators of concealed fragments all have returned but advances of their trees,
the script without the calls on them comes to rest, too, as it tells so.

What is left out is the number of watches that a collaborator is told, which thread did what,
and when a call returns that waits for the table of fragments to become empty. -/
theorem hosted_fragments_do_not_interfere {fragments : List Fragment} {free : Nat}
    {veiled : Handle → Bool} {calls : List (ThreadId × Command)} {system : System}
    (hplays : (ofFragments fragments { slots := { free } }).Plays calls system)
    (hsilent : ∀ fragment ∈ fragments, veiled fragment.identity.handle = true →
      fragment.script.AnnouncesNothing)
    (hreturns : ∀ id, veiled (handleIn fragments id) = true →
      (system.executor id).ReturnsFromReports) :
    ∃ names calls' retold, (ofFragments fragments { slots := { free } }).Plays calls' retold ∧
      List.Forall₂ (Renamed names) (callsInSight fragments veiled calls) calls' ∧
      Retells (handleIn fragments) veiled names calls' system retold ∧
      (system.IsStill → (∀ id, veiled (handleIn fragments id) = true → system.OnlyAdvances id) →
        retold.IsStill ∧ retold.world.exit = system.world.exit) := by
  by_cases hends : system.world.exit = none ∧ system.IsStill ∧
    ∀ id, veiled (handleIn fragments id) = true → system.OnlyAdvances id
  · obtain ⟨hexit, hstill, honly⟩ := hends
    obtain ⟨names, calls', shadow, hplays', hshadows, hcalls⟩ := hplays.exists_shadow
      (system.Slumbers (handleIn fragments) veiled) rfl rfl hsilent hreturns id
    obtain ⟨retold, hretold, hretells, hrests, hexit'⟩ := hshadows.exists_still hplays.reachable
      hplays' rfl hexit hstill honly
    exact ⟨names, calls', retold, hretold, hcalls, hretells, fun _ _ => ⟨hrests, hexit'⟩⟩
  · obtain ⟨names, calls', retold, hplays', hshadows, hcalls⟩ :=
      hplays.exists_shadow (fun _ => False) rfl rfl hsilent hreturns False.elim
    refine ⟨names, calls', retold, hplays', hcalls, hshadows.retells hplays.reachable rfl,
      fun hstill honly => hshadows.still_of_exited ?_ honly⟩
    exact fun hexit => hends ⟨hexit, hstill, honly⟩

/-! ## Scripts that come to rest -/

section Still

variable {system next mid after start : System} {thread : ThreadId}

theorem isStill_iff : system.IsStill ↔
    ∀ thread < system.threads.length, (system.step thread).isNone = true := by
  refine ⟨fun hstill thread _ => by rw [hstill thread, Option.isNone_none], fun hnone thread => ?_⟩
  by_cases hframes : system.frames thread = []
  · exact step_of_ended hframes
  · exact Option.isNone_iff_eq_none.mp (hnone thread (lt_length_of_frames hframes))

instance : Decidable system.IsStill := decidable_of_iff _ isStill_iff.symm

theorem frames_of_all_over (hover : system.threads.all Thread.isOver = true) (thread : ThreadId) :
    system.frames thread = [] := by
  rw [System.frames, stack]
  cases hthread : system.threads[thread]? with
  | none => rfl
  | some found =>
    exact List.isEmpty_iff.mp (List.all_eq_true.mp hover found (List.mem_of_getElem? hthread))

/-- The system after the given threads have taken a step each, if no start has to wait. -/
def servedSteps (system : System) : List ThreadId → Option System
  | [] => some system
  | thread :: rest => (system.step thread).bind fun next =>
      if next.world.host.slots.waiting = [] then next.servedSteps rest else none

theorem Plays.exists_of_steps {calls : List (ThreadId × Command)}
    (hplays : start.Plays calls system) {α : Type} (threads : List ThreadId)
    (observe : System → α) (value : α)
    (hsteps : (system.servedSteps threads).map observe = some value) :
    ∃ after, start.Plays calls after ∧ observe after = value := by
  induction threads generalizing system with
  | nil => exact ⟨system, hplays, Option.some.inj hsteps⟩
  | cons thread rest ih =>
    obtain ⟨after, hafter, hvalue⟩ := Option.map_eq_some_iff.mp hsteps
    obtain ⟨next, hstep, hrest⟩ := Option.bind_eq_some_iff.mp hafter
    split at hrest
    · exact ih (hplays.step thread hstep ‹_›) (by rw [hrest, Option.map_some, hvalue])
    · cases hrest

end Still

/-- Where no trusted call was left by a panic, no report was. -/
theorem returnsFromReports_of_trusted {executor : Executor}
    (htrusted : tally Entry.isBreach executor.journal = 0) : executor.ReturnsFromReports := by
  intro record hmem call hcall hleft
  have hnone := List.countP_eq_zero.mp htrusted record hmem
  rw [hleft] at hnone
  cases call <;> first | (cases hcall; done) | exact hnone rfl

/-- A fragment beside the drowsy one, as drowsy. -/
def neighbour : Fragment :=
  { drowsy with identity.handle := ⟨⟨1⟩, 0, 0⟩ }

def isNeighbour (handle : Handle) : Bool :=
  handle == neighbour.identity.handle

theorem announcesNothing_drowsy : drowsy.script.AnnouncesNothing := by
  intro call nodes hplanned
  cases call with
  | next index => rcases index with _ | index <;> cases hplanned
  | _ => cases hplanned

/-- Both fragments are parked when all fragments are cancelled.  They come to their ends, and
so does the second one without the first one. -/
theorem cancelled_neighbour_does_not_interfere :
    ∃ system, (ofFragments [neighbour, drowsy] { slots := { free := 2 } }).Plays
        [(0, .start 0 none), (1, .start 1 none), (2, .host (.cancelAll []))] system ∧
      system.IsStill ∧ (system.executor 1).state = .cancelled ∧ ∃ names calls' retold,
        (ofFragments [neighbour, drowsy] { slots := { free := 2 } }).Plays calls' retold ∧
        List.Forall₂ (Renamed names) [(1, .start 1 none), (2, .host (.cancelAll []))] calls' ∧
        Retells (handleIn [neighbour, drowsy]) isNeighbour names calls' system retold ∧
        retold.IsStill ∧ (retold.executor 1).state = .cancelled := by
  have hcalls : (ofFragments [neighbour, drowsy] { slots := { free := 2 } }).Plays
      [(0, .start 0 none), (1, .start 1 none), (2, .host (.cancelAll []))] _ :=
    .call (.host (.cancelAll [])) rfl (.call (.start 1 none) rfl (.call (.start 0 none) rfl .begin))
  obtain ⟨system, hplays, hobserved⟩ := hcalls.exists_of_steps
    (List.replicate 4 0 ++ List.replicate 23 3 ++ List.replicate 4 1 ++ List.replicate 23 4 ++
      List.replicate 22 2 ++ List.replicate 28 3 ++ List.replicate 28 4)
    (fun system => (decide system.IsStill, (system.executor 1).state,
      system.threads.all Thread.isOver, tally Entry.isBreach (system.executor 0).journal))
    (true, .cancelled, true, 0) (by decide +kernel)
  simp only [Prod.mk.injEq, decide_eq_true_eq] at hobserved
  obtain ⟨hstill, hstate, hover, htrusted⟩ := hobserved
  have hsight : callsInSight [neighbour, drowsy] isNeighbour
      [(0, .start 0 none), (1, .start 1 none), (2, .host (.cancelAll []))] =
      [(1, .start 1 none), (2, .host (.cancelAll []))] := rfl
  have hsilent (fragment : Fragment) (hmem : fragment ∈ [neighbour, drowsy])
      (hveiled : isNeighbour fragment.identity.handle = true) :
      fragment.script.AnnouncesNothing := by
    rcases List.mem_pair.mp hmem with rfl | rfl
    · exact announcesNothing_drowsy
    · cases hveiled
  have hreturns (id : ExecutorId)
      (hveiled : isNeighbour (handleIn [neighbour, drowsy] id) = true) :
      (system.executor id).ReturnsFromReports := by
    rcases id with _ | _ | id
    · exact returnsFromReports_of_trusted htrusted
    · cases hveiled
    · cases hveiled
  obtain ⟨names, calls', retold, hretold, hrenamed, hretells, hrests⟩ :=
    hosted_fragments_do_not_interfere hplays hsilent hreturns
  have honly (id : ExecutorId) (_ : isNeighbour (handleIn [neighbour, drowsy] id) = true) :
      system.OnlyAdvances id := by
    intro thread call point hmem
    rw [frames_of_all_over hover] at hmem
    cases hmem
  have hsame := Executor.eq_of_seen Executor.state (fun _ => rfl) (hretells.executors 1 rfl)
  exact ⟨system, hplays, hstill, hstate, names, calls', retold, hretold, hsight ▸ hrenamed,
    hretells, (hrests hstill honly).1, hsame.trans hstate⟩

/-! ## A build that does not return -/

/-- Where steps of threads lead to. -/
inductive Runs : System → System → Prop
  | refl (system : System) : Runs system system
  | step {system next after : System} (thread : ThreadId)
      (hstep : system.step thread = some next) (hruns : Runs next after) : Runs system after

/-- Where calls lead to that are made in turn, each as soon as the system is at rest. -/
inductive PlaysInTurn : System → List Command → System → Prop
  | rest (system : System) : PlaysInTurn system [] system
  | call {system rest after : System} {commands : List Command} (command : Command)
      (hruns : (system.call command).Runs rest) (hrest : rest.IsStill)
      (hplays : PlaysInTurn rest commands after) : PlaysInTurn system (command :: commands) after

/-- The system after the given threads have taken a step each, if no other thread could. -/
def soleSteps (system : System) : List ThreadId → Option System
  | [] => some system
  | thread :: rest =>
      if ∀ other < system.threads.length, other ≠ thread → (system.step other).isNone = true then
        (system.step thread).bind fun next => next.soleSteps rest
      else none

section Sole

variable {system mid after : System} {threads : List ThreadId}

theorem Runs.eq_of_still (hruns : system.Runs after) (hstill : system.IsStill) :
    after = system := by
  cases hruns with
  | refl => rfl
  | step thread hstep =>
    rw [hstill thread] at hstep
    cases hstep

theorem Runs.of_soleSteps (hsole : system.soleSteps threads = some mid) : system.Runs mid := by
  induction threads generalizing system with
  | nil =>
    obtain rfl := Option.some.inj hsole
    exact .refl system
  | cons thread rest ih =>
    rw [soleSteps] at hsole
    split at hsole
    · obtain ⟨next, hstep, hrest⟩ := Option.bind_eq_some_iff.mp hsole
      exact .step thread hstep (ih hrest)
    · cases hsole

theorem Runs.of_servedSteps (hsteps : system.servedSteps threads = some mid) :
    system.Runs mid := by
  induction threads generalizing system with
  | nil =>
    obtain rfl := Option.some.inj hsteps
    exact .refl system
  | cons thread rest ih =>
    obtain ⟨next, hstep, hrest⟩ := Option.bind_eq_some_iff.mp hsteps
    split at hrest
    · exact .step thread hstep (ih hrest)
    · cases hrest

/-- Whoever comes to rest takes the steps that are the only ones there are. -/
theorem Runs.through_soleSteps (hruns : system.Runs after) (hstill : after.IsStill)
    (hsole : system.soleSteps threads = some mid) : mid.Runs after := by
  induction threads generalizing system with
  | nil =>
    obtain rfl := Option.some.inj hsole
    exact hruns
  | cons thread rest ih =>
    rw [soleSteps] at hsole
    split at hsole
    · rename_i hothers
      obtain ⟨next, hnext, hrest⟩ := Option.bind_eq_some_iff.mp hsole
      cases hruns with
      | refl =>
        rw [hstill thread] at hnext
        cases hnext
      | @step _ taken _ mover hstep hruns =>
        obtain rfl : mover = thread := by
          by_contra hother
          obtain ⟨frame, below, moved, hadvance⟩ := advance_of_step hstep
          have hborn : mover < system.threads.length :=
            lt_length_of_frames (by simp [hadvance.frames])
          have hstuck := hothers mover hborn hother
          rw [hstep] at hstuck
          cases hstuck
        obtain rfl := Option.some.inj (hstep.symm.trans hnext)
        exact ih hruns hrest
    · cases hsole

/-- A fragment that has stopped does not go on. -/
theorem Runs.stopped (hruns : system.Runs after) {id : ExecutorId}
    (hstopped : (system.executor id).state.continues = false) :
    (after.executor id).state.continues = false := by
  induction hruns with
  | refl => exact hstopped
  | step thread hstep _ ih =>
    obtain ⟨frame, rest, next, hadvance⟩ := advance_of_step hstep
    exact ih ((Frame.step_transition id hadvance.step).grows.stopped hstopped)

end Sole

/-- Calls made in turn, each with the only steps there are until the system is at rest. -/
def soleTurns (system : System) : List (Command × List ThreadId) → Option System
  | [] => some system
  | (command, threads) :: turns =>
      ((system.call command).soleSteps threads).bind fun rest =>
        if rest.IsStill then rest.soleTurns turns else none

theorem PlaysInTurn.of_soleTurns {system after : System} {turns : List (Command × List ThreadId)}
    (hturns : system.soleTurns turns = some after) :
    system.PlaysInTurn (turns.map Prod.fst) after := by
  induction turns generalizing system with
  | nil =>
    obtain rfl := Option.some.inj hturns
    exact .rest system
  | cons turn turns ih =>
    obtain ⟨rest, hsole, hrest⟩ := Option.bind_eq_some_iff.mp hturns
    split at hrest
    · exact .call turn.1 (.of_soleSteps hsole) ‹_› (ih hrest)
    · cases hrest

/-- The neighbour of the drowsy fragment, with a build that does not return. -/
def builder : Fragment :=
  { neighbour with script := { build := { outcome := .park } } }

theorem announcesNothing_builder : builder.script.AnnouncesNothing := by
  intro call nodes hplanned
  cases call <;> cases hplanned

/-- While a concealed fragment is being built, a cancellation of all fragments waits for it and
does not come to the others.  One of them goes on, which stops whenever the concealed one is
left out of the script. -/
theorem unreturned_build_interferes :
    (∃ system, (ofFragments [builder, drowsy] { slots := { free := 2 } }).PlaysInTurn
        [.start 0 none, .start 1 none, .host (.cancelAll [])] system ∧
      builder.script.AnnouncesNothing ∧ (system.executor 0).ReturnsFromReports ∧
      (system.executor 1).state = .running) ∧
    (∃ retold, (ofFragments [builder, drowsy] { slots := { free := 2 } }).PlaysInTurn
        [.start 1 none, .host (.cancelAll [])] retold ∧
      (retold.executor 1).state = .cancelled) ∧
    ∀ retold, (ofFragments [builder, drowsy] { slots := { free := 2 } }).PlaysInTurn
        [.start 1 none, .host (.cancelAll [])] retold →
      (retold.executor 1).state ≠ .running := by
  have hfull : ((ofFragments [builder, drowsy] { slots := { free := 2 } }).soleTurns
      [(.start 0 none, List.replicate 4 0 ++ List.replicate 8 1),
        (.start 1 none, List.replicate 4 2 ++ List.replicate 23 3),
        (.host (.cancelAll []), List.replicate 2 4)]).map
      (fun system => (tally Entry.isBreach (system.executor 0).journal,
        (system.executor 1).state)) = some (0, .running) := by
    decide +kernel
  have hreduced : ((ofFragments [builder, drowsy] { slots := { free := 2 } }).soleTurns
      [(.start 1 none, List.replicate 4 0 ++ List.replicate 23 1)]).map (fun rest =>
        (((rest.call (.host (.cancelAll []))).soleSteps (List.replicate 6 2)).map
          (fun mid => (mid.executor 1).state.continues),
        ((rest.call (.host (.cancelAll []))).servedSteps
          (List.replicate 12 2 ++ List.replicate 28 1)).map
          (fun retold => (decide retold.IsStill, (retold.executor 1).state)))) =
      some (some false, some (true, .cancelled)) := by
    decide +kernel
  obtain ⟨system, hsystem, hobserved⟩ := Option.map_eq_some_iff.mp hfull
  obtain ⟨htrusted, hrunning⟩ := Prod.mk.inj hobserved
  obtain ⟨rest, hrest, hobserved⟩ := Option.map_eq_some_iff.mp hreduced
  obtain ⟨hstops, hends⟩ := Prod.mk.inj hobserved
  obtain ⟨mid, hmid, hstopped⟩ := Option.map_eq_some_iff.mp hstops
  obtain ⟨retold, hretold, hobserved⟩ := Option.map_eq_some_iff.mp hends
  simp only [Prod.mk.injEq, decide_eq_true_eq] at hobserved
  obtain ⟨hstill, hcancelled⟩ := hobserved
  obtain ⟨first, hfirst, hrest⟩ := Option.bind_eq_some_iff.mp hrest
  split at hrest
  case isFalse => cases hrest
  case isTrue hfirstStill =>
    obtain rfl := Option.some.inj hrest
    refine ⟨⟨system, .of_soleTurns hsystem, announcesNothing_builder,
      returnsFromReports_of_trusted htrusted, hrunning⟩,
      ⟨retold, .call _ (.of_soleSteps hfirst) hfirstStill
        (.call _ (.of_servedSteps hretold) hstill (.rest _)), hcancelled⟩, ?_⟩
    intro later hplays
    cases hplays with
    | call _ hruns hrest hplays =>
      obtain rfl := (hruns.through_soleSteps hrest hfirst).eq_of_still hfirstStill
      cases hplays with
      | call _ hruns hrest hplays =>
        cases hplays
        have hlater := (hruns.through_soleSteps hrest hmid).stopped hstopped
        intro hstate
        rw [hstate] at hlater
        cases hlater

end FragmentLifecycle.System
