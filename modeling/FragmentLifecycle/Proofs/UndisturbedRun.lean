import FragmentLifecycle.Proofs.RunEnd
import FragmentLifecycle.Proofs.RunParts

/-!
# Runs that nothing disturbs

Without calls from outside, calls back and armed pauses, the script of a fragment fixes
every call that its run makes (`Fragment.trace`): the build, the advances up to the first
one that asks for no other, the alarm for an exhausted heap, the close of the tree and of
the context, and one report (`System.trace_of_undisturbed_run`).
-/

namespace FragmentLifecycle

/-! ## The trace of a script -/

namespace Script

/-- Whether the builder returns a tree. -/
def builds (script : Script) : Bool :=
  script.build.outcome.ending = .completed

/-- The first advance of the tree that does not ask for another one. -/
def lastAdvance (script : Script) : Nat :=
  script.steps.findIdx fun plan => plan.outcome != .more

/-- How the build ends, or the last advance where there is a tree. -/
def ending (script : Script) : Ending :=
  if script.builds then (script.planOf (.next script.lastAdvance)).outcome.ending
  else script.build.outcome.ending

/-- The calls up to the end of the build or of the last advance. -/
def driven (script : Script) : List Call :=
  .build ::
    if script.builds then
      .stateChanged .running :: (List.range (script.lastAdvance + 1)).map .next
    else []

/-- The calls that close the resources. -/
def closing (script : Script) : List Call :=
  if script.builds then [.closeRoot, .closeContext] else [.closeContext]

/-- What the close of the tree adds to the causes. -/
def closeCauses (script : Script) : List Fault :=
  if script.builds then script.closeRoot.outcome.ending.closeCause?.toList else []

end Script

namespace Fragment

/-- The report of a run that nothing disturbs. -/
def verdict (fragment : Fragment) : Call :=
  match fragment.script.ending.cause? with
  | none => .stateChanged .finished
  | some cause =>
      .fail (.ofCauses ⟨cause, fragment.script.closeCauses⟩ fragment.identity.endpoint
        fragment.identity.handle)

/-- Every call that a run makes on its collaborators if nothing disturbs it. -/
def trace (fragment : Fragment) : List Call :=
  fragment.script.driven ++ fragment.script.ending.alarm?.toList.map .exhausted ++
    fragment.script.closing ++ [fragment.verdict]

end Fragment

namespace Script

variable {script : Script}

theorem outcome_lastAdvance (script : Script) :
    (script.planOf (.next script.lastAdvance)).outcome ≠ .more := by
  cases hplan : script.steps[script.lastAdvance]? with
  | none => simp [planOf, hplan]
  | some plan =>
    obtain ⟨hlt, hget⟩ := List.getElem?_eq_some_iff.mp hplan
    have hstops : script.steps[script.lastAdvance].outcome != .more :=
      List.findIdx_getElem (w := hlt)
    rw [hget] at hstops
    simpa [planOf, hplan] using hstops

theorem outcome_of_lt_lastAdvance {index : Nat} (hlt : index < script.lastAdvance) :
    (script.planOf (.next index)).outcome = .more := by
  have hlength : index < script.steps.length := hlt.trans_le List.findIdx_le_length
  have hgoes := List.not_of_lt_findIdx hlt
  simpa [planOf, List.getElem?_eq_getElem hlength] using hgoes

end Script

/-! ## The whole run -/

section Whole

variable {fragment : Fragment} (thread : ThreadId) (id : ExecutorId) {world : World}

/-- The stage of a run once driving the tree has ended. -/
def Stage.driven (script : Script) : Stage where
  state := if script.builds then .running else .awaitingAllocation
  treeHeld := script.builds
  advances := if script.builds then script.lastAdvance + 1 else 0
  calls := script.driven

/-- A tree that has been built is advanced to the last advance. -/
theorem leads_tree (hquiet : fragment.script.IsQuiet) (hbuilds : fragment.script.builds = true)
    (more : Bool) (hbuilt : world.IsAt id fragment thread { calls := [.build] }) :
    ∃ world' listener, Leads thread world [.run id none .building, .perform id .run .waiting]
        (.replied (.progress more)) world'
        (settling id listener fragment.script.ending ++ [.perform id .run .waiting]) .go ∧
      world'.IsAt id fragment thread (.driven fragment.script) := by
  obtain ⟨watched, added, hwatch, hwatched⟩ := leads_watch [.perform id .run .waiting] hbuilt
  let announced : Stage :=
    { state := .running, treeHeld := true, calls := [.build, .stateChanged .running] }
  have hannounces : Runs fragment thread id { treeHeld := true, calls := [.build] }
      [.run id (some added) .announce, .perform id .run .waiting] .go announced
      [.run id (some added) .assumePrincipal, .perform id .run .waiting] .go :=
    .announce hquiet.others rfl
  obtain ⟨running, hannounce, hrunning⟩ := hannounces watched hwatched
  obtain ⟨assumed, previous, hassume, hassumed⟩ :=
    leads_assume (some added) [.perform id .run .waiting] rfl hrunning
  have hdrives : Runs fragment thread id announced
      [.run id (some added) (.check previous), .perform id .run .waiting] .go
      ({ announced with advances := announced.advances + fragment.script.lastAdvance + 1 }.called
        ((List.range' announced.advances (fragment.script.lastAdvance + 1)).map .next))
      [.run id (some added) (.restorePrincipal previous (fragment.script.planOf
        (.next (announced.advances + fragment.script.lastAdvance))).outcome.ending),
        .perform id .run .waiting] .go := by
    have hzero : announced.advances + fragment.script.lastAdvance = fragment.script.lastAdvance :=
      Nat.zero_add _
    refine .drive hquiet rfl _ (fun index hlt _ => ?_) ?_
    · exact Script.outcome_of_lt_lastAdvance (hzero ▸ hlt)
    · rw [hzero]
      exact fragment.script.outcome_lastAdvance
  obtain ⟨world', hleads, hat⟩ := (hdrives.trans (.restore _)) assumed hassumed
  have hending : fragment.script.ending = (fragment.script.planOf
      (.next fragment.script.lastAdvance)).outcome.ending := by
    rw [Script.ending, if_pos hbuilds]
  refine ⟨world', some added, .goto hbuilt.exit rfl (hwatch.trans (hannounce.trans
    (hassume.trans ?_))), ?_⟩
  · rw [hending]
    simpa [announced] using hleads
  · simpa [announced, Stage.driven, Stage.called, Script.driven, hbuilds, List.range_eq_range']
      using hat

/-- The run comes to the end of the build, or of driving the tree. -/
theorem leads_driven (hexit : world.exit = none)
    (hnew : world.executors id = .ofFragment fragment) (hquiet : fragment.script.IsQuiet) :
    ∃ world' listener, Leads thread world [.perform id .run .start] .go world'
        (settling id listener fragment.script.ending ++ [.perform id .run .waiting]) .go ∧
      world'.IsAt id fragment thread (.driven fragment.script) := by
  obtain ⟨begun, hbegin, hbegun⟩ := leads_begin thread hexit hnew
  have hbuilds : Runs fragment thread id {}
      [.call id .build .enter, .run id none .building, .perform id .run .waiting] .go
      { calls := [.build] } [.run id none .building, .perform id .run .waiting]
      (fragment.script.build.outcome.signal .build) :=
    .collaborator .build hquiet.build (by simp) (by simp)
  obtain ⟨built, hbuild, hbuilt⟩ := hbuilds begun hbegun
  have hbuild := hbegin.trans hbuild
  have hfails (hcompleted : fragment.script.build.outcome.ending ≠ .completed) :
      Stage.driven fragment.script = { calls := [.build] } ∧
        fragment.script.ending = fragment.script.build.outcome.ending := by
    simp [Stage.driven, Script.builds, Script.driven, Script.ending, hcompleted]
  cases houtcome : fragment.script.build.outcome with
  | park => exact absurd houtcome hquiet.build.ends
  | more | done =>
    rw [houtcome] at hbuild
    obtain ⟨world', listener, htree, hat⟩ :=
      leads_tree thread id hquiet (by simp [Script.builds, houtcome, Outcome.ending]) _ hbuilt
    exact ⟨world', listener, hbuild.trans htree, hat⟩
  | error fault =>
    rw [houtcome] at hbuild hfails
    obtain ⟨hstage, hending⟩ := hfails (by simp [Outcome.ending])
    rw [hstage, hending]
    exact ⟨built, none, hbuild.trans (.goto hbuilt.exit rfl .refl), hbuilt⟩
  | panic payload =>
    rw [houtcome] at hbuild hfails
    obtain ⟨hstage, hending⟩ := hfails (by simp [Outcome.ending])
    rw [hstage, hending]
    exact ⟨built, none, hbuild.trans (.call hbuilt.exit rfl .refl), hbuilt⟩

/-- Once an ending is settled, the fragment has finished, or failed where there is a cause. -/
theorem Stage.state_settled (script : Script) (ending : Ending) :
    ((driven script).settled ending).state =
      if ending.cause? = none then .finished else .failed := by
  unfold settled
  cases ending.cause? <;> cases hbuilds : script.builds <;>
    simp only [called, failed, requested, driven, hbuilds] <;> rfl

/-- The run comes to its end by one report. -/
theorem leads_verdict (hquiet : fragment.script.IsQuiet) (listener : Option ListenerId)
    (hat : world.IsAt id fragment thread
      (((Stage.driven fragment.script).settled fragment.script.ending).closed fragment)) :
    ∃ world' reply, Leads thread world [.run id listener .conclude, .perform id .run .waiting] .go
        world' [] (.replied reply) ∧
      (world'.executors id).course = .ended thread ∧
      callsMade (world'.executors id).journal = fragment.trace.map (Prod.mk thread) := by
  obtain ⟨hexit, hat⟩ := hat
  cases hcause : fragment.script.ending.cause? with
  | none =>
    have hstate : (world.executors id).state = .finished :=
      hat.state.trans ((Stage.state_settled _ _).trans (if_pos hcause))
    have hcalls : callsMade (world.executors id).journal =
        (fragment.script.driven ++ fragment.script.closing).map (Prod.mk thread) := by
      rw [hat.calls]
      simp [Stage.closed, Stage.settled, hcause, Stage.requested, Stage.driven, Script.closing]
    have halarm := fragment.script.ending.alarm?_of_completed hcause
    obtain ⟨world', reply, hleads, -, hcourse, hmade⟩ := leads_run_unfailed thread id listener hexit
      (by rw [hstate]; decide) (by rw [hat.fragment]; exact hquiet.others.onReport _)
    refine ⟨world', reply, hleads, hcourse, ?_⟩
    rw [hmade, hcalls, hstate]
    simp [Fragment.trace, Fragment.verdict, hcause, halarm]
  | some cause =>
    have hstate : (world.executors id).state = .failed :=
      hat.state.trans ((Stage.state_settled _ _).trans (if_neg (by simp [hcause])))
    have hcauses : (world.executors id).lifecycle.failures.pending =
        (⟨cause, fragment.script.closeCauses⟩ : Composite).causes := by
      rw [hat.causes]
      simp [Stage.closed, Stage.settled, hcause, Stage.failed, Stage.called, Stage.requested,
        Stage.driven, Script.closeCauses, Composite.causes]
    have hcalls : callsMade (world.executors id).journal =
        (fragment.script.driven ++ fragment.script.ending.alarm?.toList.map Call.exhausted ++
          fragment.script.closing).map (Prod.mk thread) := by
      rw [hat.calls]
      simp [Stage.closed, Stage.settled, hcause, Stage.failed, Stage.called, Stage.requested,
        Stage.driven, Script.closing]
    obtain ⟨world', reply, hleads, -, hcourse, hmade⟩ := leads_run_failed thread id listener hexit
      hstate _ hcauses (by rw [hat.fragment]; exact hquiet.others.onReport _)
    refine ⟨world', reply, hleads, hcourse, ?_⟩
    rw [hmade, hcalls]
    simp [Fragment.trace, Fragment.verdict, hcause, Executor.failureReport, Executor.handle,
      hat.fragment]

/-- The run makes every call of its trace and comes to its end. -/
theorem leads_trace (hexit : world.exit = none)
    (hnew : world.executors id = .ofFragment fragment) (hquiet : fragment.script.IsQuiet)
    (hpolicy : fragment.script.ending.alarm? ≠ none → fragment.heapPolicy = .report) :
    ∃ world' reply, Leads thread world [.perform id .run .start] .go world' [] (.replied reply) ∧
      (world'.executors id).course = .ended thread ∧
      callsMade (world'.executors id).journal = fragment.trace.map (Prod.mk thread) := by
  obtain ⟨driven, listener, hdrive, hdriven⟩ := leads_driven thread id hexit hnew hquiet
  have hover : ((Stage.driven fragment.script).settled fragment.script.ending).state = .finished ∨
      ((Stage.driven fragment.script).settled fragment.script.ending).state = .failed := by
    rw [Stage.state_settled]
    split
    · exact .inl rfl
    · exact .inr rfl
  have hopen : ((Stage.driven fragment.script).settled fragment.script.ending).resourcesClosed =
      false ∧
      ((Stage.driven fragment.script).settled fragment.script.ending).contextClosed = false := by
    unfold Stage.settled
    split <;> exact ⟨rfl, rfl⟩
  have hcloses : Runs fragment thread id (.driven fragment.script)
      (settling id listener fragment.script.ending ++ [.perform id .run .waiting]) .go
      (((Stage.driven fragment.script).settled fragment.script.ending).closed fragment)
      [.run id listener .conclude, .perform id .run .waiting] .go :=
    (Runs.settle hquiet _ hpolicy).trans (.close hquiet hopen.1 hopen.2 hover rfl)
  obtain ⟨closed, hclose, hclosed⟩ := hcloses driven hdriven
  obtain ⟨world', reply, hleads, hend⟩ := leads_verdict thread id hquiet listener hclosed
  exact ⟨world', reply, hdrive.trans (hclose.trans hleads), hend⟩

/-- Where the process exits for an exhausted heap, it does so once driving has ended. -/
theorem leads_heap_exit (hexit : world.exit = none)
    (hnew : world.executors id = .ofFragment fragment) (hquiet : fragment.script.IsQuiet)
    {exhaustion : OutOfMemory} (halarm : fragment.script.ending.alarm? = some exhaustion)
    {code : Int} (hpolicy : fragment.heapPolicy = .exit code) :
    ∃ world' frames, Leads thread world [.perform id .run .start] .go world' frames .go ∧
      world'.exit = some (heapExit code exhaustion) ∧
      callsMade (world'.executors id).journal = fragment.script.driven.map (Prod.mk thread) := by
  obtain ⟨driven, listener, hdrive, hdriven⟩ := leads_driven thread id hexit hnew hquiet
  cases hending : fragment.script.ending with
  | completed | panicked =>
    rw [hending] at halarm
    cases halarm
  | failed fault =>
    rw [hending] at halarm hdrive
    obtain ⟨hfault, hrecoverable⟩ := Option.filter_eq_some_iff.mp halarm
    have halarms (view : LockView) :
        (Frame.run id listener (.settleFault fault)).step driven view thread .go =
          some (driven, .call (.run id listener (.alarming exhaustion))
            (.call id (.exhausted exhaustion) .enter)) := by
      simp_all [Frame.step, stepRun, stepDrive, RunPoint.inSetup, RunPoint.inWindDown,
        RunPoint.holdsSetup]
    let exited := { driven.note (.heapExhausted exhaustion.text) with
      exit := some (heapExit code exhaustion) }
    have hexits (view : LockView) :
        (Frame.call id (.exhausted exhaustion) .enter).step driven view thread .go =
          some (exited, .goto (.call id (.exhausted exhaustion) .enter)) := by
      simp [exited, Frame.step, stepCall, stepEnter, hdriven.executor.fragment, hpolicy]
    exact ⟨exited, _, hdrive.trans (.call hdriven.exit (halarms _)
      (.goto hdriven.exit (hexits _) .refl)), rfl, hdriven.executor.calls⟩

end Whole

namespace System

variable {system : System} {id : ExecutorId} {fragment : Fragment}

/-- A run that nothing disturbs.  Where the heap is not exhausted, or the handler for that
returns, the run comes to its end, and the calls that it has made are those of the trace: the
build; if that gives a tree, the report that it runs, every advance up to the first one that
asks for no other, and the close of the tree; the close of the context; and one report, of the
end or of the failure with what the close of the tree added to it.  The alarm for an exhausted
heap is raised once, before the closes, if the failure is an error that carries it.  Where the
handler exits, the process ends at that point. -/
theorem trace_of_undisturbed_run (hidle : system.IsIdle) (hexit : system.world.exit = none)
    (hnew : system.executor id = .ofFragment fragment) (hquiet : fragment.script.IsQuiet) :
    ((fragment.script.ending.alarm? ≠ none → fragment.heapPolicy = .report) →
      (∃ after, system.Performs (.act id .run) after) ∧
      ∀ after, system.Performs (.act id .run) after →
        (after.executor id).course = .ended system.threads.length ∧
        callsMade (after.executor id).journal =
          fragment.trace.map (Prod.mk system.threads.length)) ∧
      ∀ exhaustion code, fragment.script.ending.alarm? = some exhaustion →
        fragment.heapPolicy = .exit code →
        ∃ count stopped,
          (system.call (.act id .run)).moves
              (List.replicate count (.step system.threads.length)) = some stopped ∧
            stopped.world.exit = some (heapExit code exhaustion) ∧
            callsMade (stopped.executor id).journal =
              fragment.script.driven.map (Prod.mk system.threads.length) := by
  constructor
  · intro hpolicy
    obtain ⟨world', reply, hleads, hcourse, hmade⟩ :=
      leads_trace system.threads.length id hexit hnew hquiet hpolicy
    obtain ⟨after, hperforms, -, rfl, -⟩ := hidle.performs (.act id .run) hleads
    refine ⟨⟨after, hperforms⟩, fun other hother => ?_⟩
    obtain rfl := hperforms.unique hother
    exact ⟨hcourse, hmade⟩
  · intro exhaustion code halarm hpolicy
    obtain ⟨world', frames, hleads, hstopped, hmade⟩ :=
      leads_heap_exit system.threads.length id hexit hnew hquiet halarm hpolicy
    obtain ⟨count, stopped, hmoves, -, rfl, -⟩ := hidle.moves_of_leads (.act id .run) hleads
    exact ⟨count, stopped, hmoves, hstopped, hmade⟩

/-- The second advance fails with an exhausted heap, and the close of the tree panics. -/
theorem trace_of_undisturbed_run_of_exhausted_heap :
    ∃ fragment after, (ofFragments [fragment] { slots := { free := 0 } }).Performs
        (.act 0 .run) after ∧
      callsMade (after.executor 0).journal =
        [(0, .build), (0, .stateChanged .running), (0, .next 0), (0, .next 1),
          (0, .exhausted ⟨.heap, "full"⟩), (0, .closeRoot), (0, .closeContext),
          (0, .fail (.ofCauses
            ⟨.execution (.memory ⟨.heap, "full"⟩), [panicFault (.text "boom")]⟩
            fragment.identity.endpoint fragment.identity.handle))] := by
  let script : Script :=
    { steps := [{ outcome := .more }, { outcome := .error (.outOfMemory ⟨.heap, "full"⟩) }]
      closeRoot := { outcome := .panic (.text "boom") } }
  let fragment : Fragment := { Fragment.vacant with script }
  have hreturns (plan : Plan) (hplan : plan = {}) : plan.IsPassive := by
    subst hplan
    exact ⟨by simp, ⟨_, rfl⟩, by simp⟩
  have hends (outcome : Outcome) (hends : outcome ≠ .park) : Plan.IsQuiet { outcome } :=
    ⟨by simp, hends⟩
  have hquiet : fragment.script.IsQuiet :=
    { build := (hreturns _ rfl).isQuiet
      steps := by
        intro plan hmem
        rcases List.mem_pair.mp hmem with rfl | rfl <;> exact hends _ (by simp)
      closeRoot := hends _ (by simp)
      exhausted := hreturns _ rfl
      others := ⟨hreturns _ rfl, fun _ => hreturns _ rfl⟩ }
  have hidle : (ofFragments [fragment] { slots := { free := 0 } }).IsIdle := fun _ => rfl
  have hnew : (ofFragments [fragment] { slots := { free := 0 } }).executor 0 =
      .ofFragment fragment := rfl
  obtain ⟨⟨after, hperforms⟩, hall⟩ :=
    (trace_of_undisturbed_run hidle rfl hnew hquiet).1 fun _ => rfl
  exact ⟨fragment, after, hperforms, (hall after hperforms).2⟩

example : ({ Fragment.vacant with script.build.outcome := .panic .other } : Fragment).trace =
    [.build, .closeContext, .fail (.ofCauses ⟨.execution (.panicked "unknown panic"), []⟩
      Fragment.vacant.identity.endpoint Fragment.vacant.identity.handle)] := by
  rfl

end System

end FragmentLifecycle
