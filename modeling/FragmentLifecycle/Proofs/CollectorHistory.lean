import FragmentLifecycle.Fault.Collector
import Mathlib.Data.List.DropRight

/-!
# Histories of a collector

The calls made on a new collector, one after another; each is one critical section, so the calls
of any number of threads are such a list.  What waits is what has been appended since the last
drain (`Collector.pending_after`), and every reply is told by that alone.  A cause is delivered by
the first drain after it, at the place that the causes before it leave
(`Collector.undrained_append`).
-/

namespace FragmentLifecycle

namespace Composite

theorem count_eq_length_causes (composite : Composite) :
    composite.count = composite.causes.length :=
  Nat.add_comm _ _

end Composite

namespace Collector

/-- The collector after `calls`, from a new one on. -/
def after (calls : List Call) : Collector :=
  calls.foldl (fun collector call => (collector.perform call).2) {}

/-- The replies to `calls`, made on a new collector. -/
def replies (calls : List Call) : List Reply :=
  (performAll {} calls).map Prod.fst

def Call.cause? : Call → Option Fault
  | .append cause => some cause
  | .primary | .drain => none

def Reply.composite? : Reply → Option Composite
  | .drained composite => some composite
  | .none | .cause _ => Option.none

/-- The causes that calls append, in order. -/
def appended (calls : List Call) : List Fault :=
  calls.filterMap Call.cause?

/-- The causes appended since the last drain, or by all calls where there is none. -/
def undrained (calls : List Call) : List Fault :=
  appended (calls.rtakeWhile (· ≠ .drain))

/-- The composites that calls get, in order. -/
def composites (calls : List Call) : List Composite :=
  (replies calls).filterMap Reply.composite?

section Append

variable (calls before middle later : List Call) (call : Call) (cause : Fault)

theorem appended_append :
    appended (before ++ later) = appended before ++ appended later :=
  List.filterMap_append

theorem undrained_snoc :
    undrained (calls ++ [call]) =
      if call = .drain then [] else undrained calls ++ appended [call] := by
  unfold undrained
  rw [List.rtakeWhile_concat]
  by_cases hdrain : call = .drain <;> simp [hdrain, appended]

/-- Without a drain in between, what is appended comes behind what waits. -/
theorem undrained_append (hdrain : .drain ∉ later) :
    undrained (before ++ later) = undrained before ++ appended later := by
  induction later using List.reverseRecOn with
  | nil => simp [appended]
  | append_singleton later call ih =>
    obtain ⟨hlater, hcall⟩ := not_or.mp (mt List.mem_append.mpr hdrain)
    rw [← List.append_assoc, undrained_snoc, if_neg fun hsame => hcall (by simp [hsame]), ih hlater,
      appended_append, List.append_assoc]

theorem after_snoc : after (calls ++ [call]) = ((after calls).perform call).2 :=
  List.foldl_append

theorem performAll_append (collector : Collector) :
    collector.performAll (before ++ later) = collector.performAll before ++
      (before.foldl (fun collector call => (collector.perform call).2) collector).performAll
        later := by
  induction before generalizing collector with
  | nil => rfl
  | cons first rest ih => exact congrArg (collector.perform first :: ·) (ih _)

theorem length_performAll (collector : Collector) :
    (collector.performAll calls).length = calls.length := by
  induction calls generalizing collector with
  | nil => rfl
  | cons first rest ih => exact congrArg (· + 1) (ih _)

theorem performAll_new_snoc :
    performAll {} (calls ++ [call]) = performAll {} calls ++ [(after calls).perform call] :=
  performAll_append calls [call] {}

theorem replies_snoc :
    replies (calls ++ [call]) = replies calls ++ [((after calls).perform call).1] := by
  rw [replies, performAll_new_snoc, List.map_append]
  rfl

/-- What is replied to a call depends on the calls before it. -/
theorem getElem?_performAll :
    (performAll {} (before ++ call :: later))[before.length]? =
      some ((after before).perform call) := by
  rw [performAll_append, List.getElem?_append_right (length_performAll ..).le, length_performAll,
    Nat.sub_self]
  rfl

theorem getElem?_replies :
    (replies (before ++ call :: later))[before.length]? =
      some ((after before).perform call).1 := by
  rw [replies, List.getElem?_map, getElem?_performAll]
  rfl

end Append

section Histories

variable (calls : List Call)

/-- What one call leaves waiting. -/
theorem pending_perform (collector : Collector) (call : Call) :
    (collector.perform call).2.pending =
      if call = .drain then [] else collector.pending ++ appended [call] := by
  obtain ⟨pending⟩ := collector
  cases call with
  | append cause => rfl
  | primary => exact (List.append_nil pending).symm
  | drain => cases pending <;> rfl

theorem pending_after : (after calls).pending = undrained calls := by
  induction calls using List.reverseRecOn with
  | nil => rfl
  | append_singleton calls call ih => rw [after_snoc, pending_perform, undrained_snoc, ih]

theorem isEmpty_after : (after calls).isEmpty = true ↔ undrained calls = [] := by
  rw [isEmpty, pending_after, List.isEmpty_iff]

theorem perform_primary (collector : Collector) :
    (collector.perform .primary).1 =
      match collector.pending.head? with
      | some cause => .cause cause
      | none => .none :=
  rfl

theorem perform_drain_eq_none (collector : Collector) :
    (collector.perform .drain).1 = .none ↔ collector.pending = [] := by
  obtain ⟨pending⟩ := collector
  cases pending <;> simp [perform, drain]

theorem perform_drain_eq_drained (collector : Collector) (composite : Composite) :
    (collector.perform .drain).1 = .drained composite ↔ composite.causes = collector.pending := by
  obtain ⟨pending⟩ := collector
  obtain ⟨primary, suppressed⟩ := composite
  cases pending <;> simp [perform, drain, Composite.causes, eq_comm]

/-- A call delivers what it takes out of the collector. -/
theorem delivered_perform (collector : Collector) (call : Call) :
    ((collector.perform call).1.composite?.toList.flatMap Composite.causes) ++
        (collector.perform call).2.pending =
      collector.pending ++ appended [call] := by
  obtain ⟨pending⟩ := collector
  cases call with
  | append cause => rfl
  | primary => cases pending <;> simp [perform, primary?, Reply.composite?, appended, Call.cause?]
  | drain =>
    cases pending <;>
      simp [perform, drain, Reply.composite?, appended, Call.cause?, Composite.causes]

/-- Nothing is lost, delivered twice or put in another order. -/
theorem delivered_append_pending :
    (composites calls).flatMap Composite.causes ++ (after calls).pending = appended calls := by
  induction calls using List.reverseRecOn with
  | nil => rfl
  | append_singleton calls call ih =>
    rw [composites, replies_snoc, List.filterMap_append, List.flatMap_append, after_snoc,
      appended_append, ← ih, List.append_assoc, List.append_assoc, ← composites]
    congr 1
    rw [← delivered_perform]
    rfl

end Histories

/-- A collector neither loses, duplicates nor reorders causes.  After any calls on a new one, the
causes of all composites, in the order of the drains, followed by those that wait, are the causes
that were appended.  A call for the primary cause gets the first one appended since the last
drain, if there is one; a drain gets nothing exactly where there is none, and else the composite
of all of them; the collector is empty exactly where there is none, whenever it is asked.  A
composite counts its causes, the primary one first.  So a cause stands in the composite of the
first drain after it, behind those that waited before it, or waits until there is one. -/
theorem causes_delivered_once (calls : List Call) :
    (composites calls).flatMap Composite.causes ++ (after calls).pending = appended calls ∧
      (∀ composite ∈ composites calls, composite.count = composite.causes.length ∧
        composite.causes.head? = some composite.primary) ∧
      (∀ before call later, calls = before ++ call :: later →
        (performAll {} calls)[before.length]?.map Prod.snd = some (after (before ++ [call])) ∧
        ((after before).isEmpty = true ↔ undrained before = []) ∧
        (call = .primary →
          (∀ cause, (replies calls)[before.length]? = some (.cause cause) ↔
            (undrained before).head? = some cause) ∧
          ((replies calls)[before.length]? = some .none ↔ undrained before = [])) ∧
        (call = .drain →
          ((replies calls)[before.length]? = some .none ↔ undrained before = []) ∧
          ∀ composite, (replies calls)[before.length]? = some (.drained composite) ↔
            composite.causes = undrained before)) ∧
      ∀ before cause later, calls = before ++ .append cause :: later →
        (.drain ∉ later → (after calls).pending[(undrained before).length]? = some cause) ∧
        ∀ middle rest, later = middle ++ .drain :: rest → .drain ∉ middle →
          ∃ composite,
            (replies calls)[(before ++ .append cause :: middle).length]? =
                some (.drained composite) ∧
              composite.causes[(undrained before).length]? = some cause := by
  refine ⟨delivered_append_pending calls, fun composite _ => ?_, ?_, ?_⟩
  · exact ⟨composite.count_eq_length_causes, rfl⟩
  · rintro before call later rfl
    rw [getElem?_performAll, getElem?_replies, after_snoc]
    refine ⟨rfl, isEmpty_after before, ?_, ?_⟩
    · rintro rfl
      rw [perform_primary, pending_after]
      cases undrained before <;> simp
    · rintro rfl
      simp only [Option.some.injEq]
      rw [perform_drain_eq_none, pending_after]
      refine ⟨Iff.rfl, fun composite => ?_⟩
      rw [perform_drain_eq_drained, pending_after]
  · rintro before cause later rfl
    have hwaits (middle : List Call) (hmiddle : .drain ∉ middle) :
        (undrained (before ++ .append cause :: middle))[(undrained before).length]? =
          some cause := by
      rw [undrained_append _ _ (by simpa using hmiddle), List.getElem?_append_right le_rfl,
        Nat.sub_self]
      rfl
    refine ⟨fun hlater => ?_, ?_⟩
    · rw [pending_after]
      exact hwaits later hlater
    · rintro middle rest rfl hmiddle
      have hcause := hwaits middle hmiddle
      rw [← List.cons_append, ← List.append_assoc, getElem?_replies]
      cases hundrained : undrained (before ++ .append cause :: middle) with
      | nil => rw [hundrained] at hcause; cases hcause
      | cons primary suppressed =>
        rw [hundrained] at hcause
        refine ⟨⟨primary, suppressed⟩, congrArg some ?_, hcause⟩
        rw [perform_drain_eq_drained, pending_after, hundrained]
        rfl

/-- Two threads append around a drain, and the second drain finds nothing. -/
example (first second third : Fault) :
    composites [.append first, .append second, .drain, .append third, .drain, .drain] =
      [⟨first, [second]⟩, ⟨third, []⟩] := rfl

end Collector

end FragmentLifecycle
