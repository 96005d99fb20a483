import FragmentLifecycle.Cluster.Membership
import Mathlib.Data.List.Nodup

/-!
# Histories of a membership registry

What listeners are told and what they do while they are told it, one step after another.  A
walk is laid out when it begins, from the listeners registered then, so what they do meanwhile
changes who is registered and not who is called.  The registry is a matter of its history: it
holds the listeners that were added and not removed, in the order in which they were added
(`Cluster.Recounted`), as long as the words that identify them last.
-/

namespace FragmentLifecycle

/-! ## One removal -/

namespace Registry

variable {Id α : Type} [DecidableEq Id] (registry : Registry Id α) (id : Id)

theorem found_iff : (registry.remove id).1 = true ↔ id ∈ registry.listeners.map Prod.fst := by
  simp [remove, List.length_filter_eq_length_iff]

/-- A removal that finds nothing changes nothing. -/
theorem remove_of_missing (hmissing : (registry.remove id).1 = false) :
    (registry.remove id).2.listeners = registry.listeners := by
  refine List.filter_eq_self.mpr ?_
  simpa [remove, List.length_filter_eq_length_iff] using hmissing

/-- A removal takes out one listener at most where no identifier was given twice. -/
theorem count_remove (hnodup : (registry.listeners.map Prod.fst).Nodup) :
    (registry.remove id).2.count + (registry.remove id).1.toNat = registry.count := by
  have hsplit := List.length_eq_countP_add_countP (fun entry : Id × α => entry.1 != id)
    (l := registry.listeners)
  have hcount : registry.listeners.countP (fun entry => ¬(entry.1 != id) = true) =
      (registry.listeners.map Prod.fst).count id := by
    rw [List.count_eq_countP, List.countP_map]
    exact List.countP_congr fun entry _ => by simp
  have hkept : (registry.remove id).2.count =
      registry.listeners.countP fun entry => entry.1 != id :=
    List.countP_eq_length_filter.symm
  rw [hkept, count, hsplit, hcount, hnodup.count]
  by_cases hmem : id ∈ registry.listeners.map Prod.fst
  · rw [if_pos hmem, (found_iff registry id).mpr hmem]
    rfl
  · rw [if_neg hmem, Bool.eq_false_iff.mpr (mt (found_iff registry id).mp hmem)]
    rfl

end Registry

namespace Cluster

/-- What a listener does in a walk, or what is done from outside. -/
inductive Deed where
  | hear (change : Change) (nodes : NodeSet)
  | act (action : ListenerAction)

/-- A deed with the listener that does it, if it is not done from outside. -/
structure Turn where
  actor : Option Listener
  deed : Deed

inductive Event where
  | called (change : Change) (nodes : NodeSet)
  | added (id : ListenerId) (listener : Listener)
  | removed (id : ListenerId) (found : Bool)
  | unknown

/-- What the listener called `name` sees of what it does. -/
def Event.trace (name : String) : Event → Trace
  | .called change nodes => .called name change nodes
  | .added id _ => .added name (.added id)
  | .removed _ found => .removed name (.removed found)
  | .unknown => .removed name .unknown

/-- What came of a turn, with the cluster before and after it. -/
structure Step where
  actor : Option Listener
  event : Event
  before : Cluster
  after : Cluster

namespace Step

def trace? (step : Step) : Option Trace :=
  step.actor.map fun listener => step.event.trace listener.name

/-- What is answered to a call from outside. -/
def outcome? (step : Step) : Option Outcome :=
  match step.actor, step.event with
  | none, .added id _ => some (.added id)
  | none, .removed _ found => some (.removed found)
  | none, .unknown => some .unknown
  | _, _ => none

/-- The listener that is called, with the change it is told. -/
def heard? (step : Step) : Option (Listener × Change × NodeSet) :=
  match step.actor, step.event with
  | some listener, .called change nodes => some (listener, change, nodes)
  | _, _ => none

/-- The identifier that is given, with the listener it is given to. -/
def given? (step : Step) : Option (ListenerId × Listener) :=
  match step.event with
  | .added id listener => some (id, listener)
  | _ => none

/-- The identifier whose listener is removed. -/
def dropped? (step : Step) : Option ListenerId :=
  match step.event with
  | .removed id true => some id
  | _ => none

end Step

def given (log : List Step) : List (ListenerId × Listener) :=
  log.filterMap Step.given?

def dropped (log : List Step) : List ListenerId :=
  log.filterMap Step.dropped?

/-- The listeners that were added and not removed, in the order in which they were added. -/
def registered (log : List Step) : List (ListenerId × Listener) :=
  (given log).filter fun entry => entry.1 ∉ dropped log

section Play

variable (cluster : Cluster)

def removal (id : ListenerId) : Event :=
  .removed id (cluster.registry.remove id).1

def eventOf : Deed → Event
  | .hear change nodes => .called change nodes
  | .act (.add listener) => .added cluster.registry.nextId listener
  | .act (.remove name) =>
      match cluster.known.lookup name with
      | none => .unknown
      | some id => cluster.removal id
  | .act (.removeId id) => cluster.removal id

def next : Deed → Cluster
  | .hear _ _ => cluster
  | .act (.add listener) => (cluster.add listener).2
  | .act (.remove name) => (cluster.remove name).2
  | .act (.removeId id) => (cluster.removeId id).2

def step (turn : Turn) : Step :=
  ⟨turn.actor, cluster.eventOf turn.deed, cluster, cluster.next turn.deed⟩

/-- Turns taken one after another. -/
def play : Cluster → List Turn → List Step
  | _, [] => []
  | cluster, turn :: rest => cluster.step turn :: (cluster.next turn.deed).play rest

def afterTurns (turns : List Turn) : Cluster :=
  turns.foldl (fun current turn => current.next turn.deed) cluster

theorem afterTurns_cons (turn : Turn) (rest : List Turn) :
    cluster.afterTurns (turn :: rest) = (cluster.next turn.deed).afterTurns rest :=
  rfl

theorem afterTurns_append (turns later : List Turn) :
    cluster.afterTurns (turns ++ later) = (cluster.afterTurns turns).afterTurns later :=
  List.foldl_append

theorem play_append (turns later : List Turn) :
    cluster.play (turns ++ later) =
      cluster.play turns ++ (cluster.afterTurns turns).play later := by
  induction turns generalizing cluster with
  | nil => rfl
  | cons turn rest ih => exact congrArg (cluster.step turn :: ·) (ih _)

end Play

/-- The turns of a listener that is told of a change. -/
def turnsOf (change : Change) (nodes : NodeSet) (listener : Listener) : List Turn :=
  ⟨some listener, .hear change nodes⟩ ::
    (listener.actionsOn change).map fun action => ⟨some listener, .act action⟩

/-- The turns of a call, laid out when it begins. -/
def turns (cluster : Cluster) : Call → List Turn
  | .add listener => [⟨none, .act (.add listener)⟩]
  | .remove name => [⟨none, .act (.remove name)⟩]
  | .removeId id => [⟨none, .act (.removeId id)⟩]
  | .notify change nodes =>
      (cluster.registry.snapshot.filter (·.hears change)).flatMap (turnsOf change nodes)

/-- What happens in a call. -/
def steps (cluster : Cluster) (call : Call) : List Step :=
  cluster.play (cluster.turns call)

/-- The cluster after calls made one after another. -/
def afterCalls (cluster : Cluster) (calls : List Call) : Cluster :=
  calls.foldl (fun current call => (current.perform call).2.2) cluster

/-- What happens in calls made one after another. -/
def history : Cluster → List Call → List Step
  | _, [] => []
  | cluster, call :: rest => cluster.steps call ++ (cluster.perform call).2.2.history rest

/-! ## Walks by turns -/

/-- Each step is one of the turns. -/
theorem exists_turn_of_mem_play {cluster : Cluster} {turns : List Turn} {step : Step}
    (hstep : step ∈ cluster.play turns) : ∃ turn ∈ turns, step.actor = turn.actor := by
  induction turns generalizing cluster with
  | nil => cases hstep
  | cons turn rest ih =>
      rcases List.mem_cons.mp hstep with rfl | hlater
      · exact ⟨turn, List.mem_cons_self, rfl⟩
      · obtain ⟨other, hother, hactor⟩ := ih hlater
        exact ⟨other, List.mem_cons_of_mem turn hother, hactor⟩

theorem actor_of_mem_turnsOf {change : Change} {nodes : NodeSet} {listener : Listener}
    {turn : Turn} (hturn : turn ∈ turnsOf change nodes listener) : turn.actor = some listener := by
  rcases List.mem_cons.mp hturn with rfl | haction
  · rfl
  · obtain ⟨action, -, rfl⟩ := List.mem_map.mp haction
    rfl

section Walk

variable (cluster : Cluster) (change : Change) (nodes : NodeSet) (listener : Listener)

/-- What comes of the turns of a listener is seen by it. -/
theorem traces_cons (deed : Deed) (rest : List Turn) :
    (cluster.play (⟨some listener, deed⟩ :: rest)).filterMap Step.trace? =
      (cluster.eventOf deed).trace listener.name ::
        ((cluster.next deed).play rest).filterMap Step.trace? :=
  List.filterMap_cons_some rfl

/-- A listener sees what comes of its first action, then what comes of the others. -/
theorem act_cons (action : ListenerAction) (rest : List ListenerAction) :
    cluster.act listener.name (action :: rest) =
      ((cluster.eventOf (.act action)).trace listener.name ::
          ((cluster.next (.act action)).act listener.name rest).1,
        ((cluster.next (.act action)).act listener.name rest).2) := by
  cases action with
  | add other => rfl
  | removeId id => rfl
  | remove name =>
      cases hknown : cluster.known.lookup name <;>
        simp [act, eventOf, next, remove, removal, removeId, Event.trace, hknown]

theorem act_eq (actions : List ListenerAction) :
    cluster.act listener.name actions =
      ((cluster.play (actions.map fun action => ⟨some listener, .act action⟩)).filterMap
          Step.trace?,
        cluster.afterTurns (actions.map fun action => ⟨some listener, .act action⟩)) := by
  induction actions generalizing cluster with
  | nil => rfl
  | cons action rest ih =>
      rw [act_cons, ih, List.map_cons, traces_cons]
      rfl

theorem notifyEach_eq (listeners : List Listener) :
    cluster.notifyEach change nodes listeners =
      ((cluster.play ((listeners.filter (·.hears change)).flatMap
          (turnsOf change nodes))).filterMap Step.trace?,
        cluster.afterTurns ((listeners.filter (·.hears change)).flatMap
          (turnsOf change nodes))) := by
  induction listeners generalizing cluster with
  | nil => rfl
  | cons listener rest ih =>
      rw [notifyEach, List.filter_cons]
      cases hhears : listener.hears change with
      | false => exact ih cluster
      | true =>
          rw [if_pos rfl, if_pos rfl, List.flatMap_cons, turnsOf, List.cons_append, traces_cons,
            play_append, List.filterMap_append, afterTurns_cons, afterTurns_append, act_eq]
          dsimp only
          rw [ih]
          rfl

/-- A call answers what its steps say. -/
theorem perform_eq (call : Call) :
    cluster.perform call =
      ((cluster.steps call).findSome? Step.outcome?, (cluster.steps call).filterMap Step.trace?,
        cluster.afterTurns (cluster.turns call)) := by
  cases call with
  | add listener => rfl
  | removeId id => rfl
  | remove name =>
      cases hknown : cluster.known.lookup name <;>
        simp [perform, steps, turns, play, step, eventOf, next, remove, removal, removeId,
          Step.outcome?, Step.trace?, afterTurns, hknown]
  | notify change nodes =>
      have hsilent : (cluster.steps (.notify change nodes)).findSome? Step.outcome? = none := by
        refine List.findSome?_eq_none_iff.mpr fun step hstep => ?_
        obtain ⟨turn, hturn, hactor⟩ := exists_turn_of_mem_play hstep
        obtain ⟨listener, -, hturn⟩ := List.mem_flatMap.mp hturn
        rw [Step.outcome?, hactor, actor_of_mem_turnsOf hturn]
      rw [perform, notify, notifyEach_eq, hsilent]
      rfl

end Walk

/-! ## The registry by its history -/

/-- What an event does to the registry. -/
inductive Works (registry : Registry ListenerId Listener) :
    Event → Registry ListenerId Listener → Prop
  | called {change nodes} : Works registry (.called change nodes) registry
  | unknown : Works registry .unknown registry
  | added {listener} :
      Works registry (.added registry.nextId listener) (registry.add listener).2
  | removed {id} : Works registry (.removed id (registry.remove id).1) (registry.remove id).2

/-- A registry that agrees with its history. -/
structure Recounted (log : List Step) (registry : Registry ListenerId Listener) : Prop where
  given : (given log).map Prod.fst = (List.range (given log).length).map UInt64.ofNat
  next : registry.nextId = .ofNat (Cluster.given log).length
  dropped : ∀ id ∈ dropped log, id ∈ (Cluster.given log).map Prod.fst
  listeners : registry.listeners = registered log
  counted : registry.count + (Cluster.dropped log).length = (Cluster.given log).length

/-- No identifier had to be given twice: there are 2 ^ 64 of them. -/
def WordsLast (log : List Step) : Prop :=
  (given log).length ≤ UInt64.size

/-- What a step after the history `log` may do. -/
structure Step.IsLawful (log : List Step) (step : Step) : Prop where
  before : Recounted log step.before.registry
  after : Recounted (log ++ [step]) step.after.registry
  added : ∀ id listener, step.event = .added id listener →
    id ∉ (given log).map Prod.fst ∧
      step.after.registry.listeners = step.before.registry.listeners ++ [(id, listener)]
  removed : ∀ id found, step.event = .removed id found →
    (found = true ↔ id ∈ (given log).map Prod.fst ∧ id ∉ dropped log) ∧
      step.after.registry.listeners =
        step.before.registry.listeners.filter fun entry => entry.1 != id
  called : ∀ change nodes, step.event = .called change nodes →
    step.after.registry = step.before.registry

theorem works_step (cluster : Cluster) (turn : Turn) :
    Works cluster.registry (cluster.step turn).event (cluster.step turn).after.registry := by
  obtain ⟨actor, deed⟩ := turn
  cases deed with
  | hear change nodes => exact .called
  | act action =>
      cases action with
      | add listener => exact .added
      | removeId id => exact .removed
      | remove name =>
          cases hknown : cluster.known.lookup name with
          | none =>
              simp only [step, eventOf, next, remove, hknown]
              exact .unknown
          | some id =>
              simp only [step, eventOf, next, remove, hknown]
              exact .removed

theorem given_snoc (log : List Step) (step : Step) :
    given (log ++ [step]) = given log ++ step.given?.toList := by
  rw [given, List.filterMap_append, given]
  cases hgiven : step.given? <;> simp [hgiven]

theorem dropped_snoc (log : List Step) (step : Step) :
    dropped (log ++ [step]) = dropped log ++ step.dropped?.toList := by
  rw [dropped, List.filterMap_append, dropped]
  cases hdropped : step.dropped? <;> simp [hdropped]

theorem word_injective {first second : Nat} (hfirst : first < UInt64.size)
    (hsecond : second < UInt64.size) (hsame : UInt64.ofNat first = .ofNat second) :
    first = second := by
  have hword := congrArg UInt64.toNat hsame
  rwa [UInt64.toNat_ofNat_of_lt' hfirst, UInt64.toNat_ofNat_of_lt' hsecond] at hword

theorem WordsLast.of_append {log later : List Step} (hlast : WordsLast (log ++ later)) :
    WordsLast log := by
  rw [WordsLast, given, List.filterMap_append, List.length_append] at hlast
  exact Nat.le_of_add_right_le hlast

namespace Recounted

variable {log : List Step} {registry : Registry ListenerId Listener} {step : Step}

theorem nil : Recounted [] { nextId := 0 } where
  given := rfl
  next := rfl
  dropped _ hmem := by cases hmem
  listeners := rfl
  counted := rfl

/-- As long as the words last, the next one was not given. -/
theorem next_notMem (hrecounted : Recounted log registry)
    (hlast : (Cluster.given log).length < UInt64.size) :
    registry.nextId ∉ (Cluster.given log).map Prod.fst := by
  rw [hrecounted.given, hrecounted.next, List.mem_map]
  rintro ⟨index, hmem, hsame⟩
  have hindex := List.mem_range.mp hmem
  exact Nat.ne_of_lt hindex (word_injective (Nat.lt_trans hindex hlast) hlast hsame)

/-- Who is registered was added and not removed. -/
theorem mem_iff (hrecounted : Recounted log registry) {id : ListenerId} :
    id ∈ registry.listeners.map Prod.fst ↔
      id ∈ (Cluster.given log).map Prod.fst ∧ id ∉ Cluster.dropped log := by
  simp [hrecounted.listeners, registered]

theorem nodup (hrecounted : Recounted log registry) (hlast : WordsLast log) :
    (registry.listeners.map Prod.fst).Nodup := by
  rw [hrecounted.listeners]
  refine (List.filter_sublist.map Prod.fst).nodup ?_
  rw [hrecounted.given]
  refine List.Nodup.map_on ?_ List.nodup_range
  intro first hfirst second hsecond hsame
  exact word_injective (Nat.lt_of_lt_of_le (List.mem_range.mp hfirst) hlast)
    (Nat.lt_of_lt_of_le (List.mem_range.mp hsecond) hlast) hsame

/-- A step that neither adds nor removes. -/
theorem idle (hrecounted : Recounted log registry) (hgiven : step.given? = none)
    (hdropped : step.dropped? = none) : Recounted (log ++ [step]) registry := by
  have hsame : Cluster.given (log ++ [step]) = Cluster.given log := by
    rw [given_snoc, hgiven, Option.toList_none, List.append_nil]
  have hkept : Cluster.dropped (log ++ [step]) = Cluster.dropped log := by
    rw [dropped_snoc, hdropped, Option.toList_none, List.append_nil]
  constructor
  · rw [hsame, hrecounted.given]
  · rw [hsame, hrecounted.next]
  · rw [hsame, hkept]
    exact hrecounted.dropped
  · rw [hrecounted.listeners, registered, registered, hsame, hkept]
  · rw [hsame, hkept, hrecounted.counted]

theorem added (hrecounted : Recounted log registry) (hlast : WordsLast (log ++ [step]))
    {listener : Listener} (hgiven : step.given? = some (registry.nextId, listener))
    (hdropped : step.dropped? = none) : Recounted (log ++ [step]) (registry.add listener).2 := by
  have hmore : Cluster.given (log ++ [step]) =
      Cluster.given log ++ [(registry.nextId, listener)] := by
    rw [given_snoc, hgiven, Option.toList_some]
  have hkept : Cluster.dropped (log ++ [step]) = Cluster.dropped log := by
    rw [dropped_snoc, hdropped, Option.toList_none, List.append_nil]
  have hlength : (Cluster.given (log ++ [step])).length = (Cluster.given log).length + 1 := by
    rw [hmore, List.length_append, List.length_singleton]
  have hfresh : registry.nextId ∉ Cluster.dropped log := by
    rw [WordsLast, hlength] at hlast
    exact fun hmem => hrecounted.next_notMem (by omega) (hrecounted.dropped _ hmem)
  constructor
  · rw [hlength, hmore, List.map_append, hrecounted.given, hrecounted.next, List.range_succ,
      List.map_append]
    rfl
  · rw [hlength, Registry.add, hrecounted.next, UInt64.ofNat_add]
    rfl
  · rw [hkept, hmore, List.map_append]
    exact fun id hmem => List.mem_append_left _ (hrecounted.dropped id hmem)
  · rw [registered, hmore, hkept, List.filter_append, ← registered, ← hrecounted.listeners]
    simp [Registry.add, hfresh]
  · have hcounted := hrecounted.counted
    rw [hmore, hkept, List.length_append, List.length_singleton, ← hcounted, Registry.count,
      Registry.add, List.length_append, List.length_singleton, Registry.count]
    omega

theorem removed (hrecounted : Recounted log registry) (hlast : WordsLast log) {id : ListenerId}
    (hgiven : step.given? = none) (hfound : (registry.remove id).1 = true)
    (hdropped : step.dropped? = some id) : Recounted (log ++ [step]) (registry.remove id).2 := by
  have hsame : Cluster.given (log ++ [step]) = Cluster.given log := by
    rw [given_snoc, hgiven, Option.toList_none, List.append_nil]
  have hmore : Cluster.dropped (log ++ [step]) = Cluster.dropped log ++ [id] := by
    rw [dropped_snoc, hdropped, Option.toList_some]
  have hmem := hrecounted.mem_iff.mp ((Registry.found_iff registry id).mp hfound)
  constructor
  · rw [hsame, hrecounted.given]
  · rw [hsame, Registry.remove, hrecounted.next]
  · rw [hsame, hmore]
    intro other hother
    rcases List.mem_append.mp hother with hold | hnew
    · exact hrecounted.dropped other hold
    · rw [List.mem_singleton.mp hnew]
      exact hmem.1
  · rw [registered, hsame, hmore, Registry.remove, hrecounted.listeners, registered,
      List.filter_filter]
    exact List.filter_congr fun entry _ => by grind
  · have hcount := Registry.count_remove registry id (hrecounted.nodup hlast)
    have hcounted := hrecounted.counted
    rw [hfound] at hcount
    rw [hsame, hmore, List.length_append, List.length_singleton, ← hcounted, ← hcount]
    simp only [Bool.toNat_true]
    omega

/-- A removal that finds nothing removes nothing. -/
theorem missed (hrecounted : Recounted log registry) {id : ListenerId}
    (hgiven : step.given? = none) (hmissing : (registry.remove id).1 = false)
    (hdropped : step.dropped? = none) : Recounted (log ++ [step]) (registry.remove id).2 := by
  have hidle := hrecounted.idle hgiven hdropped
  have hsame : (registry.remove id).2 = registry :=
    congrArg (Registry.mk registry.nextId) (Registry.remove_of_missing registry id hmissing)
  rwa [hsame]

/-- Every step keeps the registry and its history in agreement. -/
theorem worked (hrecounted : Recounted log registry) (hlast : WordsLast (log ++ [step]))
    {after : Registry ListenerId Listener} (hworks : Works registry step.event after) :
    Recounted (log ++ [step]) after := by
  obtain ⟨actor, event, before, next⟩ := step
  cases hworks with
  | called => exact hrecounted.idle rfl rfl
  | unknown => exact hrecounted.idle rfl rfl
  | added => exact hrecounted.added hlast rfl rfl
  | @removed id =>
      cases hfound : (registry.remove id).1 with
      | true => exact hrecounted.removed hlast.of_append rfl hfound rfl
      | false => exact hrecounted.missed rfl hfound rfl

end Recounted

section Lawful

variable {log : List Step}

theorem isLawful_of_works {step : Step} (hrecounted : Recounted log step.before.registry)
    (hlast : WordsLast (log ++ [step]))
    (hworks : Works step.before.registry step.event step.after.registry) :
    step.IsLawful log := by
  have hafter := hrecounted.worked hlast hworks
  obtain ⟨actor, event, ⟨before, names⟩, ⟨after, known⟩⟩ := step
  dsimp only at hrecounted hworks
  cases hworks with
  | called => exact ⟨hrecounted, hafter, nofun, nofun, fun _ _ _ => rfl⟩
  | unknown => exact ⟨hrecounted, hafter, nofun, nofun, nofun⟩
  | @added listener =>
      refine ⟨hrecounted, hafter, ?_, nofun, nofun⟩
      rintro id other ⟨⟩
      refine ⟨hrecounted.next_notMem ?_, rfl⟩
      rw [WordsLast, given_snoc, List.length_append] at hlast
      exact hlast
  | @removed id =>
      refine ⟨hrecounted, hafter, nofun, ?_, nofun⟩
      rintro other found ⟨⟩
      refine ⟨?_, rfl⟩
      rw [Registry.found_iff]
      exact hrecounted.mem_iff

theorem isLawful_step {cluster : Cluster} (hrecounted : Recounted log cluster.registry)
    (turn : Turn) (hlast : WordsLast (log ++ [cluster.step turn])) :
    (cluster.step turn).IsLawful log :=
  isLawful_of_works hrecounted hlast (works_step cluster turn)

theorem recounted_play {cluster : Cluster} (hrecounted : Recounted log cluster.registry)
    (turns : List Turn) (hlast : WordsLast (log ++ cluster.play turns)) :
    Recounted (log ++ cluster.play turns) (cluster.afterTurns turns).registry := by
  induction turns generalizing cluster log with
  | nil =>
      rw [play, List.append_nil]
      exact hrecounted
  | cons turn rest ih =>
      rw [play, List.append_cons] at hlast ⊢
      exact ih (isLawful_step hrecounted turn hlast.of_append).after hlast

/-- Every turn keeps to the law, wherever the history is cut. -/
theorem isLawful_play {cluster : Cluster} (hrecounted : Recounted log cluster.registry)
    {turns : List Turn} (hlast : WordsLast (log ++ cluster.play turns))
    {before after : List Step} {step : Step}
    (hcut : cluster.play turns = before ++ step :: after) : step.IsLawful (log ++ before) := by
  induction turns generalizing cluster log before with
  | nil => simp [play] at hcut
  | cons turn rest ih =>
      rw [play, List.append_cons] at hlast
      have hlawful := isLawful_step hrecounted turn hlast.of_append
      cases before with
      | nil =>
          obtain ⟨rfl, -⟩ := List.cons.inj hcut
          rwa [List.append_nil]
      | cons first others =>
          obtain ⟨rfl, hrest⟩ := List.cons.inj hcut
          have hlater := ih hlawful.after hlast hrest
          rwa [List.append_assoc] at hlater

theorem recounted_history {cluster : Cluster} (hrecounted : Recounted log cluster.registry)
    (calls : List Call) (hlast : WordsLast (log ++ cluster.history calls)) :
    Recounted (log ++ cluster.history calls) (cluster.afterCalls calls).registry := by
  induction calls generalizing cluster log with
  | nil =>
      rw [history, List.append_nil]
      exact hrecounted
  | cons call rest ih =>
      rw [history, ← List.append_assoc] at hlast ⊢
      have hcall : Recounted (log ++ cluster.steps call) (cluster.perform call).2.2.registry := by
        rw [perform_eq]
        exact recounted_play hrecounted (cluster.turns call) hlast.of_append
      exact ih hcall hlast

/-- A new registry and the history since. -/
theorem recounted_new (calls : List Call) (hlast : WordsLast (({} : Cluster).history calls)) :
    Recounted (({} : Cluster).history calls) (({} : Cluster).afterCalls calls).registry :=
  @recounted_history [] {} .nil calls hlast

end Lawful

/-- Actions tell nobody of a change. -/
theorem heard_play_actions (cluster : Cluster) (listener : Listener)
    (actions : List ListenerAction) :
    (cluster.play (actions.map fun action => ⟨some listener, .act action⟩)).filterMap
      Step.heard? = [] := by
  induction actions generalizing cluster with
  | nil => rfl
  | cons action rest ih =>
      have hsilent : (cluster.step ⟨some listener, .act action⟩).heard? = none := by
        cases action with
        | add other => rfl
        | removeId id => rfl
        | remove name =>
            cases hknown : cluster.known.lookup name <;>
              simp [step, eventOf, removal, Step.heard?, hknown]
      rw [List.map_cons, play, List.filterMap_cons_none hsilent]
      exact ih _

/-- A walk tells each of its listeners once, in order. -/
theorem heard_play_turnsOf (cluster : Cluster) (change : Change) (nodes : NodeSet)
    (listeners : List Listener) :
    (cluster.play (listeners.flatMap (turnsOf change nodes))).filterMap Step.heard? =
      listeners.map fun listener => (listener, change, nodes) := by
  induction listeners generalizing cluster with
  | nil => rfl
  | cons listener rest ih =>
      have hcalled : (cluster.step ⟨some listener, .hear change nodes⟩).heard? =
          some (listener, change, nodes) := rfl
      rw [List.flatMap_cons, turnsOf, List.cons_append, play, List.filterMap_cons_some hcalled,
        play_append, List.filterMap_append, heard_play_actions, List.nil_append, ih,
        List.map_cons]

/-- The history of calls one after another. -/
theorem performAll_snoc (cluster : Cluster) (earlier : List Call) (call : Call) :
    cluster.performAll (earlier ++ [call]) =
      cluster.performAll earlier ++ [(cluster.afterCalls earlier).perform call] := by
  induction earlier generalizing cluster with
  | nil => rfl
  | cons first rest ih => exact congrArg (cluster.perform first :: ·) (ih _)

theorem history_snoc (cluster : Cluster) (earlier : List Call) (call : Call) :
    cluster.history (earlier ++ [call]) =
      cluster.history earlier ++ (cluster.afterCalls earlier).steps call := by
  induction earlier generalizing cluster with
  | nil => exact List.append_nil _
  | cons first rest ih =>
      refine (congrArg (cluster.steps first ++ ·) (ih _)).trans ?_
      rw [← List.append_assoc]
      rfl

/-- Any call, after any others on a new registry, where they all add no more than 2 ^ 64
listeners.  Its answer and what the listeners see are what its steps say.  A change is told to
exactly the listeners that were added and not removed before the call and listen to such
changes, once each, in the order in which they were added, with the nodes of the call.  And
every step keeps to the law: a new identifier was never given before, a removal finds what was
given and not removed before, and takes out nothing else, and the count is that of the
additions less that of the removals. -/
theorem walks_over_snapshot (earlier : List Call) (call : Call)
    (hlast : WordsLast (({} : Cluster).history (earlier ++ [call]))) :
    ({} : Cluster).performAll (earlier ++ [call]) =
        ({} : Cluster).performAll earlier ++
          [(((({} : Cluster).afterCalls earlier).steps call).findSome? Step.outcome?,
            ((({} : Cluster).afterCalls earlier).steps call).filterMap Step.trace?,
            ({} : Cluster).afterCalls (earlier ++ [call]))] ∧
      (∀ change nodes, call = .notify change nodes →
        ((({} : Cluster).afterCalls earlier).steps call).filterMap Step.heard? =
          ((registered (({} : Cluster).history earlier)).filter
            (·.2.hears change)).map fun entry => (entry.2, change, nodes)) ∧
      (∀ before step after,
        (({} : Cluster).afterCalls earlier).steps call = before ++ step :: after →
          step.IsLawful (({} : Cluster).history earlier ++ before)) ∧
      ({} : Cluster).history (earlier ++ [call]) =
        ({} : Cluster).history earlier ++ (({} : Cluster).afterCalls earlier).steps call ∧
      Recounted (({} : Cluster).history (earlier ++ [call]))
        (({} : Cluster).afterCalls (earlier ++ [call])).registry := by
  have hsplit := history_snoc {} earlier call
  have hboth := hsplit ▸ hlast
  have hrecounted : Recounted (({} : Cluster).history earlier)
      (({} : Cluster).afterCalls earlier).registry := recounted_new earlier hboth.of_append
  have hafter : ({} : Cluster).afterCalls (earlier ++ [call]) =
      ((({} : Cluster).afterCalls earlier).perform call).2.2 := by
    rw [afterCalls, List.foldl_append]
    rfl
  refine ⟨?_, ?_, fun before step after => isLawful_play hrecounted hboth, hsplit,
    recounted_new (earlier ++ [call]) hlast⟩
  · rw [performAll_snoc, hafter, perform_eq]
  · rintro change nodes rfl
    rw [steps, turns, heard_play_turnsOf, Registry.snapshot, hrecounted.listeners,
      List.filter_map, List.map_map]
    rfl

/-- The first listener removes the second one when it is called, and adds a third. -/
private def meddlers : List Listener :=
  [.mk "first" true [.removeId 1, .add (.mk "third" true [] [])] [], .mk "second" true [] []]

/-- A listener that is removed by the one before it is still called, and one that is added
meanwhile is not. -/
theorem walks_over_snapshot_of_meddlers :
    WordsLast (({} : Cluster).history (meddlers.map .add ++ [.notify .departed []])) ∧
      ((({} : Cluster).afterCalls (meddlers.map .add)).steps
        (.notify .departed [])).filterMap Step.heard? =
          meddlers.map (fun listener => (listener, .departed, [])) ∧
      ({} : Cluster).performAll (meddlers.map .add ++ [.notify .departed []]) =
        ({} : Cluster).performAll (meddlers.map .add) ++
          [(none, [.called "first" .departed [], .removed "first" (.removed true),
            .added "first" (.added 2), .called "second" .departed []],
            ({} : Cluster).afterCalls (meddlers.map .add ++ [.notify .departed []]))] ∧
      (({} : Cluster).afterCalls
        (meddlers.map .add ++ [.notify .departed []])).registry.count = 2 := by
  have hlast : WordsLast
      (({} : Cluster).history (meddlers.map .add ++ [.notify .departed []])) := by
    unfold WordsLast
    decide
  obtain ⟨hanswers, hheard, -, -, -⟩ := walks_over_snapshot (meddlers.map .add) _ hlast
  exact ⟨hlast, hheard _ _ rfl, hanswers, rfl⟩

end Cluster

end FragmentLifecycle
