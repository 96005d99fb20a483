import FragmentLifecycle.Cluster.Registry
import FragmentLifecycle.Identity.Node

/-!
# Membership notifications

Nodes that join or leave the cluster are made known to the listeners registered
at that moment, one after another.  A listener may add and remove listeners while
it is called; that changes who is called next time.
-/

namespace FragmentLifecycle

/-- Identifiers are words of 64 bits, and given anew after 2 ^ 64 listeners. -/
abbrev Cluster.ListenerId := UInt64

inductive Cluster.Change where
  | departed
  | registered
  deriving DecidableEq

mutual

/-- A listener by its name: what it does on either change, and whether it listens
to registrations at all. -/
inductive Listener where
  | mk (name : String) (hearsRegistrations : Bool) (onDeparted onRegistered : List ListenerAction)

inductive ListenerAction where
  | add (listener : Listener)
  | remove (name : String)
  | removeId (id : Cluster.ListenerId)

end

namespace Listener

def name : Listener → String
  | mk name _ _ _ => name

def hearsRegistrations : Listener → Bool
  | mk _ hears _ _ => hears

def actionsOn : Listener → Cluster.Change → List ListenerAction
  | mk _ _ onDeparted _, .departed => onDeparted
  | mk _ _ _ onRegistered, .registered => onRegistered

/-- Every listener hears of departures. -/
def hears (listener : Listener) : Cluster.Change → Bool
  | .departed => true
  | .registered => listener.hearsRegistrations

end Listener

/-- Listeners, and the identifier last given under each name. -/
structure Cluster where
  registry : Registry Cluster.ListenerId Listener := { nextId := 0 }
  known : List (String × Cluster.ListenerId) := []

namespace Cluster

inductive Outcome where
  | added (id : ListenerId)
  | removed (found : Bool)
  | unknown
  deriving DecidableEq

/-- What a notified listener sees and does, in order. -/
inductive Trace where
  | called (name : String) (change : Change) (nodes : NodeSet)
  | added (name : String) (outcome : Outcome)
  | removed (name : String) (outcome : Outcome)
  deriving DecidableEq

def add (cluster : Cluster) (listener : Listener) : Outcome × Cluster :=
  let (id, registry) := cluster.registry.add listener
  (.added id, { registry, known := (listener.name, id) :: cluster.known })

def removeId (cluster : Cluster) (id : ListenerId) : Outcome × Cluster :=
  let (found, registry) := cluster.registry.remove id
  (.removed found, { cluster with registry })

/-- Remove the listener added last under a name. -/
def remove (cluster : Cluster) (name : String) : Outcome × Cluster :=
  match cluster.known.lookup name with
  | none => (.unknown, cluster)
  | some id => cluster.removeId id

/-- The actions of the listener called `name`. -/
def act (cluster : Cluster) (name : String) :
    List ListenerAction → List Trace × Cluster
  | [] => ([], cluster)
  | .add listener :: rest =>
      let (outcome, next) := cluster.add listener
      let (trace, last) := next.act name rest
      (.added name outcome :: trace, last)
  | .remove other :: rest =>
      let (outcome, next) := cluster.remove other
      let (trace, last) := next.act name rest
      (.removed name outcome :: trace, last)
  | .removeId id :: rest =>
      let (outcome, next) := cluster.removeId id
      let (trace, last) := next.act name rest
      (.removed name outcome :: trace, last)

/-- Call `listeners` one after another. -/
def notifyEach (cluster : Cluster) (change : Change) (nodes : NodeSet) :
    List Listener → List Trace × Cluster
  | [] => ([], cluster)
  | listener :: rest =>
      if listener.hears change then
        let (acted, next) := cluster.act listener.name (listener.actionsOn change)
        let (trace, last) := next.notifyEach change nodes rest
        (.called listener.name change nodes :: (acted ++ trace), last)
      else cluster.notifyEach change nodes rest

/-- Make a change known to the listeners registered now. -/
def notify (cluster : Cluster) (change : Change) (nodes : NodeSet) :
    List Trace × Cluster :=
  cluster.notifyEach change nodes cluster.registry.snapshot

inductive Call where
  | add (listener : Listener)
  | remove (name : String)
  | removeId (id : ListenerId)
  | notify (change : Change) (nodes : NodeSet)

/-- A call from outside: its outcome, if it has one, what the listeners saw and did,
and the listeners after it. -/
def perform (cluster : Cluster) : Call → Option Outcome × List Trace × Cluster
  | .add listener =>
      let (outcome, next) := cluster.add listener
      (some outcome, [], next)
  | .remove name =>
      let (outcome, next) := cluster.remove name
      (some outcome, [], next)
  | .removeId id =>
      let (outcome, next) := cluster.removeId id
      (some outcome, [], next)
  | .notify change nodes => (none, cluster.notify change nodes)

/-- Calls made one after another, each with the listeners after it. -/
def performAll (cluster : Cluster) :
    List Call → List (Option Outcome × List Trace × Cluster)
  | [] => []
  | call :: rest =>
      let (outcome, trace, next) := cluster.perform call
      (outcome, trace, next) :: next.performAll rest

end Cluster

end FragmentLifecycle
