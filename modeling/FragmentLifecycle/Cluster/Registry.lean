
/-!
# Listener registry

Listeners are kept in registration order.  Their identifiers are counted up in a type of the
user's: those of a machine word start again when all are used up.
-/

namespace FragmentLifecycle

structure Registry (Id α : Type) where
  nextId : Id
  listeners : List (Id × α) := []

namespace Registry

variable {Id α : Type}

def add [Add Id] [OfNat Id 1] (registry : Registry Id α) (listener : α) : Id × Registry Id α :=
  (registry.nextId,
    { nextId := registry.nextId + 1
      listeners := registry.listeners ++ [(registry.nextId, listener)] })

/-- Whether the listener was registered, and the registry without it. -/
def remove [BEq Id] (registry : Registry Id α) (id : Id) : Bool × Registry Id α :=
  let kept := registry.listeners.filter fun entry => entry.1 != id
  (kept.length != registry.listeners.length, { registry with listeners := kept })

def count (registry : Registry Id α) : Nat :=
  registry.listeners.length

/-- The listeners at this moment, in registration order. -/
def snapshot (registry : Registry Id α) : List α :=
  registry.listeners.map Prod.snd

end Registry

end FragmentLifecycle
