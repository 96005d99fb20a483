import FragmentLifecycle.Sync.Gate

/-!
# Slots

A fixed number of slots bounds how many fragments run at once.  Requests are
served in arrival order: a released slot goes to the request that has waited
longest and becomes free only where none waits.
-/

namespace FragmentLifecycle

structure Slots where
  free : Nat
  waiting : List ThreadId := []
  granted : List ThreadId := []
  deriving DecidableEq

namespace Slots

/-- The most slots there can be. -/
def limit : Nat := Nat.pow 2 61 - 1

def ofCount? (count : Nat) : Option Slots :=
  if count ≤ limit then some { free := count } else none

def request (slots : Slots) (thread : ThreadId) : Slots :=
  match slots.free with
  | 0 => { slots with waiting := slots.waiting ++ [thread] }
  | free + 1 => { slots with free, granted := slots.granted ++ [thread] }

/-- Take up a granted slot. -/
def take? (slots : Slots) (thread : ThreadId) : Option Slots :=
  if thread ∈ slots.granted then some { slots with granted := slots.granted.erase thread }
  else none

def release (slots : Slots) : Slots :=
  match slots.waiting with
  | [] => { slots with free := slots.free + 1 }
  | next :: rest => { slots with waiting := rest, granted := slots.granted ++ [next] }

/-- Give up a request.  A slot that was granted to it is released. -/
def withdraw (slots : Slots) (thread : ThreadId) : Slots :=
  if thread ∈ slots.granted then
    release { slots with granted := slots.granted.erase thread }
  else { slots with waiting := slots.waiting.erase thread }

end Slots

end FragmentLifecycle
