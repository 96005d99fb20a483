import FragmentLifecycle.Identity.Principal

/-!
# Scoped principals

A body of code runs as a principal; when it ends, normally or by a panic, the
principal that was installed before is restored.  A new thread starts without a
principal, and what it does leaves its creator's principal alone.
-/

namespace FragmentLifecycle

inductive Scope where
  | readCurrent
  | panics (message : String)
  | runAs (principal : Principal) (body : List Scope) (caught : Bool)
  | onThread (body : List Scope)

namespace Scope

inductive Observation where
  | current (principal : Option Principal)
  | returned
  | caught (message : String)
  deriving DecidableEq

/-- How a body ended: normally, or by a panic with a message. -/
inductive End where
  | returned
  | panicked (message : String)
  deriving DecidableEq

/-- What a body observed, how it ended, and the principal it left installed. -/
structure Run where
  observed : List Observation
  ending : End
  principal : Option Principal
  deriving DecidableEq

/-- The run of `first`, continued by `rest` where it returned. -/
def Run.andThen (first : Run) (rest : Option Principal → Run) : Run :=
  match first.ending with
  | .panicked _ => first
  | .returned =>
      let second := rest first.principal
      { second with observed := first.observed ++ second.observed }

mutual

/-- Run one item on a thread with `current` installed. -/
def run (current : Option Principal) : Scope → Run
  | .readCurrent => ⟨[.current current], .returned, current⟩
  | .panics message => ⟨[], .panicked message, current⟩
  | .runAs principal body caught =>
      let inner := runAll (some principal) body
      match inner.ending, caught with
      | .returned, _ => ⟨inner.observed ++ [.returned], .returned, current⟩
      | .panicked message, true =>
          ⟨inner.observed ++ [.caught message], .returned, current⟩
      | .panicked message, false => ⟨inner.observed, .panicked message, current⟩
  | .onThread body => ⟨(runAll none body).observed, .returned, current⟩

/-- Run items one after another. -/
def runAll (current : Option Principal) : List Scope → Run
  | [] => ⟨[], .returned, current⟩
  | item :: rest => (run current item).andThen fun next => runAll next rest

end

end Scope

end FragmentLifecycle
