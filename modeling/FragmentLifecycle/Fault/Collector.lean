import FragmentLifecycle.Fault.Basic

/-!
# Collected causes

Causes are collected in arrival order and drained together.  The first one is
primary and the others are suppressed.
-/

namespace FragmentLifecycle

/-- Drained causes, at least one. -/
structure Composite where
  primary : Fault
  suppressed : List Fault
  deriving DecidableEq

namespace Composite

def causes (composite : Composite) : List Fault :=
  composite.primary :: composite.suppressed

def count (composite : Composite) : Nat :=
  1 + composite.suppressed.length

def text (composite : Composite) : String :=
  "\n  suppressed: ".intercalate (composite.causes.map Fault.fullText)

end Composite

/-- Causes that wait to be drained, in arrival order. -/
structure Collector where
  pending : List Fault := []
  deriving DecidableEq

namespace Collector

def append (collector : Collector) (cause : Fault) : Collector :=
  ⟨collector.pending ++ [cause]⟩

def primary? (collector : Collector) : Option Fault :=
  collector.pending.head?

def isEmpty (collector : Collector) : Bool :=
  collector.pending.isEmpty

/-- All pending causes as one composite, none where nothing is pending, and the
collector after it. -/
def drain (collector : Collector) : Option Composite × Collector :=
  match collector.pending with
  | [] => (none, ⟨[]⟩)
  | primary :: suppressed => (some ⟨primary, suppressed⟩, ⟨[]⟩)

/-- A call on a collector. -/
inductive Call where
  | append (cause : Fault)
  | primary
  | drain
  deriving DecidableEq

inductive Reply where
  | none
  | cause (cause : Fault)
  | drained (composite : Composite)
  deriving DecidableEq

def perform (collector : Collector) : Call → Reply × Collector
  | .append cause => (.none, collector.append cause)
  | .primary =>
      (match collector.primary? with
        | some cause => .cause cause
        | .none => .none,
       collector)
  | .drain =>
      match collector.drain with
      | (some composite, rest) => (.drained composite, rest)
      | (.none, rest) => (.none, rest)

/-- Replies to calls made one after another, each with the collector after it. -/
def performAll (collector : Collector) : List Call → List (Reply × Collector)
  | [] => []
  | call :: rest =>
      let (reply, next) := collector.perform call
      (reply, next) :: next.performAll rest

end Collector

end FragmentLifecycle
