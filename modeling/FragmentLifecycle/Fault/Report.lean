import FragmentLifecycle.Fault.Collector
import FragmentLifecycle.Identity.Handle
import FragmentLifecycle.Identity.Node

/-!
# Failure reports

The one report of a failed fragment: its kind, the node that ran it, the fragment
and every cause.  The kind depends on the primary cause alone.
-/

namespace FragmentLifecycle

inductive FailureKind where
  | system
  | memory
  deriving DecidableEq

namespace FailureKind

def text : FailureKind → String
  | .system => "SYSTEM ERROR"
  | .memory => "RESOURCE ERROR"

def name : FailureKind → String
  | .system => "SYSTEM"
  | .memory => "MEMORY"

def all : List FailureKind := [.system, .memory]

/-- Memory exactly where the outermost execution error of the cause is one of
memory. -/
def ofCause (cause : Fault) : FailureKind :=
  match cause.execution? with
  | some error => if error.isMemory then .memory else .system
  | none => .system

end FailureKind

structure FailureReport where
  kind : FailureKind
  identity : Node
  fragment : String
  causes : Composite
  deriving DecidableEq

namespace FailureReport

def ofCauses (causes : Composite) (identity : Node) (handle : Handle) : FailureReport :=
  ⟨.ofCause causes.primary, identity, handle.fragmentText, causes⟩

/-- The text of a report that was given `identifier`. -/
def text (report : FailureReport) (identifier : String) : String :=
  report.kind.text ++ ": " ++ report.causes.text ++ "\n\nFragment " ++ report.fragment ++
    "\n\n[Error Id: " ++ identifier ++ " on " ++ report.identity.text ++ "]"

/-- Reports are identified by random identifiers of this version. -/
def identifierVersion : Nat := 4

end FailureReport

end FragmentLifecycle
