import FragmentLifecycle.Lifecycle.State

/-!
# Faults

What can go wrong in a fragment: a plain message, exhausted memory, an error of
execution itself, or a foreign error with a source.  A fault may stand within
contexts, each of which is again a text or one of the typed errors.  The text of
a fault is the text of its outermost context.  A search for a typed error goes
from the outermost context inwards and ends at the base: it looks neither at the
source of an error nor behind a foreign one.
-/

namespace FragmentLifecycle

inductive MemoryPool where
  | directBuffer
  | allocator
  | heap
  deriving DecidableEq

namespace MemoryPool

def text : MemoryPool → String
  | .directBuffer => "direct buffer"
  | .allocator => "allocator"
  | .heap => "heap"

def name : MemoryPool → String
  | .directBuffer => "direct_buffer"
  | .allocator => "allocator"
  | .heap => "heap"

def all : List MemoryPool := [.directBuffer, .allocator, .heap]

/-- Only the heap cannot be recovered. -/
def isRecoverable : MemoryPool → Bool
  | .heap => false
  | _ => true

end MemoryPool

structure OutOfMemory where
  pool : MemoryPool
  message : String
  deriving DecidableEq

def OutOfMemory.text (exhaustion : OutOfMemory) : String :=
  "Out of " ++ exhaustion.pool.text ++ " memory: " ++ exhaustion.message

/-- Errors of execution itself. -/
inductive ExecutionError where
  | invalidTransition (current target : State)
  | memory (exhaustion : OutOfMemory)
  | panicked (message : String)
  | spawn (reason : String)
  deriving DecidableEq

namespace ExecutionError

def text : ExecutionError → String
  | .invalidTransition current target =>
      "Invalid state transition " ++ current.text ++ " => " ++ target.text ++ "."
  | .memory _ => "One or more nodes ran out of memory while executing the query."
  | .panicked message => "Fragment execution panicked: " ++ message
  | .spawn reason => "Failed to spawn fragment thread: " ++ reason

/-- The texts of the error's sources, nearest first. -/
def sources : ExecutionError → List String
  | .memory exhaustion => [exhaustion.text]
  | .spawn reason => [reason]
  | _ => []

def name : ExecutionError → String
  | .invalidTransition _ _ => "InvalidTransition"
  | .memory _ => "Memory"
  | .panicked _ => "Panicked"
  | .spawn _ => "Spawn"

def isMemory : ExecutionError → Bool
  | .memory _ => true
  | _ => false

end ExecutionError

inductive Context where
  | text (message : String)
  | outOfMemory (exhaustion : OutOfMemory)
  | execution (error : ExecutionError)
  deriving DecidableEq

namespace Context

/-- A typed context contributes its own text and no sources. -/
def message : Context → String
  | .text message => message
  | .outOfMemory exhaustion => exhaustion.text
  | .execution error => error.text

def outOfMemory? : Context → Option OutOfMemory
  | .outOfMemory exhaustion => some exhaustion
  | _ => none

def execution? : Context → Option ExecutionError
  | .execution error => some error
  | _ => none

end Context

inductive Fault where
  | message (text : String)
  | outOfMemory (exhaustion : OutOfMemory)
  | execution (error : ExecutionError)
  | foreign (text : String) (source : Fault)
  | within (context : Context) (inner : Fault)
  deriving DecidableEq

namespace Fault

/-- The outermost text. -/
def text : Fault → String
  | .message text => text
  | .outOfMemory exhaustion => exhaustion.text
  | .execution error => error.text
  | .foreign text _ => text
  | .within context _ => context.message

/-- All texts: contexts from the outside in, the base, its sources. -/
def chain : Fault → List String
  | .message text => [text]
  | .outOfMemory exhaustion => [exhaustion.text]
  | .execution error => error.text :: error.sources
  | .foreign text source => text :: source.chain
  | .within context inner => context.message :: inner.chain

def fullText (fault : Fault) : String :=
  ": ".intercalate fault.chain

/-- The outermost exhaustion among contexts and base. -/
def outOfMemory? : Fault → Option OutOfMemory
  | .outOfMemory exhaustion => some exhaustion
  | .within context inner => context.outOfMemory?.or inner.outOfMemory?
  | _ => none

/-- The outermost execution error among contexts and base. -/
def execution? : Fault → Option ExecutionError
  | .execution error => some error
  | .within context inner => context.execution?.or inner.execution?
  | _ => none

end Fault

end FragmentLifecycle
