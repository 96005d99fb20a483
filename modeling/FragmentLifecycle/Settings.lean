import FragmentLifecycle.Identity.Node
import FragmentLifecycle.Text.Blank
import FragmentLifecycle.Text.Decimal

/-!
# Settings

A node's settings come from environment variables, completed by the entries of a
settings file, however they are written there.  A variable whose bytes are no UTF-8 text
counts as unset.  Numbers are trimmed of blanks and bounded; the first variable in a fixed
order whose text is no such number is named in the error.
-/

namespace FragmentLifecycle

structure Settings where
  endpoint : Node
  maxConcurrent : Nat
  heapExitCode : Int
  impersonation : Bool
  deriving DecidableEq

/-- Variables and their bytes. -/
abbrev Environment := List (String × ByteArray)

namespace Environment

/-- The text of a variable, unless it is unset or no UTF-8 text. -/
def text? (environment : Environment) (key : String) : Option String :=
  (environment.lookup key).bind String.fromUTF8?

def set (environment : Environment) (key : String) (bytes : ByteArray) : Environment :=
  (key, bytes) :: environment.filter fun entry => entry.1 != key

/-- A variable that has a text already keeps it. -/
def complete (environment : Environment) (entry : String × String) : Environment :=
  match environment.text? entry.1 with
  | some _ => environment
  | none => environment.set entry.1 entry.2.toUTF8

/-- The environment completed by the entries of a settings file, in their order. -/
def merge (environment : Environment) (entries : List (String × String)) : Environment :=
  entries.foldl complete environment

end Environment

inductive SettingsError where
  | invalid (key : String) (reason : Text.IntegerFault)
  | noConcurrency
  deriving DecidableEq

namespace Settings

def addressKey : String := "FRAGMENT_NODE_ADDRESS"
def userPortKey : String := "FRAGMENT_USER_PORT"
def controlPortKey : String := "FRAGMENT_CONTROL_PORT"
def dataPortKey : String := "FRAGMENT_DATA_PORT"
def maxConcurrentKey : String := "FRAGMENT_MAX_CONCURRENT"
def heapExitCodeKey : String := "FRAGMENT_HEAP_OOM_EXIT_CODE"
def impersonationKey : String := "FRAGMENT_IMPERSONATION"

end Settings

def SettingsError.message : SettingsError → String
  | .invalid key reason => "Invalid value for " ++ key ++ ": " ++ reason.message
  | .noConcurrency => Settings.maxConcurrentKey ++ " must be at least 1"

namespace Settings

/-- The number a variable holds, or `default` where it is unset. -/
def number (environment : Environment) (key : String) (bounds : Text.Bounds) (default : Int) :
    Except SettingsError Int :=
  match environment.text? key with
  | none => .ok default
  | some text =>
      match Text.readInteger bounds (Text.trim text.toList) with
      | .ok value => .ok value
      | .error reason => .error (.invalid key reason)

/-- The texts, in lower case, that switch a setting on. -/
def isYes (text : String) : Bool :=
  let lower := String.ofList (text.toList.map Char.toLower)
  lower = "1" || lower = "true" || lower = "yes"

def defaults (hostName : String) : Settings :=
  ⟨⟨hostName, 31010, 31011, 31012⟩, 16, -2, false⟩

/-- Settings from an environment, on the host called `hostName`. -/
def ofEnvironment (environment : Environment) (hostName : String) :
    Except SettingsError Settings := do
  let address := (environment.text? addressKey).getD hostName
  let userPort ← number environment userPortKey (.unsigned 16) 31010
  let controlPort ← number environment controlPortKey (.unsigned 16) 31011
  let dataPort ← number environment dataPortKey (.unsigned 16) 31012
  let maxConcurrent ← number environment maxConcurrentKey (.unsigned 64) 16
  if maxConcurrent = 0 then
    throw .noConcurrency
  let heapExitCode ← number environment heapExitCodeKey (.signed 32) (-2)
  let impersonation := ((environment.text? impersonationKey).map isYes).getD false
  return {
    endpoint :=
      ⟨address, .ofNat userPort.toNat, .ofNat controlPort.toNat, .ofNat dataPort.toNat⟩
    maxConcurrent := maxConcurrent.toNat
    heapExitCode
    impersonation }

end Settings

end FragmentLifecycle
