import FragmentLifecycle.Identity.QueryId
import FragmentLifecycle.Text.Decimal

/-!
# Fragment handles

A fragment is one instance of a subdivision of a query's plan: the major number
names the subdivision, the minor one the instance.
-/

namespace FragmentLifecycle

structure Handle where
  query : QueryId
  major : UInt32
  minor : UInt32
  deriving DecidableEq

namespace Handle

/-- Major and minor number with a colon between them. -/
def fragmentText (handle : Handle) : String :=
  Text.natural handle.major.toNat ++ ":" ++ Text.natural handle.minor.toNat

def text (handle : Handle) : String :=
  handle.query.text ++ ":" ++ handle.fragmentText

/-- The name of the thread that runs the fragment. -/
def threadName (handle : Handle) : String :=
  handle.query.text ++ ":frag:" ++ handle.fragmentText

end Handle

end FragmentLifecycle
