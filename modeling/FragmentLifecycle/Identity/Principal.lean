/-!
# Principals

The identity that operators act under: the user of the worker process, or a
proxy for the user who submitted the query.
-/

namespace FragmentLifecycle

inductive Principal where
  | processUser
  | proxy (user : String)
  deriving DecidableEq

def Principal.text : Principal → String
  | .processUser => "process user"
  | .proxy user => "proxy(" ++ user ++ ")"

end FragmentLifecycle
