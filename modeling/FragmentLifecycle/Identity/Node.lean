import FragmentLifecycle.Text.Decimal

/-!
# Nodes

A node of the cluster is an address and three ports.  Sets of nodes are kept in
ascending order, addresses by code points and then the ports, without repetition.
-/

namespace FragmentLifecycle

structure Node where
  address : String
  userPort : UInt16
  controlPort : UInt16
  dataPort : UInt16
  deriving DecidableEq

namespace Node

def text (node : Node) : String :=
  node.address ++ ":" ++ Text.natural node.userPort.toNat

def precedes (left right : Node) : Bool :=
  if left.address ≠ right.address then decide (left.address < right.address)
  else if left.userPort ≠ right.userPort then decide (left.userPort < right.userPort)
  else if left.controlPort ≠ right.controlPort then
    decide (left.controlPort < right.controlPort)
  else decide (left.dataPort < right.dataPort)

end Node

/-- Nodes in ascending order, each once. -/
abbrev NodeSet := List Node

namespace NodeSet

def insert (node : Node) : NodeSet → NodeSet
  | [] => [node]
  | other :: rest =>
      if node = other then other :: rest
      else if node.precedes other then node :: other :: rest
      else other :: NodeSet.insert node rest

def ofList (nodes : List Node) : NodeSet :=
  nodes.foldl (fun set node => NodeSet.insert node set) []

end NodeSet

end FragmentLifecycle
