import GlyphTree.Tree.Basic

/-!
# Orders, liveness and scope

Document order is the pre-order walk from the root over children and expanded children; live order
is the same walk over children only. A node is live if the lists of children lead to it from the
root. Walks go as deep as there are nodes, which is as deep as a tree can be.
-/

namespace GlyphTree.Tree

/-- The nodes at and below a node, each before those below it, to a given depth. -/
def preorder (below : NodeId → List NodeId) : Nat → NodeId → List NodeId
  | 0, _ => []
  | depth + 1, id => id :: (below id).flatMap (preorder below depth)

/-- All nodes of the document: below a node come its children, then its expanded children. -/
def documentOrder (t : Tree) : List NodeId :=
  preorder (fun id => t.children id ++ t.expandedChildren id) t.size root

/-- The live nodes, each before those below it. -/
def liveOrder (t : Tree) : List NodeId := preorder t.children t.size root

/-- Whether the lists of children lead from the root to a node in fewer than `steps` steps. -/
def isLiveWithin (t : Tree) : Nat → NodeId → Bool
  | 0, _ => false
  | steps + 1, id =>
    if id = root then true
    else match (t.node id).parent with
      | none => false
      | some p => (t.children p).contains id && t.isLiveWithin steps p

/-- Whether a node can be reached from the root through lists of children. -/
def isLive (t : Tree) (id : NodeId) : Bool := t.isLiveWithin (t.size + 1) id

/-- The number of parents above a node, at most `steps`. -/
def depthWithin (t : Tree) : Nat → NodeId → Nat
  | 0, _ => 0
  | steps + 1, id =>
    match (t.node id).parent with
    | none => 0
    | some p => t.depthWithin steps p + 1

/-- The number of parents above a node. -/
def depth (t : Tree) (id : NodeId) : Nat := t.depthWithin t.size id

/-- The nodes of the document with a name, in document order. -/
def named (t : Tree) (name : Text) : List NodeId :=
  t.documentOrder.filter (t.names.ids name).contains

/-! ## Targets and scopes -/

/-- Whether a filter selects a node as target: the wildcard selects what is not ignored, a name
the nodes that carry it. -/
def isTarget (t : Tree) (filter : Text) (id : NodeId) : Bool :=
  if t.config.isWildcard filter then !t.isIgnored id else (t.node id).name = filter

/-- The live nodes that a filter selects, in live order. -/
def targets (t : Tree) (filter : Text) : List NodeId := t.liveOrder.filter (t.isTarget filter)

/-- Whether a node or one of the `steps - 1` nearest parents carries a name. -/
def isUnderWithin (t : Tree) (name : Text) : Nat → NodeId → Bool
  | 0, _ => false
  | steps + 1, id =>
    match t.node? id with
    | none => false
    | some n =>
      if n.name = name then true
      else match n.parent with
        | none => false
        | some p => t.isUnderWithin name steps p

/-- Whether a node is in a scope: the wildcard takes in what is not ignored, a name the nodes that
carry it and all below them. -/
def inScope (t : Tree) (scope : Text) (id : NodeId) : Bool :=
  if t.config.isWildcard scope then !t.isIgnored id else t.isUnderWithin scope (t.size + 1) id

end GlyphTree.Tree
