import GlyphTree.Config
import GlyphTree.Label.Registry
import GlyphTree.Node

/-!
# Trees

A tree holds every node of one document, by number, and beside them an index from names to nodes,
the cursors of iterations by name, the ignored nodes, the nodes now unfolded, the labels and the
configuration. Nodes are never removed: one that is in no list of children is just out of reach.
-/

namespace GlyphTree

/-- Which nodes carry which name. -/
structure NameIndex where
  entries : List (Text × NodeId)
deriving DecidableEq, Repr, Inhabited

namespace NameIndex

/-- The nodes listed under a name. -/
def ids (x : NameIndex) (name : Text) : List NodeId :=
  (x.entries.filter (·.1 = name)).map Prod.snd

/-- Lists a node under a name. -/
def insert (x : NameIndex) (name : Text) (id : NodeId) : NameIndex :=
  ⟨x.entries ++ [(name, id)]⟩

/-- Takes a node off the list of a name. -/
def erase (x : NameIndex) (name : Text) (id : NodeId) : NameIndex :=
  ⟨x.entries.filter fun e => !(e.1 = name && e.2 = id)⟩

end NameIndex

/-- How far each iteration by name has come; a name without an entry is at its start. -/
structure Cursors where
  entries : List (Text × Nat)
deriving DecidableEq, Repr, Inhabited

namespace Cursors

/-- How many nodes an iteration has given. -/
def get (c : Cursors) (name : Text) : Nat := (c.entries.lookup name).getD 0

/-- Puts an iteration back to its start. -/
def reset (c : Cursors) (name : Text) : Cursors := ⟨c.entries.filter (·.1 != name)⟩

/-- Records how many nodes an iteration has given. -/
def set (c : Cursors) (name : Text) (n : Nat) : Cursors := ⟨(name, n) :: (c.reset name).entries⟩

end Cursors

/-- A document. `ignored` is a set; `folds` are the unfolded nodes, the latest first. -/
structure Tree where
  nodes : Array Node
  names : NameIndex
  cursors : Cursors
  ignored : List NodeId
  folds : List NodeId
  labels : Registry
  config : Config
deriving DecidableEq, Inhabited

namespace Tree

/-- The number of the root. -/
abbrev root : NodeId := 0

/-! ## Nodes -/

/-- The number of nodes ever made. -/
def size (t : Tree) : Nat := t.nodes.size

/-- The node with a number. -/
def node? (t : Tree) (id : NodeId) : Option Node := t.nodes[id]?

/-- The node with a number; an empty one for a number that no node has. -/
def node (t : Tree) (id : NodeId) : Node := (t.nodes[id]?).getD default

/-- The hidden and unfolded children of a node, in the order of their spans. -/
def children (t : Tree) (id : NodeId) : List NodeId := (t.node id).children

/-- The children expanded into a node, in the order of their expansion. -/
def expandedChildren (t : Tree) (id : NodeId) : List NodeId := (t.node id).expanded

/-- Whether a node is ignored. -/
def isIgnored (t : Tree) (id : NodeId) : Bool := t.ignored.contains id

/-- The nodes now unfolded, oldest first. -/
def unfolded (t : Tree) : List NodeId := t.folds.reverse

/-- The tree with one node changed. -/
def modify (t : Tree) (id : NodeId) (f : Node → Node) : Tree :=
  { t with nodes := t.nodes.modify id f }

/-- The tree with other children at a node. -/
def setChildren (t : Tree) (id : NodeId) (children : List NodeId) : Tree :=
  t.modify id fun n => { n with children }

@[simp] theorem size_modify (t : Tree) (id : NodeId) (f : Node → Node) :
    (t.modify id f).size = t.size := by
  simp [size, modify]

theorem node_modify (t : Tree) (id j : NodeId) (f : Node → Node) :
    (t.modify id f).node j = if j = id ∧ j < t.size then f (t.node j) else t.node j := by
  unfold node modify size
  rw [Array.getElem?_modify]
  by_cases h : id = j
  · subst h
    by_cases hs : id < t.nodes.size
    · simp [hs]
    · simp [hs]
  · simp [h, Ne.symm h]

/-! ## Making nodes -/

/-- Adds a node that stands nowhere; its number is the size of the tree before. -/
def alloc (t : Tree) (n : Node) : Tree :=
  { t with nodes := t.nodes.push n, names := t.names.insert n.name t.size }

/-- A tree of a root only, which has no name and holds the given text. -/
def ofText (text : Text) (config : Config := {}) : Tree :=
  alloc ⟨#[], ⟨[]⟩, ⟨[]⟩, [], [], .empty config.glyphPool, config⟩
    ⟨[], text, none, none, none, [], []⟩

@[simp] theorem size_alloc (t : Tree) (n : Node) : (t.alloc n).size = t.size + 1 := by
  simp [size, alloc]

theorem node_alloc (t : Tree) (n : Node) (j : NodeId) :
    (t.alloc n).node j = if j = t.size then n else t.node j := by
  unfold node alloc size
  rw [Array.getElem?_push]
  by_cases h : j = t.nodes.size <;> simp [h]

/-- Gives a node another name. The index lists it last under the new one. -/
def rename (t : Tree) (id : NodeId) (name : Text) : Tree :=
  let old := (t.node id).name
  if old = name then t
  else
    { t.modify id fun n => { n with name } with
      names := (t.names.erase old id).insert name id }

end Tree

end GlyphTree
