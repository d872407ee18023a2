import GlyphTree.Label.Expand
import GlyphTree.Tree.Walk

/-!
# Queries by name

Looking nodes up by name: one at a time with a cursor kept for each name, the first one, or all of
them grouped by their text.
-/

namespace GlyphTree.Tree

/-- The next node with a name in document order. After the last one there is none, and the
iteration starts anew. -/
def getNode (t : Tree) (name : Text) : Option NodeId × Tree :=
  let position := t.cursors.get name
  match (t.named name)[position]? with
  | some id => (some id, { t with cursors := t.cursors.set name (position + 1) })
  | none => (none, { t with cursors := t.cursors.reset name })

/-- Starts the iteration over a name anew. -/
def resetNode (t : Tree) (name : Text) : Tree := { t with cursors := t.cursors.reset name }

/-- The first node with a name; no iteration is touched. -/
def firstNode (t : Tree) (name : Text) : Option NodeId := (t.named name).head?

/-- Adds a node to the group of its text, in groups sorted by text. -/
def addToGroup (text : Text) (id : NodeId) : List (Text × List NodeId) → List (Text × List NodeId)
  | [] => [(text, [id])]
  | (other, ids) :: rest =>
    if text = other then (other, ids ++ [id]) :: rest
    else if Label.nameLe text other then (text, [id]) :: (other, ids) :: rest
    else (other, ids) :: addToGroup text id rest

/-- The nodes with a name, grouped by text; the groups are in the order of their texts. Only nodes
whose parent has the given name count, all of them if that is the wildcard. -/
def groupByText (t : Tree) (parentName name : Text) : List (Text × List NodeId) :=
  let counts := fun id =>
    t.config.isWildcard parentName ||
      match (t.node id).parent with
      | none => false
      | some p => (t.node p).name = parentName
  ((t.named name).filter counts).foldl (fun groups id => addToGroup (t.node id).text id groups) []

end GlyphTree.Tree
