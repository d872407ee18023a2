import GlyphTree.Outcome
import GlyphTree.Text.Search
import GlyphTree.Tree.Content

/-!
# Changing nodes

Edits of literal text, the ignore set, names, and moving content from node to node.
-/

namespace GlyphTree.Tree

/-! ## Literal text -/

/-- The edits that replace `old` in the literal runs of a node's text. -/
def replacingEdits (t : Tree) (old new : Text) (id : NodeId) : List Edit :=
  (t.literalRuns id).flatMap fun run =>
    (Text.occurrences old ((t.node id).text.slice run)).map fun offset =>
      ⟨⟨run.start + offset, run.start + offset + old.byteSize⟩, new⟩

/-- Replaces `old` in the literal text of nodes, and gives the number of replacements. -/
def replaceEach (old new : Text) : List NodeId → Tree → Nat × Tree
  | [], t => (0, t)
  | id :: ids, t =>
    let edits := t.replacingEdits old new id
    let (count, t) := replaceEach old new ids (t.rewrite id edits)
    (edits.length + count, t)

/-- Replaces every occurrence of a non-empty text in the literal text of the targets, and gives
their number. No occurrence reaches over a glyph or a marker. -/
def replaceAll (t : Tree) (old new target : Text) : Outcome HideError Nat :=
  if old.isEmpty then .done t 0
  else
    let (count, t) := replaceEach old new (t.targets target) t
    .done t count [.replaced count old target]

/-! ## Ignored nodes -/

/-- Ignores every node that now has a name, in reach or not. -/
def ignoreAll (t : Tree) (name : Text) : Tree :=
  { t with ignored := t.ignored ++ t.names.ids name }

/-- Ignores no node any more. -/
def unignoreAll (t : Tree) : Tree := { t with ignored := [] }

/-! ## Names -/

/-- Renames the nodes in scope that have a name, and gives their number. -/
def renameAll (t : Tree) (newName scope oldName : Text) : Nat × Tree :=
  let ids := (t.named oldName).filter (t.inScope scope)
  (ids.length, ids.foldl (fun t id => t.rename id newName) t)

/-- Renames one node. -/
def renameNode (t : Tree) (id : NodeId) (name : Text) : Outcome HideError Unit :=
  if id < t.size then .done (t.rename id name) () else .failed t (.unknownNode id)

/-! ## Content -/

/-- Adds a node without a name that stands nowhere, and gives its number. -/
def detached (t : Tree) (text : Text) : NodeId × Tree :=
  (t.size, t.alloc ⟨[], text, none, none, none, [], []⟩)

/-- Gives `target` the name, the text and the groups of `source`, and its children with them. The
children it had are dropped. -/
def replaceContent (t : Tree) (target source : NodeId) : Tree :=
  if target = source then t
  else
    let n := t.node source
    let t := (t.rename target n.name).setChildren source []
    let adopt := fun (t : Tree) child =>
      t.modify child fun c => { c with place := c.place.map fun p => { p with parent := target } }
    let t := n.children.foldl adopt t
    t.modify target fun m => { m with text := n.text, groups := n.groups, children := n.children }

/-- Overwrites one node with the content of another. -/
def replaceNode (t : Tree) (target source : NodeId) : Outcome HideError Unit :=
  if source < t.size then
    if target < t.size then .done (t.replaceContent target source) ()
    else .failed t (.unknownNode target)
  else .failed t (.unknownNode source)

/-- Exchanges the contents of two nodes by way of a fresh one. -/
def swap (t : Tree) (a b : NodeId) : Outcome HideError Unit :=
  if a < t.size then
    if b < t.size then
      let (scratch, t) := t.detached []
      .done (((t.replaceContent scratch a).replaceContent a b).replaceContent b scratch) ()
    else .failed t (.unknownNode b)
  else .failed t (.unknownNode a)

end GlyphTree.Tree
