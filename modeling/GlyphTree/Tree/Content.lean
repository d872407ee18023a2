import GlyphTree.Edit
import GlyphTree.Sorting
import GlyphTree.Tree.Walk

/-!
# Content of nodes

What a node's text is made of, seen through its children, and the three moves on which everything
that changes a tree is built: rewriting a text, putting a child into its parent's list, and moving
a group table from one text to another.
-/

namespace GlyphTree.Tree

/-! ## Views -/

/-- The bytes of a node's text that are not literal, by start. -/
def atoms (t : Tree) (id : NodeId) : List Span :=
  sortByKey Span.start ((t.children id).flatMap fun c => (t.node c).atoms)

/-- The maximal literal runs of a node's text. -/
def literalRuns (t : Tree) (id : NodeId) : List Span :=
  GlyphTree.literalRuns (t.node id).text.byteSize (t.atoms id)

/-- The edits that resolve a text: the markers of an unfolded child go, the glyph of a hidden one
gives way to the child's own resolved text. -/
def resolvingEdits (t : Tree) (resolved : NodeId → Text) (id : NodeId) : List Edit :=
  sortByKey (·.range.start) <| (t.children id).flatMap fun c =>
    let child := t.node c
    if child.isUnfolded then child.atoms.map (⟨·, []⟩)
    else child.atoms.map (⟨·, resolved c⟩)

/-- The text of a node with its children resolved to a given depth. -/
def resolve (t : Tree) : Nat → NodeId → Text
  | 0, id => (t.node id).text
  | depth + 1, id => applyEdits (t.node id).text (t.resolvingEdits (t.resolve depth) id)

/-- The text that a node stands for, without any glyph or marker of a child. -/
def expandedText (t : Tree) (id : NodeId) : Option Text :=
  if id < t.size then some (t.resolve t.size id) else none

/-! ## Moves -/

/-- A node after edits to its parent's text: its span follows them, and so do its groups if it is
unfolded. -/
def followEdits (edits : List Edit) (n : Node) : Node :=
  let n := n.mapSpan (remapSpan · edits)
  if n.isUnfolded then n.mapGroups (some <| remapSpan · edits) else n

/-- Edits a node's text. The children listed at the node and its groups follow. A child within an
edited range must have been taken off the list before. -/
def rewrite (t : Tree) (id : NodeId) (edits : List Edit) : Tree :=
  if edits.isEmpty then t
  else
    let t := t.modify id fun n => { n with text := applyEdits n.text edits }
    let t := (t.children id).foldl (fun t c => t.modify c (followEdits edits)) t
    t.modify id fun n => n.mapGroups (some <| remapSpan · edits)

/-- Where a child's span starts, for the order of siblings. -/
def startOf (t : Tree) (id : NodeId) : Nat := ((t.node id).span.map Span.start).getD 0

/-- A list of siblings with one more, before the first that starts later. -/
def insertByStart (t : Tree) (child : NodeId) : List NodeId → List NodeId
  | [] => [child]
  | c :: cs =>
    if t.startOf child < t.startOf c then child :: c :: cs
    else c :: t.insertByStart child cs

/-- Puts a node that stands at `span` into a parent's list of children. -/
def putChild (t : Tree) (parent child : NodeId) (span : Span) : Tree :=
  let t := t.modify child fun n => { n with place := some ⟨parent, span⟩ }
  t.setChildren parent (t.insertByStart child (t.children parent))

/-- A span moved by `add - sub`, if it does not move below zero. -/
def movedSpan (sub add : Nat) (s : Span) : Option Span :=
  if sub ≤ s.start + add ∧ sub ≤ s.stop + add then some ⟨s.start + add - sub, s.stop + add - sub⟩
  else none

/-- Moves the groups of a node from offset `sub` of one text to offset `add` of another. Unless the
node is unfolded, a group that does not lie within its text afterwards is dropped. -/
def moveGroups (sub add : Nat) (n : Node) : Node :=
  n.mapGroups fun s =>
    (movedSpan sub add s).filter fun m => n.isUnfolded || (n.text.slice? m).isSome

/-- Moves a child, from offset `sub` of the text it stands in, to offset `add` of the text of
`parent`. The groups of an unfolded child move with it. -/
def moveChild (t : Tree) (parent : NodeId) (sub add : Nat) (child : NodeId) : Tree :=
  let t := if (t.node child).isUnfolded then t.modify child (moveGroups sub add) else t
  match (t.node child).span with
  | some s => t.putChild parent child ⟨s.start + add - sub, s.stop + add - sub⟩
  | none => t

end GlyphTree.Tree
