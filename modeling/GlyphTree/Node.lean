import GlyphTree.Error
import GlyphTree.Text

/-!
# Nodes

A node is a named unit of text. Where a child of it is hidden its text holds one glyph; where a
child is unfolded, the child's body between two markers. Both stretches are the atoms of the child:
the bytes of the text that are not literal.
-/

namespace GlyphTree

/-- The capture groups of the match that created a node, first group first. A group that took no
part has no span; a node from a pattern without groups has no table at all. -/
abbrev Groups := Option (List (Option Span))

/-- The glyph an unfolded node stood for, and the markers around its body. -/
structure Fold where
  glyph : Char
  opening : Char
  closing : Char
deriving DecidableEq, Repr, Inhabited

/-- Where a node stands: the bytes it takes in its parent's text. -/
structure Place where
  parent : NodeId
  span : Span
deriving DecidableEq, Repr, Inhabited

/-- A node. `children` are the hidden and unfolded children in the order of their spans, and
`expanded` those whose text has gone back into this node's for good.

The groups of a node index its own text; while it is unfolded they index its parent's, where its
body is. -/
structure Node where
  name : Text
  text : Text
  place : Option Place := none
  groups : Groups := none
  fold : Option Fold := none
  children : List NodeId := []
  expanded : List NodeId := []
deriving DecidableEq, Repr, Inhabited

namespace Node

/-- The parent, if the node stands anywhere. -/
def parent (n : Node) : Option NodeId := n.place.map Place.parent

/-- The span in the parent's text, if the node stands anywhere. -/
def span (n : Node) : Option Span := n.place.map Place.span

/-- Whether the node is unfolded. -/
def isUnfolded (n : Node) : Bool := n.fold.isSome

/-- The span of capture group number `index`, counted from one, if it was recorded. -/
def groupSpan? (n : Node) (index : Nat) : Option Span :=
  match index, n.groups with
  | i + 1, some groups => (groups[i]?).join
  | _, _ => none

/-- The text of capture group number `index`, if it was recorded and lies within the text. -/
def groupText? (n : Node) (index : Nat) : Option Text := (n.groupSpan? index).bind n.text.slice?

/-- The stretches of the parent's text that are not literal because of this node. -/
def atoms (n : Node) : List Span :=
  match n.place, n.fold with
  | none, _ => []
  | some p, none => [p.span]
  | some p, some f =>
    [⟨p.span.start, p.span.start + f.opening.utf8Size⟩,
     ⟨p.span.stop - f.closing.utf8Size, p.span.stop⟩]

/-- The node with its span changed, if it stands anywhere. -/
def mapSpan (n : Node) (f : Span → Span) : Node :=
  { n with place := n.place.map fun p => { p with span := f p.span } }

/-- The node with the span of every group that has one changed. -/
def mapGroups (n : Node) (f : Span → Option Span) : Node :=
  { n with groups := n.groups.map fun gs => gs.map (Option.bind · f) }

end Node

end GlyphTree
