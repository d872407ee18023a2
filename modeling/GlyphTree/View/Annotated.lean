import GlyphTree.Text.Quote
import GlyphTree.Tree.Content

/-!
# Annotated texts

A node's text as it is shown in listings: literal runs escaped, the glyph of a hidden child as
`[#id]`, the markers of an unfolded child as `[#id>` and `<#id]`.
-/

namespace GlyphTree

/-- A sign that is shown in place of some bytes of a text. -/
structure Mark where
  range : Span
  sign : Text
deriving DecidableEq, Repr, Inhabited

namespace Mark

/-- The sign of a hidden child. -/
def hiddenSign (id : NodeId) : Text := "[#" ++ Text.ofNat id ++ "]"

/-- The sign of the opening marker of an unfolded child. -/
def openingSign (id : NodeId) : Text := "[#" ++ Text.ofNat id ++ ">"

/-- The sign of the closing marker of an unfolded child. -/
def closingSign (id : NodeId) : Text := "<#" ++ Text.ofNat id ++ "]"

/-- The marks of a child: one while it is hidden, two while it is unfolded. -/
def ofChild (id : NodeId) (n : Node) : List Mark :=
  match n.atoms with
  | [opening, closing] => [⟨opening, openingSign id⟩, ⟨closing, closingSign id⟩]
  | atoms => atoms.map (⟨·, hiddenSign id⟩)

/-- A text that starts at byte `cursor` of the whole, with sorted marks in place. -/
def renderFrom (cursor : Nat) (t : Text) : List Mark → Text
  | [] => escaped t
  | m :: ms =>
    escaped (t.takeBytes (m.range.start - cursor)) ++ m.sign ++
      renderFrom m.range.stop (t.dropBytes (m.range.stop - cursor)) ms

end Mark

namespace Tree

/-- The marks of a node's children, by start. -/
def marks (t : Tree) (id : NodeId) : List Mark :=
  sortByKey (·.range.start) ((t.children id).flatMap fun c => Mark.ofChild c (t.node c))

/-- The text of a node with its children shown by number. -/
def annotatedText (t : Tree) (id : NodeId) : Text :=
  Mark.renderFrom 0 (t.node id).text (t.marks id)

end Tree

end GlyphTree
