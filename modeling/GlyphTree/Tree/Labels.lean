import GlyphTree.Outcome

/-!
# Labels of a tree

Defining labels in the registry that a tree keeps.
-/

namespace GlyphTree.Tree

/-- The event of a label that was defined just now, if it was not there before. -/
def labelEvents (t : Tree) (label : Text) (glyph : Char) : List Event :=
  if t.labels.isDefined label then [] else [.labelDefined label glyph]

/-- Defines a label, and gives its glyph. -/
def define (t : Tree) (label : Text) : Outcome HideError Char :=
  match t.labels.define label with
  | .error e => .failed t e
  | .ok (glyph, labels) => .done { t with labels } glyph (t.labelEvents label glyph)

/-- Defines a label with a macro body, and gives its glyph. -/
def defineMacro (t : Tree) (label body : Text) : Outcome HideError Char :=
  match t.labels.defineMacro label body with
  | .error e => .failed t e
  | .ok (glyph, labels) => .done { t with labels } glyph (t.labelEvents label glyph)

end GlyphTree.Tree
