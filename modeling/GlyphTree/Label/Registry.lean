import GlyphTree.Error
import GlyphTree.Label.Pool

/-!
# Labels

A label is a name bound to one glyph of a pool, and maybe to a macro body. The registry keeps the
labels in the order they were first defined, so that label number `n` owns glyph number `n`. A
label of one character that was never defined stands for that character itself.
-/

namespace GlyphTree

/-- A defined label. -/
structure Label where
  name : Text
  glyph : Char
  body : Option Text
deriving DecidableEq, Repr, Inhabited

/-- The labels of one document, first defined first. -/
structure Registry where
  pool : GlyphPool
  labels : List Label
deriving DecidableEq, Repr, Inhabited

namespace Registry

/-- No labels yet. -/
def empty (pool : GlyphPool) : Registry := ⟨pool, []⟩

/-- The label with a name. -/
def get? (r : Registry) (name : Text) : Option Label := r.labels.find? (·.name = name)

/-- Whether a name is defined. -/
def isDefined (r : Registry) (name : Text) : Bool := (r.get? name).isSome

/-- The number of labels. -/
def size (r : Registry) : Nat := r.labels.length

/-- Defines a label with the next glyph of the pool. A label that is there keeps its glyph and its
body. -/
def define (r : Registry) (name : Text) : Except HideError (Char × Registry) :=
  match r.get? name with
  | some l => .ok (l.glyph, r)
  | none =>
    match r.pool.nth r.size with
    | some glyph => .ok (glyph, { r with labels := r.labels ++ [⟨name, glyph, none⟩] })
    | none => .error (.glyphsExhausted name)

/-- The registry with another body for a label. -/
def setBody (r : Registry) (name body : Text) : Registry :=
  { r with labels := r.labels.map fun l => if l.name = name then { l with body := body } else l }

/-- Defines a label with a macro body, in place of the one it may have had. -/
def defineMacro (r : Registry) (name body : Text) : Except HideError (Char × Registry) :=
  match r.define name with
  | .ok (glyph, r) => .ok (glyph, r.setBody name body)
  | .error e => .error e

/-- The glyph that hiding with a label leaves: that of the label, or the label itself if it is one
character. -/
def glyph (r : Registry) (label : Text) : Except HideError Char :=
  match r.get? label, label with
  | some l, _ => .ok l.glyph
  | none, [c] => .ok c
  | none, _ => .error (.undefinedLabel label)

/-- The name of the label that owns a glyph. -/
def labelFor (r : Registry) (glyph : Char) : Option Text :=
  (r.labels.find? (·.glyph = glyph)).map Label.name

end Registry

end GlyphTree
