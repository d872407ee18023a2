import GlyphTree.Data.JsonPrinter
import GlyphTree.Data.JsonReader
import GlyphTree.Tree.Content

/-!
# Snapshots

A node and the children below it as plain data, apart from any tree, with a written form in JSON.
-/

namespace GlyphTree

/-- A node with everything below it. `label` is the label whose glyph stands for the node. -/
structure Snapshot where
  id : NodeId
  name : Text
  text : Text
  span : Option Span
  label : Option Text
  groups : Groups
  ignored : Bool
  folded : Bool
  children : List Snapshot
deriving Repr, Inhabited

namespace Snapshot

/-- The ends of a span as a pair. -/
def spanData (s : Span) : Data := .seq [.ofNat s.start, .ofNat s.stop]

/-- A snapshot as a record. -/
def toData : Snapshot → Data
  | ⟨id, name, text, span, label, groups, ignored, folded, children⟩ =>
    .record [("id", .ofNat id), ("name", .ofText name), ("text", .ofText text),
      ("span", .ofOption spanData span), ("label", .ofOption .ofText label),
      ("groups", .ofOption (fun gs => .seq (gs.map (.ofOption spanData))) groups),
      ("ignored", .ofBool ignored), ("folded", .ofBool folded),
      ("children", .seq (children.map toData))]

/-- The names of the fields of a snapshot. -/
def fieldNames : List Text :=
  ["id", "name", "text", "span", "label", "groups", "ignored", "folded", "children"]

/-- The span that a pair describes. -/
def spanOfData? : Data → Option Span
  | .seq [a, b] => do return ⟨← a.nat?, ← b.nat?⟩
  | _ => none

/-- Reads a value that takes `levels` further levels of nesting, if there is room for them. -/
def within {α : Type} (room levels : Nat) (read : Data → Option α) (d : Data) : Option α :=
  if levels ≤ room then read d else none

/-- The snapshot that a record describes, with `room` levels of nesting at most. -/
def ofData? : Nat → Data → Option Snapshot
  | room + 2, d => do
    match ← d.fields? fieldNames with
    | [id, name, text, span, label, groups, ignored, folded, children] =>
      let span? := Data.nullable? (within room 0 spanOfData?)
      let group? := Data.nullable? (within room 1 spanOfData?)
      return {
        id := ← Data.required? Data.nat? id
        name := ← Data.required? Data.text? name
        text := ← Data.required? Data.text? text
        span := ← Data.default? span? none span
        label := ← Data.default? (Data.nullable? Data.text?) none label
        groups := ← Data.default? (Data.nullable? fun d => d.seq?.bind (·.mapM group?)) none groups
        ignored := ← Data.required? Data.bool? ignored
        folded := ← Data.required? Data.bool? folded
        children := ← Data.required? (fun d => d.seq?.bind (·.mapM (ofData? room))) children }
    | _ => none
  | _, _ => none

/-- How deep the JSON of a snapshot may be nested to be read. -/
def maxDepth : Nat := 127

/-- A snapshot in JSON, laid out over lines. -/
def toJson (s : Snapshot) : Text := Json.pretty 0 s.toData

/-- The snapshot written in JSON. -/
def ofJson? (t : Text) : Option Snapshot := (Json.read? t).bind (ofData? maxDepth)

end Snapshot

namespace Tree

/-- The glyph that stands, or stood before unfolding, for a node in its parent's text. -/
def glyphOf (t : Tree) (n : Node) : Option Char :=
  match n.fold, n.place with
  | some f, _ => some f.glyph
  | none, some p => ((t.node? p.parent).bind (·.text.slice? p.span)).bind List.head?
  | none, none => none

/-- The snapshot of a node and what is below it, to a given depth. -/
def snapshotWithin (t : Tree) : Nat → NodeId → Snapshot
  | 0, id => ⟨id, [], [], none, none, none, false, false, []⟩
  | depth + 1, id =>
    let n := t.node id
    ⟨id, n.name, n.text, n.span, (t.glyphOf n).bind t.labels.labelFor, n.groups, t.isIgnored id,
      n.isUnfolded, n.children.map (t.snapshotWithin depth)⟩

/-- The snapshot of a node and what is below it; for an unknown number one with empty fields. -/
def snapshotOf (t : Tree) (id : NodeId) : Snapshot := t.snapshotWithin (t.size + 1) id

/-- The snapshot of the whole live tree. -/
def snapshot (t : Tree) : Snapshot := t.snapshotOf root

end Tree

end GlyphTree
