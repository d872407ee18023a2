import GlyphTree.Text

/-!
# Edits and remapped offsets

A change to a text is a list of edits against the unchanged text, sorted and not overlapping. They
are applied in one pass (`applyEdits`), and every offset into the old text is carried over with
`remapStart` and `remapEnd`. An offset strictly inside an edited range collapses onto the
replacement: a start onto its first byte, an end onto the byte after it.
-/

namespace GlyphTree

/-- Put `replacement` where `range` was. -/
structure Edit where
  range : Span
  replacement : Text
deriving DecidableEq, Repr, Inhabited

namespace Edit

/-- By how many bytes the edit moves what follows it. -/
def delta (e : Edit) : Int := (e.replacement.byteSize : Int) - (e.range.size : Int)

end Edit

/-- An old offset moved by the shift that the edits before it add up to. -/
def shifted (pos : Nat) (shift : Int) : Nat := ((pos : Int) + shift).toNat

/-- Applies edits to a text that starts at byte `cursor` of the whole. -/
def applyEditsFrom (cursor : Nat) (t : Text) : List Edit → Text
  | [] => t
  | e :: es =>
    t.takeBytes (e.range.start - cursor) ++ e.replacement ++
      applyEditsFrom e.range.stop (t.dropBytes (e.range.stop - cursor)) es

/-- Applies sorted edits that do not overlap. -/
def applyEdits (t : Text) (es : List Edit) : Text := applyEditsFrom 0 t es

/-- New offset of a range's start. An insertion exactly there lands before it. -/
def remapStartFrom (pos : Nat) (shift : Int) : List Edit → Nat
  | [] => shifted pos shift
  | e :: es =>
    if e.range.stop ≤ pos then remapStartFrom pos (shift + e.delta) es
    else if e.range.start < pos then shifted e.range.start shift
    else shifted pos shift

/-- New offset of a range's start `pos`. -/
def remapStart (pos : Nat) (es : List Edit) : Nat := remapStartFrom pos 0 es

/-- New offset of a range's end. An insertion exactly there lands after it. -/
def remapEndFrom (pos : Nat) (shift : Int) : List Edit → Nat
  | [] => shifted pos shift
  | e :: es =>
    if e.range.stop < pos ∨ (e.range.stop = pos ∧ e.range.start < pos) then
      remapEndFrom pos (shift + e.delta) es
    else if e.range.start < pos then shifted e.range.start shift + e.replacement.byteSize
    else shifted pos shift

/-- New offset of a range's end `pos`. -/
def remapEnd (pos : Nat) (es : List Edit) : Nat := remapEndFrom pos 0 es

/-- Where a range of the old text lies in the new one; never in reverse. -/
def remapSpan (s : Span) (es : List Edit) : Span :=
  let start := remapStart s.start es
  ⟨start, max (remapEnd s.stop es) start⟩

theorem remapSpan_ordered (s : Span) (es : List Edit) :
    (remapSpan s es).start ≤ (remapSpan s es).stop := Nat.le_max_right _ _

/-- The runs of `cursor .. size` that no atom covers, for atoms sorted by start. -/
def literalRunsFrom (cursor size : Nat) : List Span → List Span
  | [] => if cursor < size then [⟨cursor, size⟩] else []
  | a :: atoms =>
    let rest := literalRunsFrom (max cursor a.stop) size atoms
    if cursor < a.start then ⟨cursor, a.start⟩ :: rest else rest

/-- The maximal runs of a text of `size` bytes that the sorted `atoms` leave free. -/
def literalRuns (size : Nat) (atoms : List Span) : List Span := literalRunsFrom 0 size atoms

theorem applyEdits_nil (t : Text) : applyEdits t [] = t := rfl

theorem remapStart_nil (pos : Nat) : remapStart pos [] = pos := by
  simp [remapStart, remapStartFrom, shifted]

theorem remapEnd_nil (pos : Nat) : remapEnd pos [] = pos := by
  simp [remapEnd, remapEndFrom, shifted]

end GlyphTree
