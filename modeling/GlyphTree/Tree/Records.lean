import GlyphTree.Text.Search
import GlyphTree.Tree.Content

/-!
# Trees from records

A small tree written as a row of records: a name, a separator and a text each. The first record is
the root; each further one is a child hidden behind the next placeholder of the root's text.
-/

namespace GlyphTree

/-- The characters that structure records. -/
structure RecordSyntax where
  fieldSep : Char
  recordSep : Char
  placeholder : Char
deriving DecidableEq, Repr, Inhabited

/-- The name and text of each record; empty records do not count. -/
def RecordSyntax.records (s : RecordSyntax) (serialized : Text) :
    Except RecordError (List (Text × Text)) :=
  ((Text.splitAt s.recordSep serialized).filter (!·.isEmpty)).mapM fun record =>
    match Text.splitOnce s.fieldSep record with
    | some fields => .ok fields
    | none => .error (.missingSeparator record s.fieldSep)

namespace Tree

/-- Adds a child of the root that stands at an offset of the root's text. -/
def addChild (width : Nat) (t : Tree) (child : (Text × Text) × Nat) : Tree :=
  let ((name, text), start) := child
  (t.alloc ⟨name, text, some ⟨root, ⟨start, start + width⟩⟩, none, none, [], []⟩).setChildren root
    (t.children root ++ [t.size])

/-- The tree that a row of records describes. -/
def ofRecords (s : RecordSyntax) (serialized : Text) : Except HideError Tree :=
  match s.records serialized with
  | .error e => .error (.malformedRecords e)
  | .ok [] => .error (.malformedRecords .empty)
  | .ok ((name, text) :: rest) =>
    let slots := Text.occurrences [s.placeholder] text
    if slots.length = rest.length then
      let t := (ofText text).rename root name
      .ok ((rest.zip slots).foldl (addChild s.placeholder.utf8Size) t)
    else .error (.malformedRecords (.placeholderCount slots.length rest.length))

end Tree

end GlyphTree
