import GlyphTree.Text.Quote

/-!
# Errors

What can go wrong when labels are defined, regions hidden or nodes edited, with the wording of each
cause in one place.
-/

namespace GlyphTree

/-- The number of a node in its tree. -/
abbrev NodeId := Nat

/-- Why a text is not a sequence of records. -/
inductive RecordError where
  | missingSeparator (record : Text) (separator : Char)
  | empty
  | placeholderCount (placeholders children : Nat)
deriving DecidableEq, Repr, Inhabited

/-- Why an operation on labels or nodes fails. `patternInvalid` carries the pattern with its labels
expanded. -/
inductive HideError where
  | undefinedLabel (label : Text)
  | groupOutOfRange (node : NodeId) (group available : Nat)
  | patternInvalid (pattern : Text)
  | glyphsExhausted (label : Text)
  | unknownNode (id : NodeId)
  | malformedRecords (cause : RecordError)
deriving DecidableEq, Repr, Inhabited

/-- The wording of a record error. -/
def RecordError.message : RecordError → Text
  | missingSeparator record separator =>
    "record '" ++ record ++ "' has no field separator '" ++ [separator] ++ "'"
  | empty => "no records"
  | placeholderCount placeholders children =>
    Text.ofNat placeholders ++ " placeholder(s) in the root but " ++ Text.ofNat children ++
      " child record(s)"

/-- The wording of an error. -/
def HideError.message : HideError → Text
  | undefinedLabel label => "Undefined label '" ++ label ++ "'"
  | groupOutOfRange node group available =>
    "Group " ++ Text.ofNat group ++ " requested on node " ++ Text.ofNat node ++ ", which has " ++
      Text.ofNat available ++ " group(s)"
  | patternInvalid pattern => "Invalid pattern '" ++ pattern ++ "'"
  | glyphsExhausted label => "No glyph left to define label '" ++ label ++ "'"
  | unknownNode id => "Node " ++ Text.ofNat id ++ " not found"
  | malformedRecords cause => "Malformed records: " ++ cause.message

end GlyphTree
