import GlyphTree.Text
import GlyphTree.Unicode.Property

/-!
# Flags of patterns

Why a text is not a pattern, the flags that say how pattern text is read, and the blanks and
comments that one of them lets in.
-/

namespace GlyphTree

/-- Why a text is not a pattern. -/
inductive PatternError where
  | unexpectedEnd
  | unclosedGroup
  | unopenedGroup
  | unclosedClass
  | unclosedCount
  | nothingToRepeat
  | badCount
  | badRange
  | badClassItem
  | badCodePoint
  | unknownEscape
  | backreference
  | lookaround
  | badGroupName
  | duplicateGroupName
  | badFlags
  | unknownProperty
  | unknownWordBoundary
  | unicodeDisabled
  | notText
  | tooDeep
  | tooLarge
deriving DecidableEq, Repr, Inhabited

/-- What the flags in force say at some place of a pattern. -/
structure PatternFlags where
  ignoreCase : Bool := false
  multiLine : Bool := false
  dotAll : Bool := false
  swapGreed : Bool := false
  unicode : Bool := true
  crlf : Bool := false
  ignoreBlank : Bool := false
deriving DecidableEq, Repr, Inhabited

namespace PatternFlags

open Unicode

/-! ## Blanks and comments -/

/-- Drops white space and comments; a comment runs from a number sign to the end of its line. -/
def dropBlank (inComment : Bool) : Text → Text
  | [] => []
  | c :: cs =>
    if inComment then dropBlank (c != '\n') cs
    else if isWhiteSpace c then dropBlank false cs
    else if c = '#' then dropBlank true cs
    else c :: cs

/-- Drops white space and comments where they do not count. -/
def skipBlank (f : PatternFlags) (t : Text) : Text :=
  if f.ignoreBlank then dropBlank false t else t

/-- Splits at the first closing brace; blanks and comments before it are dropped where they do not
count. -/
def untilBrace (f : PatternFlags) (inComment : Bool) : Text → Option (Text × Text)
  | [] => none
  | c :: cs =>
    if inComment then f.untilBrace (c != '\n') cs
    else if f.ignoreBlank && isWhiteSpace c then f.untilBrace false cs
    else if f.ignoreBlank && c = '#' then f.untilBrace true cs
    else if c = '\x7d' then some ([], cs)
    else (f.untilBrace false cs).map fun (inside, rest) => (c :: inside, rest)

/-! ## Rows of flags -/

/-- The flags with one of them switched on or off. -/
def setFlag (f : PatternFlags) (on : Bool) : Char → Option PatternFlags
  | 'i' => some { f with ignoreCase := on }
  | 'm' => some { f with multiLine := on }
  | 's' => some { f with dotAll := on }
  | 'U' => some { f with swapGreed := on }
  | 'u' => some { f with unicode := on }
  | 'R' => some { f with crlf := on }
  | 'x' => some { f with ignoreBlank := on }
  | _ => none

/-- A row of flags up to a colon or a closing parenthesis; no flag twice, one hyphen at most and
not at the end. `seen` are the characters read so far, last first. -/
def readRow (f : PatternFlags) (seen : Text) : Text → Except PatternError (PatternFlags × Text)
  | [] => .error .unexpectedEnd
  | c :: cs =>
    if c = ':' || c = ')' then
      if seen.head? = some '-' then .error .badFlags else .ok (f, c :: cs)
    else if seen.contains c then .error .badFlags
    else if c = '-' then f.readRow (c :: seen) cs
    else match f.setFlag (!seen.contains '-') c with
      | some f => f.readRow (c :: seen) cs
      | none => .error .badFlags

end PatternFlags

end GlyphTree
