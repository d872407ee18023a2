import GlyphTree.Text

/-!
# Places in YAML text

The structure of YAML follows from lines and columns, so a place in a text knows its own. Five
characters end a line, and a carriage return with a line feed ends one line, not two.
-/

namespace GlyphTree.Yaml

/-- A place in a text: what is left, the number of characters before, the line and the column. -/
structure Place where
  rest : Text
  index : Nat
  line : Nat
  column : Nat
deriving Repr, Inhabited

/-- Whether a character ends a line. -/
def isBreak (c : Char) : Bool :=
  c = '\n' || c = '\r' || c = '\u0085' || c = '\u2028' || c = '\u2029'

/-- Whether a character is a space or a tab. -/
def isBlank (c : Char) : Bool := c = ' ' || c = '\t'

/-- Whether a text starts with a blank or a line break, or is at its end. -/
def atGap : Text → Bool
  | [] => true
  | c :: _ => isBlank c || isBreak c

/-- Whether a text starts with a line break, or is at its end. -/
def atLineEnd : Text → Bool
  | [] => true
  | c :: _ => isBreak c

/-- Whether a text starts with three of the given characters and a gap. -/
def startsMarker (sign : Char) : Text → Bool
  | a :: b :: c :: rest => a = sign && b = sign && c = sign && atGap rest
  | _ => false

/-- Characters of names: ASCII letters and digits, the underscore and the hyphen. -/
def isNameChar (c : Char) : Bool := c.isAlphanum || c = '_' || c = '-'

/-- What a line break adds to a scalar: the two Unicode separators stand for themselves. -/
def breakChar (c : Char) : Char := if c = '\u2028' || c = '\u2029' then c else '\n'

namespace Place

/-- The start of a text. -/
def start (t : Text) : Place := ⟨t, 0, 0, 0⟩

/-- The place some characters further on, none of which is a line break. -/
def skip (p : Place) (n : Nat) : Place :=
  { p with rest := p.rest.drop n, index := p.index + n, column := p.column + n }

/-- The place behind the leading characters that a test accepts, none of which is a line break. -/
def skipWhile (p : Place) (test : Char → Bool) : Place :=
  p.skip (p.rest.takeWhile test).length

/-- What the line break at a place adds to a scalar, and the place behind it. -/
def lineBreak? (p : Place) : Option (Char × Place) :=
  match p.rest with
  | '\r' :: '\n' :: rest => some ('\n', ⟨rest, p.index + 2, p.line + 1, 0⟩)
  | c :: rest =>
    if isBreak c then some (breakChar c, ⟨rest, p.index + 1, p.line + 1, 0⟩) else none
  | [] => none

/-- The place behind the line break, if there is one. -/
def skipBreak (p : Place) : Place := (p.lineBreak?.map (·.2)).getD p

/-- Whether a document marker stands here: three hyphens or three full stops that start a line. -/
def atMarker (p : Place) : Bool :=
  p.column = 0 && (startsMarker '-' p.rest || startsMarker '.' p.rest)

/-- The place at the end of the line, where only blanks and a comment may stand before it; the line
break is skipped as well. -/
def endOfLine? (p : Place) : Option Place :=
  let p := p.skipWhile isBlank
  let p := if p.rest.head? = some '#' then p.skipWhile (!isBreak ·) else p
  if atLineEnd p.rest then some p.skipBreak else none

end Place

end GlyphTree.Yaml
