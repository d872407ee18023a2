import GlyphTree.Label.Registry
import GlyphTree.Pattern.Syntax
import GlyphTree.Sorting
import GlyphTree.Text.Search

/-!
# Expanding labels in patterns

Before a pattern is read its labels are replaced: by the macro body, which is not scanned again,
or by the glyph, escaped. At each place the longest label wins. What lies between two labels may
hold no token that looks like a label but is not defined; the names of capture groups are excused.
-/

namespace GlyphTree

namespace Label

/-- What takes the place of a label in a pattern. -/
def substitute (l : Label) : Text :=
  match l.body with
  | some body => body
  | none => Pattern.escapeChar l.glyph

/-- Whether one text comes before another, character by character. -/
def nameLe : Text → Text → Bool
  | [], _ => true
  | _ :: _, [] => false
  | a :: as, b :: bs => if a = b then nameLe as bs else a < b

/-- Longer labels first, those of one length by name. -/
def longerFirst (a b : Label) : Bool :=
  if a.name.byteSize = b.name.byteSize then nameLe a.name b.name
  else b.name.byteSize < a.name.byteSize

end Label

/-! ## Tokens that look like labels -/

/-- Whether a character may begin an identifier. -/
def isIdentStart (c : Char) : Bool := c.isAlpha || c = '_'

/-- Whether a character may go on an identifier. -/
def isIdentRest (c : Char) : Bool := c.isAlphanum || c = '_'

/-- The rest of a token after its opening bracket: an identifier and a closing bracket. Gives the
identifier. -/
def identToken? : Text → Option Text
  | [] => none
  | c :: cs =>
    if isIdentStart c then
      let ident := c :: cs.takeWhile isIdentRest
      if (cs.dropWhile isIdentRest).head? = some '>' then some ident else none
    else none

/-- The identifier tokens of a text from left to right, each with what stands before it. `before`
is what came before the text, last character first; `skip` characters belong to a token already
reported. -/
def identTokensFrom (before : Text) : Nat → Text → List (Text × Text)
  | _, [] => []
  | skip + 1, c :: cs => identTokensFrom (c :: before) skip cs
  | 0, c :: cs =>
    match (if c = '<' then identToken? cs else none) with
    | some ident =>
      (before.reverse, '<' :: ident ++ ['>']) ::
        identTokensFrom (c :: before) (ident.length + 1) cs
    | none => identTokensFrom (c :: before) 0 cs

/-- The identifier tokens of a text, each with what stands before it. -/
def identTokens (t : Text) : List (Text × Text) := identTokensFrom [] 0 t

/-- Whether what stands before a token makes it the name of a capture group. -/
def introducesGroupName (before : Text) : Bool :=
  before.endsWith "(?P" || before.endsWith "(?" || before.endsWith "\\k"

/-- The first token in a stretch of pattern text that looks like a label. -/
def undefinedToken? (stretch : Text) : Option Text :=
  ((identTokens stretch).find? fun (before, _) => !introducesGroupName before).map Prod.snd

/-! ## Expansion -/

namespace Registry

/-- The labels in the order in which they are tried at a place. -/
def byLength (r : Registry) : List Label := sortStable Label.longerFirst r.labels

/-- The label that stands at the front of a text, the longest if there are several. -/
def labelAt? (labels : List Label) (t : Text) : Option Label :=
  labels.find? fun l => (Text.dropPrefix? l.name t).isSome

/-- Expands the rest of a pattern. `stretch` is the text since the last label, last character
first; `skip` characters belong to the label just replaced. -/
def expandFrom (labels : List Label) (stretch : Text) : Nat → Text → Except HideError Text
  | _, [] =>
    match undefinedToken? stretch.reverse with
    | some token => .error (.undefinedLabel token)
    | none => .ok stretch.reverse
  | skip + 1, _ :: cs => expandFrom labels stretch skip cs
  | 0, c :: cs =>
    match labelAt? labels (c :: cs) with
    | none => expandFrom labels (c :: stretch) 0 cs
    | some l =>
      match undefinedToken? stretch.reverse with
      | some token => .error (.undefinedLabel token)
      | none =>
        match expandFrom labels [] (l.name.length - 1) cs with
        | .error e => .error e
        | .ok rest => .ok (stretch.reverse ++ l.substitute ++ rest)

/-- A pattern with every label replaced by its macro body or its glyph. -/
def expand (r : Registry) (pattern : Text) : Except HideError Text :=
  expandFrom r.byLength [] 0 pattern

end Registry

end GlyphTree
