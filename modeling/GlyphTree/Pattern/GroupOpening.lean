import GlyphTree.Pattern.Flags
import GlyphTree.Text.Search

/-!
# Openings of groups

What an opening parenthesis begins: a capture group, a plain group with flags of its own, or a
directive that sets flags for the rest of the group around it.
-/

namespace GlyphTree

/-- What an opening parenthesis begins. -/
inductive GroupOpening where
  | capture (name : Option Text)
  | plain (flags : PatternFlags)
  | directive (flags : PatternFlags)

namespace PatternReader

open Unicode

/-- Whether a character may stand in a group name, at its start or later. -/
def isGroupNameChar (first : Bool) (c : Char) : Bool :=
  if first then c = '_' || isAlphabetic c
  else c = '_' || c = '.' || c = '[' || c = ']' || isAlphanumeric c

/-- A group name up to its closing angle bracket. -/
def readGroupName (t : Text) : Except PatternError (Text × Text) :=
  match Text.splitOnce '>' t with
  | none => .error .badGroupName
  | some ([], _) => .error .badGroupName
  | some (c :: cs, rest) =>
    if isGroupNameChar true c && cs.all (isGroupNameChar false) then .ok (c :: cs, rest)
    else .error .badGroupName

/-- What follows an opening parenthesis. -/
def readGroupOpening (f : PatternFlags) (t : Text) : Except PatternError (GroupOpening × Text) := do
  match f.skipBlank t with
  | '?' :: '=' :: _ | '?' :: '!' :: _ | '?' :: '<' :: '=' :: _ | '?' :: '<' :: '!' :: _ =>
    .error .lookaround
  | '?' :: 'P' :: '<' :: rest | '?' :: '<' :: rest =>
    let (name, rest) ← readGroupName rest
    return (.capture (some name), rest)
  | '?' :: rest =>
    let (flags, after) ← f.readRow [] rest
    match after with
    | ':' :: after => return (.plain flags, after)
    | _ :: after =>
      if rest.head? = some ')' then .error .nothingToRepeat else return (.directive flags, after)
    | [] => .error .unexpectedEnd
  | t => return (.capture none, t)

end PatternReader

end GlyphTree
