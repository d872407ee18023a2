import GlyphTree.Text
import GlyphTree.Unicode.Property

/-!
# Patterns

The abstract syntax of a pattern. Flags are gone: each node already says what it means under the
flags it was written with. Rows of pieces and rows of alternatives lean to the right, so that one
pattern stands for one row.
-/

namespace GlyphTree

open Unicode

/-- A condition on a place between two characters. Word conditions come for all word characters
(`ascii` false) or for the ASCII ones only. -/
inductive Look where
  | textStart
  | textEnd
  | lineStart
  | lineEnd
  | lineStartCrlf
  | lineEndCrlf
  | wordBoundary (ascii : Bool)
  | notWordBoundary (ascii : Bool)
  | wordStart (ascii : Bool)
  | wordEnd (ascii : Bool)
  | wordStartHalf (ascii : Bool)
  | wordEndHalf (ascii : Bool)
deriving DecidableEq, Repr, Inhabited

namespace Look

/-- Whether there is a word character on one side of a place. -/
def isWordSide (ascii : Bool) : Option Char → Bool
  | none => false
  | some c => if ascii then isAsciiWord c else isWord c

/-- Whether the condition holds between the characters `before` and `after`. -/
def holds (l : Look) (before after : Option Char) : Bool :=
  match l with
  | textStart => before.isNone
  | textEnd => after.isNone
  | lineStart => before.isNone || before = some '\n'
  | lineEnd => after.isNone || after = some '\n'
  | lineStartCrlf =>
    before.isNone || before = some '\n' || (before = some '\r' && after != some '\n')
  | lineEndCrlf =>
    after.isNone || after = some '\r' || (after = some '\n' && before != some '\r')
  | wordBoundary ascii => isWordSide ascii before != isWordSide ascii after
  | notWordBoundary ascii => isWordSide ascii before == isWordSide ascii after
  | wordStart ascii => !isWordSide ascii before && isWordSide ascii after
  | wordEnd ascii => isWordSide ascii before && !isWordSide ascii after
  | wordStartHalf ascii => !isWordSide ascii before
  | wordEndHalf ascii => !isWordSide ascii after

end Look

/-- A pattern: a text that stands for itself, one character of a set, a condition, a capture group,
and the ways to combine patterns. Alternatives are tried left first; a repetition tries to go on
first if it is greedy, to stop first if it is not. A set says whether it was written about bytes;
it matches the same characters either way. -/
inductive Pattern where
  | empty
  | text (t : Text)
  | one (set : CharSet) (bytes : Bool)
  | look (l : Look)
  | group (index : Nat) (p : Pattern)
  | seq (p q : Pattern)
  | alt (p q : Pattern)
  | rep (p : Pattern) (min : Nat) (max : Option Nat) (greedy : Bool)
deriving DecidableEq, Repr, Inhabited

namespace Pattern

/-- Whether a character means something in the text of a pattern. -/
def isMeta (c : Char) : Bool := "\\.+*?()|[]\x7b\x7d^$#&-~".toList.contains c

/-- A character in the text of a pattern that is to match itself. -/
def escapeChar (c : Char) : Text := if isMeta c then ['\\', c] else [c]

/-! ## Rows -/

/-- The pieces a pattern is a row of. -/
def pieces : Pattern → List Pattern
  | empty => []
  | seq p q => p.pieces ++ q.pieces
  | p => [p]

/-- One pattern after the other. -/
def ofPieces : List Pattern → Pattern
  | [] => empty
  | [p] => p
  | p :: ps => seq p (ofPieces ps)

/-- The alternatives a pattern is a row of. -/
def alternatives : Pattern → List Pattern
  | alt p q => p.alternatives ++ q.alternatives
  | p => [p]

/-- The pattern that nothing matches. -/
def fail : Pattern := one .none false

/-- One pattern or the other, the first that matches. -/
def ofAlternatives : List Pattern → Pattern
  | [] => fail
  | [p] => p
  | p :: ps => alt p (ofAlternatives ps)

/-! ## What the form of a pattern tells -/

/-- The number of nodes of a pattern. -/
def size : Pattern → Nat
  | empty | text _ | one _ _ | look _ => 1
  | group _ p | rep p _ _ _ => p.size + 1
  | seq p q | alt p q => p.size + q.size + 1

/-- The number of the last capture group. -/
def groupCount : Pattern → Nat
  | empty | text _ | one _ _ | look _ => 0
  | group i p => max i p.groupCount
  | seq p q | alt p q => max p.groupCount q.groupCount
  | rep p _ _ _ => p.groupCount

/-- Whether every match is empty. -/
def onlyEmpty : Pattern → Bool
  | empty | look _ => true
  | text _ | one _ _ => false
  | group _ p => p.onlyEmpty
  | seq p q | alt p q => p.onlyEmpty && q.onlyEmpty
  | rep p _ max _ => p.onlyEmpty || max = some 0

/-- The least length of a match, as far as the form tells; none where some piece matches nothing. -/
def minLength : Pattern → Option Nat
  | empty | look _ => some 0
  | text t => some t.length
  | one set _ => if set.isEmpty then none else some 1
  | group _ p => p.minLength
  | seq p q =>
    match p.minLength, q.minLength with
    | some m, some n => some (m + n)
    | _, _ => none
  | alt p q =>
    match p.minLength, q.minLength with
    | some m, some n => some (min m n)
    | _, _ => none
  | rep p min _ _ => p.minLength.map (· * min)

/-- Whether the form tells that no match is empty. -/
def consumes (p : Pattern) : Bool := p.minLength.any (0 < ·)

/-- Whether the form tells that every match starts where the text does. -/
def startsAtTextStart : Pattern → Bool
  | look l => l = .textStart
  | group _ p => p.startsAtTextStart
  | seq p q => p.startsAtTextStart || (p.onlyEmpty && q.startsAtTextStart)
  | alt p q => p.startsAtTextStart && q.startsAtTextStart
  | rep p min _ _ => 0 < min && p.startsAtTextStart
  | empty | text _ | one _ _ => false

/-- Whether the form tells that every match ends where the text does. -/
def endsAtTextEnd : Pattern → Bool
  | look l => l = .textEnd
  | group _ p => p.endsAtTextEnd
  | seq p q => q.endsAtTextEnd || (q.onlyEmpty && p.endsAtTextEnd)
  | alt p q => p.endsAtTextEnd && q.endsAtTextEnd
  | rep p min _ _ => 0 < min && p.endsAtTextEnd
  | empty | text _ | one _ _ => false

end Pattern

end GlyphTree
