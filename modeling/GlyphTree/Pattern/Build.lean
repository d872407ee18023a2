import GlyphTree.Pattern.Syntax

/-!
# Building patterns

The patterns that combinations of patterns stand for. Each constructor here brings its result into
the simplest form: no empty pieces, no row inside a row, neighbouring texts joined, single
characters in place of sets of one, sets in place of alternatives of characters.
-/

namespace GlyphTree.Pattern

open Unicode

/-- One character of a set, which was written about bytes or not. -/
def ofSet (set : CharSet) (bytes : Bool) : Pattern :=
  match set.ranges with
  | [] => fail
  | [(a, b)] => if a = b then text [Char.ofNat a] else one set bytes
  | _ => one set bytes

/-- Puts a piece in front of a row; neighbouring texts become one. -/
def consPiece (p : Pattern) (row : List Pattern) : List Pattern :=
  match p, row with
  | text s, text t :: rest => text (s ++ t) :: rest
  | p, row => p :: row

/-- One pattern after the other. -/
def concat (ps : List Pattern) : Pattern :=
  ofPieces ((ps.flatMap pieces).foldr consPiece [])

/-- Repeats a pattern. What only matches the empty text is repeated at most once, no repetition at
all is the empty pattern, groups included, and a single one is the pattern itself. -/
def repeated (p : Pattern) (min : Nat) (max : Option Nat) (greedy : Bool) : Pattern :=
  let (min, max) := if p.onlyEmpty then (Nat.min min 1, some ((max.map (Nat.min · 1)).getD 1))
    else (min, max)
  if max = some 0 then empty
  else if min = 1 ∧ max = some 1 then p
  else rep p min max greedy

/-! ## Alternatives -/

/-- The character a pattern stands for, if it is a text of one. -/
def char? : Pattern → Option Char
  | text [c] => some c
  | _ => none

/-- The set a pattern takes one character of, if it is of that kind. -/
def set? : Pattern → Option CharSet
  | one set _ => some set
  | _ => none

/-- The set that alternatives amount to, if all are characters or all are sets. -/
def commonSet? (ps : List Pattern) : Option CharSet :=
  match ps.mapM char? with
  | some cs => some (.ofCodes (cs.map Char.toNat))
  | none => (ps.mapM set?).map .unionAll

/-- The pieces that two rows start with alike. -/
def commonStart : List Pattern → List Pattern → List Pattern
  | p :: ps, q :: qs => if p = q then p :: commonStart ps qs else []
  | _, _ => []

/-- The pieces that all alternatives start with, if each is a row of several pieces. -/
def sharedPieces (ps : List Pattern) : List Pattern :=
  match ps.map pieces with
  | [] => []
  | first :: rest =>
    if (first :: rest).all fun row => 2 ≤ row.length then rest.foldl commonStart first else []

/-- One pattern or the other, where the alternatives take up to `fuel` rounds to simplify: pieces
that all of them start with are taken out in front. -/
def alternationWithin : Nat → List Pattern → Pattern
  | 0, ps => ofAlternatives ps
  | fuel + 1, ps =>
    match ps.flatMap alternatives with
    | [] => fail
    | [p] => p
    | ps =>
      match commonSet? ps with
      | some set => ofSet set false
      | none =>
        match sharedPieces ps with
        | [] => ofAlternatives ps
        | shared =>
          concat (shared ++
            [alternationWithin fuel (ps.map fun p => concat (p.pieces.drop shared.length))])

/-- One pattern or the other, the first that matches. -/
def alternation (ps : List Pattern) : Pattern :=
  alternationWithin (ps.foldr (fun p n => p.size + n) 1) ps

end GlyphTree.Pattern
