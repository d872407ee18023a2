/-!
# Sets of characters

A set of characters is a list of ranges of code points. The lists that the operations build are in
ascending order, and between two ranges at least one code point is left out. The code points
`D800` to `DFFF` stand for no character; a set of characters may go on behind them as if they were
not there.
-/

namespace GlyphTree.Unicode

/-- Ranges of code points, ends included, that stand for the characters in them. -/
structure CharSet where
  ranges : List (Nat × Nat)
deriving DecidableEq, Repr, Inhabited

/-- The code point of the next character. -/
def nextCode (n : Nat) : Nat := if n = 0xD7FF then 0xE000 else n + 1

/-- The code point of the character before. -/
def prevCode (n : Nat) : Nat := if n = 0xE000 then 0xD7FF else n - 1

/-- The greatest code point. -/
def maxCode : Nat := 0x10FFFF

namespace CharSet

/-! ## Tables -/

/-- The value of an upper-case hexadecimal digit. -/
def hexDigit (c : Char) : Nat :=
  if c.isDigit then c.toNat - '0'.toNat else c.toNat - 'A'.toNat + 10

/-- The number a row of upper-case hexadecimal digits stands for. -/
def hexValue (digits : List Char) : Nat := digits.foldl (fun n c => 16 * n + hexDigit c) 0

/-- One entry of a table: a code point, the ends of a range with a hyphen between them, or such a
range and a slash if only every second code point is meant. -/
def readEntry (entry : List Char) : List (Nat × Nat) :=
  let first := entry.takeWhile (· != '-')
  let last := (entry.drop (first.length + 1)).takeWhile (· != '/')
  let lo := hexValue first
  if last.isEmpty then [(lo, lo)]
  else if entry.contains '/' then
    (List.range ((hexValue last - lo) / 2 + 1)).map fun i => (lo + 2 * i, lo + 2 * i)
  else [(lo, hexValue last)]

/-- The entries of a line of a table, which stand between blanks. `entry` is the end of the line
that has been seen of the first one. -/
def splitEntries : List Char → List Char → List (List Char)
  | [], entry => [entry]
  | c :: cs, entry =>
    if c = ' ' then entry :: splitEntries cs [] else splitEntries cs (entry ++ [c])

/-! ## Building sets -/

/-- Puts a range into ranges in ascending order; those it meets or touches become one with it. -/
def insertRange (lo hi : Nat) : List (Nat × Nat) → List (Nat × Nat)
  | [] => [(lo, hi)]
  | (a, b) :: rest =>
    if hi + 1 < a then (lo, hi) :: (a, b) :: rest
    else if b + 1 < lo then (a, b) :: insertRange lo hi rest
    else insertRange (min lo a) (max hi b) rest

/-- The empty set. -/
def none : CharSet := ⟨[]⟩

/-- The set of all characters. -/
def all : CharSet := ⟨[(0, maxCode)]⟩

/-- The code points in any of the given ranges. -/
def ofRanges (ranges : List (Nat × Nat)) : CharSet :=
  ⟨ranges.foldr (fun r rs => insertRange r.1 r.2 rs) []⟩

/-- The given code points. -/
def ofCodes (codes : List Nat) : CharSet := ofRanges (codes.map fun n => (n, n))

/-- The characters from one to another. -/
def range (first last : Char) : CharSet := ⟨[(first.toNat, last.toNat)]⟩

/-- The set of one character. -/
def single (c : Char) : CharSet := range c c

/-- The code points that a table lists. -/
def ofTable (lines : List String) : CharSet :=
  ofRanges (lines.flatMap fun line => (splitEntries line.toList []).flatMap readEntry)

/-! ## Questions -/

/-- Whether one of the ranges, in ascending order, holds a code point. -/
def rangesContain (n : Nat) : List (Nat × Nat) → Bool
  | [] => false
  | (a, b) :: rest => if n < a then false else n ≤ b || rangesContain n rest

/-- Whether a set holds a code point. -/
def containsCode (s : CharSet) (n : Nat) : Bool := rangesContain n s.ranges

/-- Whether a set holds a character. -/
def contains (s : CharSet) (c : Char) : Bool := s.containsCode c.toNat

/-- Whether a set is empty. -/
def isEmpty (s : CharSet) : Bool := s.ranges.isEmpty

/-- Whether a set holds nothing but ASCII characters. -/
def isAscii (s : CharSet) : Bool := s.ranges.all fun r => r.2 < 0x80

/-! ## Set operations -/

/-- The characters of one set or the other. -/
def union (s t : CharSet) : CharSet :=
  ofRanges (s.ranges.merge t.ranges fun x y => x.1 ≤ y.1)

/-- The characters of any of some sets. -/
def unionAll (sets : List CharSet) : CharSet := sets.foldr union none

/-- The characters of both sets. -/
def inter (s t : CharSet) : CharSet :=
  ⟨s.ranges.flatMap fun (a, b) => t.ranges.filterMap fun (c, d) =>
    if max a c ≤ min b d then some (max a c, min b d) else Option.none⟩

/-- What is left of ranges when the code points from `lo` to `hi` are cut out of them. -/
def cut (lo hi : Nat) (ranges : List (Nat × Nat)) : List (Nat × Nat) :=
  ranges.flatMap fun (a, b) =>
    if b < lo ∨ hi < a then [(a, b)]
    else (if a < lo then [(a, prevCode lo)] else []) ++ (if hi < b then [(nextCode hi, b)] else [])

/-- The characters of the first set that are not in the second. -/
def diff (s t : CharSet) : CharSet :=
  ⟨t.ranges.foldl (fun rs r => cut r.1 r.2 rs) s.ranges⟩

/-- The characters that are in one set but not in the other. -/
def symmDiff (s t : CharSet) : CharSet := (s.union t).diff (s.inter t)

/-- The gaps between ranges up to `top`, from `next` on. The gap between two ranges is what lies
between the character after the first and the one before the second; where the ranges touch over
the code points of no character, the gap is those two characters themselves. -/
def gaps (top : Nat) : Nat → List (Nat × Nat) → List (Nat × Nat)
  | next, [] => if next ≤ top then [(next, top)] else []
  | next, (a, b) :: rest =>
    (if a = 0 then [] else [(min next (prevCode a), max next (prevCode a))]) ++
      gaps top (nextCode b) rest

/-- The code points up to `top` that are not in a set. -/
def complBelow (top : Nat) (s : CharSet) : CharSet := ⟨gaps top 0 s.ranges⟩

/-- The characters that are not in a set. -/
def compl (s : CharSet) : CharSet := s.complBelow maxCode

end CharSet

end GlyphTree.Unicode
