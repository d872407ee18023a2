/-!
# Code points as rows of bytes

In UTF-8 a character takes one to four bytes. The characters of a range of code points are those of
a few rows of byte ranges: the first byte is in the first range of the row, the second in the
second, and every choice of bytes is a character of the range.
-/

namespace GlyphTree

/-- A range of bytes, ends included. -/
abbrev ByteRange := Nat × Nat

/-- The bytes of a code point. -/
def utf8Bytes (n : Nat) : List Nat :=
  if n < 0x80 then [n]
  else if n < 0x800 then [0xC0 + n / 0x40, 0x80 + n % 0x40]
  else if n < 0x10000 then [0xE0 + n / 0x1000, 0x80 + n / 0x40 % 0x40, 0x80 + n % 0x40]
  else [0xF0 + n / 0x40000, 0x80 + n / 0x1000 % 0x40, 0x80 + n / 0x40 % 0x40, 0x80 + n % 0x40]

/-- Where a range that crosses a multiple of `block` must be cut so that its upper part starts, or
its lower part ends, with a whole block: the code points on both sides of the cut. -/
def blockCut? (lo hi block : Nat) : Option (Nat × Nat) :=
  if lo / block = hi / block then none
  else if lo % block ≠ 0 then some (lo / block * block + block - 1, (lo / block + 1) * block)
  else if hi % block ≠ block - 1 then some (hi / block * block - 1, hi / block * block)
  else none

/-- Where a range is no single row, the code points on both sides of its first cut: around the code
points that are no characters, where the number of bytes changes, and at blocks of last bytes. -/
def rowCut? (lo hi : Nat) : Option (Nat × Nat) :=
  if lo < 0xE000 ∧ 0xD7FF < hi then some (0xD7FF, 0xE000)
  else match [0x7F, 0x7FF, 0xFFFF].find? fun top => lo ≤ top ∧ top < hi with
    | some top => some (top, top + 1)
    | none =>
      if hi ≤ 0x7F then none else [0x40, 0x1000, 0x40000].findSome? (blockCut? lo hi)

/-- The rows of a range of code points, cut at most `fuel` times in a row. -/
def byteRowsWithin : Nat → Nat → Nat → List (List ByteRange)
  | 0, _, _ => []
  | fuel + 1, lo, hi =>
    if hi < lo then []
    else match rowCut? lo hi with
      | none => [(utf8Bytes lo).zip (utf8Bytes hi)]
      | some (a, b) => byteRowsWithin fuel lo a ++ byteRowsWithin fuel b hi

/-- The rows of a range of code points. No range has to be cut thirty times in a row. -/
def byteRows (lo hi : Nat) : List (List ByteRange) := byteRowsWithin 30 lo hi

end GlyphTree
