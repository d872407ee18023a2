import GlyphTree.Text

/-!
# Glyph pools

A pool is a range of characters reserved as glyphs. Its members are counted in code point order;
the surrogate gap holds no characters and is stepped over.
-/

namespace GlyphTree

/-- The characters from `first` to `last`, both included. A pool in reverse is empty. -/
structure GlyphPool where
  first : Char
  last : Char
deriving DecidableEq, Repr

namespace GlyphPool

/-- The private use area. -/
instance : Inhabited GlyphPool := ⟨⟨'\uE000', '\uF8FF'⟩⟩

/-- The code point `n` places after `first` when the surrogate gap is left out. -/
def codePoint (first : Char) (n : Nat) : Nat :=
  if first.toNat < 0xD800 ∧ 0xD800 ≤ first.toNat + n then first.toNat + n + 0x800
  else first.toNat + n

/-- The glyph number `n` of the pool, counted from zero, if the pool is that large. -/
def nth (p : GlyphPool) (n : Nat) : Option Char :=
  let code := codePoint p.first n
  if h : code ≤ p.last.toNat ∧ code.isValidChar then some (Char.ofNatAux code h.2) else none

/-- Whether a character belongs to the pool. -/
def contains (p : GlyphPool) (c : Char) : Bool := p.first ≤ c && c ≤ p.last

end GlyphPool

end GlyphTree
