/-!
# Text and byte offsets

A text is a list of characters, and every position in it is a number of UTF-8 bytes. An offset
that falls inside a character is legal as a number but is no boundary: `sliceAt?` refuses it, and
`dropBytes` rounds it up to the next boundary, so that taking and dropping always fit together
(`takeBytes_append_dropBytes`).
-/

namespace GlyphTree

/-- A text is the list of its characters. -/
abbrev Text := List Char

instance : Coe String Text := ⟨String.toList⟩

namespace Text

/-- The number of UTF-8 bytes a text takes. -/
def byteSize : Text → Nat
  | [] => 0
  | c :: cs => c.utf8Size + byteSize cs

@[simp] theorem byteSize_nil : byteSize [] = 0 := rfl

@[simp] theorem byteSize_cons (c : Char) (cs : Text) :
    byteSize (c :: cs) = c.utf8Size + byteSize cs := rfl

@[simp] theorem byteSize_append (s t : Text) : byteSize (s ++ t) = byteSize s + byteSize t := by
  induction s with
  | nil => simp
  | cons c cs ih => simp [ih, Nat.add_assoc]

theorem byteSize_eq_zero {t : Text} (h : t.byteSize = 0) : t = [] := by
  cases t with
  | nil => rfl
  | cons c cs =>
    have := c.utf8Size_pos
    simp only [byteSize_cons] at h
    omega

/-- The first `n` bytes; a character that `n` cuts is kept whole. -/
def takeBytes : Nat → Text → Text
  | _, [] => []
  | n, c :: cs => if n = 0 then [] else c :: takeBytes (n - c.utf8Size) cs

/-- What is left after the first `n` bytes; a character that `n` cuts is dropped whole. -/
def dropBytes : Nat → Text → Text
  | _, [] => []
  | n, c :: cs => if n = 0 then c :: cs else dropBytes (n - c.utf8Size) cs

theorem takeBytes_append_dropBytes (n : Nat) (t : Text) : takeBytes n t ++ dropBytes n t = t := by
  induction t generalizing n with
  | nil => rfl
  | cons c cs ih =>
    by_cases h : n = 0
    · simp [takeBytes, dropBytes, h]
    · simp [takeBytes, dropBytes, h, ih]

@[simp] theorem takeBytes_zero (t : Text) : takeBytes 0 t = [] := by
  cases t <;> simp [takeBytes]

@[simp] theorem dropBytes_zero (t : Text) : dropBytes 0 t = t := by
  cases t <;> simp [dropBytes]

/-- Whether `n` bytes of the text end between two of its characters. -/
def isBoundary (t : Text) (n : Nat) : Bool := byteSize (takeBytes n t) = n

/-- Cutting off a whole first part by its size gives it back. -/
theorem takeBytes_byteSize_append (s t : Text) : takeBytes (byteSize s) (s ++ t) = s := by
  induction s with
  | nil => simp
  | cons c cs ih =>
    have h : c.utf8Size ≠ 0 := Nat.ne_of_gt c.utf8Size_pos
    simp [takeBytes, h, ih]

theorem dropBytes_byteSize_append (s t : Text) : dropBytes (byteSize s) (s ++ t) = t := by
  induction s with
  | nil => simp
  | cons c cs ih =>
    have h : c.utf8Size ≠ 0 := Nat.ne_of_gt c.utf8Size_pos
    simp [dropBytes, h, ih]

end Text

/-- A range of byte offsets: from `start` up to, not including, `stop`. -/
structure Span where
  start : Nat
  stop : Nat
deriving DecidableEq, Repr, Inhabited

namespace Span

/-- The number of bytes a span covers. -/
def size (s : Span) : Nat := s.stop - s.start

/-- A span that covers nothing. -/
def isEmpty (s : Span) : Bool := s.stop ≤ s.start

/-- Whether two spans share a byte. -/
def overlaps (a b : Span) : Bool := a.start < b.stop && b.start < a.stop

/-- Whether `inner` lies within `outer`. An empty span encloses nothing. -/
def encloses (outer inner : Span) : Bool :=
  !outer.isEmpty && outer.start ≤ inner.start && inner.stop ≤ outer.stop

/-- The span moved right by `n` bytes. -/
def shiftUp (s : Span) (n : Nat) : Span := ⟨s.start + n, s.stop + n⟩

/-- The span moved left by `n` bytes. -/
def shiftDown (s : Span) (n : Nat) : Span := ⟨s.start - n, s.stop - n⟩

theorem shiftDown_shiftUp (s : Span) (n : Nat) : (s.shiftUp n).shiftDown n = s := by
  simp [shiftUp, shiftDown]

end Span

namespace Text

/-- The text a span covers. -/
def slice (t : Text) (s : Span) : Text := takeBytes s.size (dropBytes s.start t)

/-- The text a span covers, if the span is in order, inside the text and on its boundaries. -/
def slice? (t : Text) (s : Span) : Option Text :=
  if s.start ≤ s.stop ∧ t.isBoundary s.start ∧ t.isBoundary s.stop then some (t.slice s) else none

/-- The middle of a text is what its span covers. -/
theorem slice_middle (a b c : Text) :
    slice (a ++ b ++ c) ⟨byteSize a, byteSize a + byteSize b⟩ = b := by
  simp [slice, Span.size, List.append_assoc, dropBytes_byteSize_append, takeBytes_byteSize_append]

end Text

end GlyphTree
