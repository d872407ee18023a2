import GlyphTree.Proofs.Atoms
import GlyphTree.Proofs.Expansion
import GlyphTree.View.Annotated

/-!
# Checked work on texts

The model never fails: a slice is cut wherever its ends fall, and a difference below zero is zero.
Here and in the modules after this one the same work is done with checks, in `Option`: there is no
result if a slice is not on boundaries of its text, a number is not that of a node, a difference is
below zero, or a loop does not come to its end. The checked form of `f` is `f?`, and where it gives a
result that is what `f` gives.

First texts: edits and remapped offsets are safe if the edits cut pieces out of the text, and labels
can be cut off a pattern if none of them is empty.
-/

namespace GlyphTree

/-- A difference that is not below zero. -/
def minus? (a b : Nat) : Option Nat := if b ≤ a then some (a - b) else none

theorem minus?_eq {a b : Nat} (h : b ≤ a) : minus? a b = some (a - b) := if_pos h

/-- A step that gives a result goes on with it. -/
theorem bind_eq_of_some {α β : Type} {o : Option α} {a : α} (h : o = some a) (f : α → Option β) :
    o >>= f = f a := by
  rw [h]
  rfl

namespace Text

/-- What is left of a text behind an offset, if that is a boundary. -/
def dropBytes? (t : Text) (n : Nat) : Option Text :=
  if t.isBoundary n then some (t.dropBytes n) else none

theorem dropBytes?_append (a b : Text) : dropBytes? (a ++ b) a.byteSize = some b := by
  have hb : (a ++ b).isBoundary a.byteSize = true := isBoundary_iff.2 ⟨a, b, rfl, rfl⟩
  rw [dropBytes?, if_pos hb, dropBytes_byteSize_append]

theorem Holds.slice?_eq {t : Text} {s : Span} (h : t.Holds s) : t.slice? s = some (t.slice s) :=
  if_pos ⟨h.1, isBoundary_iff_boundary.2 h.2.1, isBoundary_iff_boundary.2 h.2.2⟩

/-! ## Texts in place of ranges -/

section

variable (shown : Text → Text)

/-- A text from byte `cursor` on, with other texts in place of sorted ranges. -/
def weave? (t : Text) (cursor : Nat) : List (Span × Text) → Option Text
  | [] => (t.dropBytes? cursor).map shown
  | (s, new) :: rest => do
    let kept ← t.slice? ⟨cursor, s.start⟩
    let behind ← weave? t s.stop rest
    return shown kept ++ new ++ behind

/-- Pieces can be cut out of a text one after the other. -/
theorem weave?_eq {l : List (Span × Text)} (u : Text) {t : Text}
    (h : Pieces u.byteSize t (l.map Prod.fst)) :
    weave? shown (u ++ t) u.byteSize l = some (weave shown u.byteSize t l) := by
  induction l generalizing u t with
  | nil => rw [weave?, dropBytes?_append]; rfl
  | cons x l ih =>
    obtain ⟨s, new⟩ := x
    cases h with
    | cons a b h =>
      rename_i v
      have hsize : u.byteSize + a.byteSize + b.byteSize = byteSize (u ++ a ++ b) := by
        simp [Nat.add_assoc]
      have hkept := slice?_append u a (b ++ v)
      have hrest := ih (u ++ a ++ b) (hsize ▸ h)
      have htake : takeBytes (u.byteSize + a.byteSize - u.byteSize) (a ++ b ++ v) = a := by
        rw [Nat.add_sub_cancel_left, List.append_assoc, takeBytes_byteSize_append]
      have hdrop : dropBytes (byteSize (u ++ a ++ b) - u.byteSize) (a ++ b ++ v) = v := by
        rw [← hsize, Nat.add_assoc, Nat.add_sub_cancel_left, ← byteSize_append,
          dropBytes_byteSize_append]
      have happ : u ++ (a ++ b ++ v) = u ++ a ++ (b ++ v) := by simp
      rw [weave?, weave, htake, hsize, hdrop, happ, hkept, ← List.append_assoc (u ++ a), hrest]
      rfl

end

end Text

/-! ## Edits -/

/-- Applies edits to a text. -/
def applyEdits? (t : Text) (es : List Edit) : Option Text :=
  t.weave? id 0 (es.map fun e => (e.range, e.replacement))

theorem applyEdits?_eq {t : Text} {es : List Edit} (h : Pieces 0 t (es.map Edit.range)) :
    applyEdits? t es = some (applyEdits t es) := by
  rw [applyEdits, applyEditsFrom_eq_weave]
  exact Text.weave?_eq id [] (by simpa [List.map_map, Function.comp_def] using h)

/-- A text with marks in place, what is between them escaped. -/
def Mark.render? (t : Text) (ms : List Mark) : Option Text :=
  t.weave? escaped 0 (ms.map fun m => (m.range, m.sign))

theorem Mark.renderFrom_eq_weave (cursor : Nat) (t : Text) (ms : List Mark) :
    renderFrom cursor t ms = Text.weave escaped cursor t (ms.map fun m => (m.range, m.sign)) := by
  induction ms generalizing cursor t with
  | nil => rfl
  | cons m ms ih => rw [renderFrom, ih]; rfl

theorem Mark.render?_eq {t : Text} {ms : List Mark} (h : Pieces 0 t (ms.map Mark.range)) :
    render? t ms = some (renderFrom 0 t ms) := by
  rw [renderFrom_eq_weave]
  exact Text.weave?_eq escaped [] (by simpa [List.map_map, Function.comp_def] using h)

/-! ## Offsets -/

/-- An old offset moved by a shift that does not take it below zero. -/
def shifted? (pos : Nat) (shift : Int) : Option Nat :=
  if 0 ≤ (pos : Int) + shift then some (shifted pos shift) else none

/-- New offset of a range's start. -/
def remapStartFrom? (pos : Nat) (shift : Int) : List Edit → Option Nat
  | [] => shifted? pos shift
  | e :: es =>
    if e.range.stop ≤ pos then remapStartFrom? pos (shift + e.delta) es
    else if e.range.start < pos then shifted? e.range.start shift
    else shifted? pos shift

/-- New offset of a range's end. -/
def remapEndFrom? (pos : Nat) (shift : Int) : List Edit → Option Nat
  | [] => shifted? pos shift
  | e :: es =>
    if e.range.stop < pos ∨ (e.range.stop = pos ∧ e.range.start < pos) then
      remapEndFrom? pos (shift + e.delta) es
    else if e.range.start < pos then
      (shifted? e.range.start shift).map (· + e.replacement.byteSize)
    else shifted? pos shift

/-- Where a range of the old text lies in the new one. -/
def remapSpan? (s : Span) (es : List Edit) : Option Span := do
  let start ← remapStartFrom? s.start 0 es
  let stop ← remapEndFrom? s.stop 0 es
  return ⟨start, max stop start⟩

section

variable {o : Nat} {t : Text} {es : List Edit}

theorem shifted?_eq {pos : Nat} {shift : Int} (h : 0 ≤ (pos : Int) + shift) :
    shifted? pos shift = some (shifted pos shift) := if_pos h

/-- An edit takes away no more than lies behind the offset `o`, so what is behind the edit does not
move below zero if the offset does not. -/
theorem Edit.shift_nonneg {e : Edit} {shift : Int} (hle : o ≤ e.range.start)
    (hord : e.range.start ≤ e.range.stop) (h : 0 ≤ (o : Int) + shift) :
    0 ≤ (e.range.stop : Int) + (shift + e.delta) := by
  unfold Edit.delta Span.size
  omega

/-- The first of the spans that cut pieces out of a text starts no sooner than the text, and the
others lie behind it. -/
theorem Pieces.head {s : Span} {ss : List Span} (h : Pieces o t (s :: ss)) :
    o ≤ s.start ∧ s.start ≤ s.stop ∧ ∃ u, Pieces s.stop u ss := by
  cases h with
  | cons a b h => exact ⟨Nat.le_add_right .., Nat.le_add_right .., _, h⟩

/-- Offsets behind `o` do not move below zero if `o` does not. -/
theorem remapStartFrom?_eq {pos : Nat} {shift : Int} (h : Pieces o t (es.map Edit.range))
    (hpos : o ≤ pos) (hs : 0 ≤ (o : Int) + shift) :
    remapStartFrom? pos shift es = some (remapStartFrom pos shift es) := by
  induction es generalizing o t shift with
  | nil => exact shifted?_eq (by omega)
  | cons e es ih =>
    obtain ⟨hle, hord, u, hrest⟩ := h.head
    rw [remapStartFrom?, remapStartFrom]
    split
    · next hstop => exact ih hrest hstop (Edit.shift_nonneg hle hord hs)
    · split <;> exact shifted?_eq (by omega)

theorem remapEndFrom?_eq {pos : Nat} {shift : Int} (h : Pieces o t (es.map Edit.range))
    (hpos : o ≤ pos) (hs : 0 ≤ (o : Int) + shift) :
    remapEndFrom? pos shift es = some (remapEndFrom pos shift es) := by
  induction es generalizing o t shift with
  | nil => exact shifted?_eq (by omega)
  | cons e es ih =>
    obtain ⟨hle, hord, u, hrest⟩ := h.head
    rw [remapEndFrom?, remapEndFrom]
    split
    · exact ih hrest (by omega) (Edit.shift_nonneg hle hord hs)
    · split
      · rw [shifted?_eq (by omega)]; rfl
      · exact shifted?_eq (by omega)

/-- Edits that cut pieces out of a text move no offset below zero. -/
theorem remapSpan?_eq (h : Pieces 0 t (es.map Edit.range)) (s : Span) :
    remapSpan? s es = some (remapSpan s es) := by
  rw [remapSpan?, remapStartFrom?_eq h (Nat.zero_le _) (by simp),
    remapEndFrom?_eq h (Nat.zero_le _) (by simp)]
  rfl

end

/-! ## Labels -/

namespace Registry

/-- Expands what is left of a pattern, character by character and label by label, in at most `steps`
steps. -/
def expandLoop? (labels : List Label) : Nat → Text → Text → Option (Except HideError Text)
  | _, stretch, [] =>
    some (match undefinedToken? stretch.reverse with
      | some token => .error (.undefinedLabel token)
      | none => .ok stretch.reverse)
  | 0, _, _ :: _ => none
  | steps + 1, stretch, c :: cs =>
    match labelAt? labels (c :: cs) with
    | none => do
      let rest ← Text.dropBytes? (c :: cs) c.utf8Size
      expandLoop? labels steps (c :: stretch) rest
    | some l =>
      match undefinedToken? stretch.reverse with
      | some token => some (.error (.undefinedLabel token))
      | none => do
        let rest ← Text.dropBytes? (c :: cs) l.name.byteSize
        let expanded ← expandLoop? labels steps [] rest
        return match expanded with
          | .error e => .error e
          | .ok rest => .ok (stretch.reverse ++ l.substitute ++ rest)

/-- A pattern with every label replaced. Each step takes at least one character off. -/
def expand? (r : Registry) (pattern : Text) : Option (Except HideError Text) :=
  expandLoop? r.byLength pattern.length [] pattern

theorem expandLoop?_eq {labels : List Label} (hl : ∀ l ∈ labels, l.name ≠ []) {steps : Nat}
    {stretch t : Text} (hs : t.length ≤ steps) :
    expandLoop? labels steps stretch t = some (expandFrom labels stretch 0 t) := by
  induction steps generalizing stretch t with
  | zero =>
    obtain rfl := List.eq_nil_of_length_eq_zero (Nat.le_zero.1 hs)
    rfl
  | succ steps ih =>
    cases t with
    | nil => rfl
    | cons c cs =>
      rw [expandLoop?, expandFrom]
      cases hat : labelAt? labels (c :: cs) with
      | none =>
        have hrest : Text.dropBytes? (c :: cs) c.utf8Size = some cs := by
          simpa using Text.dropBytes?_append [c] cs
        have hstep : expandLoop? labels steps (c :: stretch) cs =
            some (expandFrom labels (c :: stretch) 0 cs) := ih (Nat.le_of_succ_le_succ hs)
        simpa [hrest] using hstep
      | some l =>
        obtain ⟨hmem, rest, he⟩ := labelAt?_eq_some hat
        obtain ⟨d, name, hname⟩ := List.exists_cons_of_ne_nil (hl l hmem)
        rw [hname, List.cons_append, List.cons.injEq] at he
        obtain ⟨rfl, rfl⟩ := he
        have hrest : Text.dropBytes? (c :: (name ++ rest)) l.name.byteSize = some rest := by
          rw [hname]; exact Text.dropBytes?_append (c :: name) rest
        have hlen : rest.length ≤ steps := by simp at hs; omega
        have hskip : expandFrom labels [] (l.name.length - 1) (name ++ rest) =
            expandFrom labels [] 0 rest := by
          rw [hname]; exact expandFrom_skip labels [] name rest
        have hloop : expandLoop? labels steps [] rest = some (expandFrom labels [] 0 rest) := ih hlen
        cases hu : undefinedToken? stretch.reverse with
        | some token => rfl
        | none =>
          cases hbehind : expandFrom labels [] 0 rest <;> simp [hrest, hloop, hskip, hbehind]

theorem Named.expand? {r : Registry} (h : r.Named) (pattern : Text) :
    r.expand? pattern = some (r.expand pattern) := by
  refine expandLoop?_eq (fun l hl => h l ?_) (Nat.le_refl _)
  exact (sortStable_perm _ _).subset hl

end Registry

end GlyphTree
