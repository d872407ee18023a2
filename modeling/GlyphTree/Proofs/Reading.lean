import GlyphTree.Proofs.WellFormed

/-!
# What nodes stand for

The reading of a node is its text with everything below it resolved. In a well-formed tree it is the
only assignment of texts to nodes under which each node reads as its cells do
(`Shaped.reading_unique`), so a change that keeps such an assignment keeps all readings.
-/

namespace GlyphTree.Tree

open Cells

variable {t t' : Tree} {x p : NodeId} {d d' : Nat} {cs : Cells}

/-- The text that a node stands for. -/
def reading (t : Tree) (x : NodeId) : Text := t.resolve t.size x

theorem expandedText_eq (h : x < t.size) : t.expandedText x = some (t.reading x) := if_pos h

theorem Layout.fill_congr {r r' : NodeId → Text} (h : Layout t p cs)
    (he : ∀ id ∈ t.children p, (t.node id).fold = none → r id = r' id) : fill r cs = fill r' cs :=
  h.fits.fill_congr fun id hid => he id (h.children ▸ hid)

/-! ## Other texts for some nodes -/

/-- The text of a node resolved to a given depth, where some nodes stand for `other` texts. -/
def resolveWith (t : Tree) (other : NodeId → Option Text) : Nat → NodeId → Text
  | 0, x => (other x).getD (t.node x).text
  | depth + 1, x => (other x).getD
      (applyEdits (t.node x).text (t.resolvingEdits (t.resolveWith other depth) x))

/-- The text that a node stands for, where some nodes stand for `other` texts. -/
def readingWith (t : Tree) (other : NodeId → Option Text) (x : NodeId) : Text :=
  t.resolveWith other t.size x

theorem resolveWith_none (t : Tree) (d : Nat) (x : NodeId) :
    t.resolveWith (fun _ => none) d x = t.resolve d x := by
  induction d generalizing x with
  | zero => rfl
  | succ d ih =>
    rw [resolveWith, resolve, show t.resolveWith (fun _ => none) d = t.resolve d from funext ih]
    rfl

theorem readingWith_none (t : Tree) : t.readingWith (fun _ => none) = t.reading :=
  funext (t.resolveWith_none t.size)

section
variable {other : NodeId → Option Text}

theorem Layout.resolveWith_succ (h : Layout t p cs) (depth : Nat) :
    t.resolveWith other (depth + 1) p = (other p).getD (fill (t.resolveWith other depth) cs) := by
  rw [resolveWith, h.applyEdits_resolvingEdits]

/-- A text is resolved once it is resolved as deep as there are nodes below it. -/
theorem Shaped.resolveWith_stable (hs : Shaped t) (hx : x < t.size) (h : Ends t.below d x)
    (hd : d ≤ d') : t.resolveWith other d' x = t.resolveWith other d x := by
  induction d generalizing x d' with
  | zero => exact h.elim
  | succ d ih =>
    obtain ⟨d', rfl⟩ : ∃ n, d' = n + 1 := ⟨d' - 1, by omega⟩
    obtain ⟨cs, hl⟩ := hs.layout x hx
    rw [hl.resolveWith_succ, hl.resolveWith_succ]
    refine congrArg _ (hl.fill_congr fun c hc _ => ?_)
    exact ih (hl.lt_size hc) (h c (List.mem_append_left _ hc)) (Nat.le_of_succ_le_succ hd)

theorem Shaped.readingWith_eq (hs : Shaped t) (h : Layout t x cs) :
    t.readingWith other x = (other x).getD (fill (t.readingWith other) cs) := by
  have : t.resolveWith other (t.size + 1) x = t.resolveWith other t.size x :=
    hs.resolveWith_stable h.lt (hs.ends h.lt) (Nat.le_succ t.size)
  rw [readingWith, ← this, h.resolveWith_succ]
  rfl

theorem Shaped.readingWith_unique {r : NodeId → Text} (hs : Shaped t)
    (hr : ∀ x cs, Layout t x cs → r x = (other x).getD (fill r cs)) (hx : x < t.size) :
    r x = t.readingWith other x := by
  obtain ⟨rank, hrank⟩ := hs.ranked
  induction hn : rank x using Nat.strong_induction_on generalizing x with
  | _ n ih =>
    obtain ⟨cs, hl⟩ := hs.layout x hx
    rw [hr x cs hl, hs.readingWith_eq hl]
    refine congrArg _ (hl.fill_congr fun c hc _ => ih (rank c) ?_ (hl.lt_size hc) rfl)
    exact hn ▸ hrank x c (List.mem_append_left _ hc)

end

/-! ## Readings -/

/-- A node reads as its cells do. -/
theorem Shaped.reading_eq (hs : Shaped t) (h : Layout t x cs) :
    t.reading x = fill t.reading cs := by
  rw [← readingWith_none]
  exact hs.readingWith_eq h

theorem Shaped.reading_unique {r : NodeId → Text} (hs : Shaped t)
    (hr : ∀ x cs, Layout t x cs → r x = fill r cs) (hx : x < t.size) : r x = t.reading x := by
  rw [← readingWith_none]
  exact hs.readingWith_unique hr hx

/-- The text of a node without children is what it stands for. -/
theorem Shaped.reading_of_childless (hs : Shaped t) (hx : x < t.size) (hc : t.children x = []) :
    t.reading x = (t.node x).text := by
  obtain ⟨cs, hl⟩ := hs.layout x hx
  have hcs := hl.nested.eq_plain (hl.children.symm.trans hc)
  rw [hs.reading_eq hl, hl.text, hcs, fill_plain, text_plain]

/-! ## Faithful changes -/

/-- After a change the tree is well-formed and the document reads as before. -/
structure Faithful (t t' : Tree) : Prop where
  wellFormed : WellFormed t'
  reading : t'.reading root = t.reading root

theorem Faithful.refl (h : WellFormed t) : Faithful t t := ⟨h, rfl⟩

theorem Faithful.trans {t'' : Tree} (h : Faithful t t') (h' : Faithful t' t'') : Faithful t t'' :=
  ⟨h'.wellFormed, h'.reading.trans h.reading⟩

theorem Faithful.expandedText (h : Faithful t t') (hw : WellFormed t) :
    t'.expandedText root = t.expandedText root := by
  rw [expandedText_eq h.wellFormed.shaped.root, expandedText_eq hw.shaped.root, h.reading]

theorem Alike.reading (h : Alike t t') (hs : Shaped t) (hx : x < t.size) :
    t'.reading x = t.reading x := by
  have hs' := hs.alike h
  refine hs.reading_unique (fun x cs hl => hs'.reading_eq ?_) hx
  exact h.kept.layout hs hl (List.not_mem_nil)

theorem WellFormed.faithful_alike (hw : WellFormed t) (h : Alike t t') (hf : t'.folds = t.folds) :
    Faithful t t' := ⟨hw.alike h hf, h.reading hw.shaped hw.shaped.root⟩

end GlyphTree.Tree
