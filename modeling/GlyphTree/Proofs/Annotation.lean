import GlyphTree.Proofs.Arrangement
import GlyphTree.Proofs.Checked.Views

/-!
# Annotated texts

The marks of a node's children are collected child by child and sorted by start. In a node that is
laid out they are the marked cells from left to right (`Layout.marks_eq`), so the annotated text is
read off the cells: literal characters escaped, a sign for each mark. `Annotated` says what follows
for hidden and for unfolded children; it holds of every node of a reachable tree
(`Reachable.annotatedText_renders`).
-/

namespace GlyphTree

/-- How a mark is shown. -/
def CellMark.sign : CellMark → Text
  | glyph id => Mark.hiddenSign id
  | opening id => Mark.openingSign id
  | closing id => Mark.closingSign id

namespace Cells

variable {ch : Char} {m : CellMark} {id : NodeId} {cs ds : Cells}

/-- A text with a sign for each mark, and the other characters escaped. -/
def annotated (cs : Cells) : Text :=
  cs.flatMap fun c => c.mark.elim (escapedChar c.char) CellMark.sign

@[simp] theorem annotated_nil : annotated [] = [] := rfl
@[simp] theorem annotated_none :
    annotated (⟨ch, none⟩ :: cs) = escapedChar ch ++ annotated cs := rfl
@[simp] theorem annotated_some : annotated (⟨ch, some m⟩ :: cs) = m.sign ++ annotated cs := rfl

@[simp] theorem annotated_append : annotated (cs ++ ds) = annotated cs ++ annotated ds :=
  List.flatMap_append

/-- The marks of a child. -/
def marksOf (id : NodeId) (cs : Cells) : List CellMark :=
  cs.filterMap fun c => c.mark.filter (·.id = id)

@[simp] theorem marksOf_nil : marksOf id [] = [] := rfl
@[simp] theorem marksOf_none : marksOf id (⟨ch, none⟩ :: cs) = marksOf id cs := rfl

@[simp] theorem marksOf_some :
    marksOf id (⟨ch, some m⟩ :: cs) = if m.id = id then m :: marksOf id cs else marksOf id cs := by
  by_cases hm : m.id = id <;> simp [marksOf, Option.filter, hm]

@[simp] theorem marksOf_append : marksOf id (cs ++ ds) = marksOf id cs ++ marksOf id ds :=
  List.filterMap_append

theorem marksOf_eq_nil (hs : id ∉ starts cs) (hc : id ∉ closings cs) : marksOf id cs = [] := by
  have h : id ∉ ids cs := fun hid => (Cells.mem_ids.1 hid).elim hs hc
  clear hs hc
  induction cs with
  | nil => rfl
  | cons c cs ih =>
    obtain ⟨ch, _ | m⟩ := c
    · exact ih h
    · rw [ids_some, List.mem_cons, not_or] at h
      rw [marksOf_some, if_neg (Ne.symm h.1), ih h.2]

/-- An unfolded child has the marks of its two markers. -/
theorem Nested.marksOf_opening (h : Nested cs) (hid : id ∈ openings cs) :
    marksOf id cs = [.opening id, .closing id] := by
  obtain ⟨a, o, b, e, d, rfl⟩ := h.exists_region hid
  have hs := h.nodup
  have hc := h.closings_nodup
  simp only [starts_append, starts_opening, starts_closing, List.append_assoc, List.cons_append,
    List.nodup_middle, List.nodup_cons, List.mem_append, not_or] at hs
  simp only [closings_append, closings_opening, closings_closing, List.nodup_middle,
    List.nodup_cons, List.mem_append, not_or] at hc
  simp [CellMark.id, marksOf_eq_nil hs.1.1 hc.1.1.1, marksOf_eq_nil hs.1.2.1 hc.1.1.2,
    marksOf_eq_nil hs.1.2.2 hc.1.2]

/-- A child that starts and is not unfolded has the mark of its glyph. -/
theorem Nested.marksOf_glyph (h : Nested cs) (hid : id ∈ starts cs) (ho : id ∉ openings cs) :
    marksOf id cs = [.glyph id] := by
  obtain ⟨a, g, b, rfl⟩ := (exists_of_mem_starts hid).resolve_right ho
  have hs := h.nodup
  have hc := mt (closed_of_nest h.nest id).2 ho
  simp only [starts_append, starts_glyph, List.nodup_middle, List.nodup_cons, List.mem_append,
    not_or] at hs
  simp only [closings_append, closings_glyph, List.mem_append, not_or] at hc
  simp [CellMark.id, marksOf_eq_nil hs.1.1 hc.1, marksOf_eq_nil hs.1.2 hc.2]

end Cells

namespace Tree

open Cells

variable {t : Tree} {p c u : NodeId} {o : Nat} {cs a b d : Cells} {F : Fold}

/-! ## Marks -/

theorem reads_ofChild (t : Tree) (p : NodeId) :
    t.Reads p (fun c => Mark.ofChild c (t.node c))
      fun o ch m => ⟨⟨o, o + ch.utf8Size⟩, m.sign⟩ where
  glyph h := by simp [Mark.ofChild, Node.atoms, h.1, h.2, CellMark.sign]
  opening h := by
    obtain ⟨stop, f, hp, hf, rfl⟩ := h
    simp [Mark.ofChild, Node.atoms, hp, hf, CellMark.sign]
  closing h := by
    obtain ⟨start, f, hp, hf, rfl⟩ := h
    simp [Mark.ofChild, Node.atoms, hp, hf, CellMark.sign]

/-- The marks of all children, sorted, are the marked cells. -/
theorem Layout.marks_eq (h : Layout t p cs) :
    t.marks p = readMarks (fun o ch m => ⟨⟨o, o + ch.utf8Size⟩, m.sign⟩) 0 cs :=
  h.sort_readMarks (reads_ofChild t p) fun _ _ _ => rfl

/-- The annotated text of a node is read off its cells. -/
theorem Layout.annotatedText_eq (h : Layout t p cs) : t.annotatedText p = annotated cs := by
  rw [annotatedText, Mark.renderFrom_eq_weave, h.marks_eq, map_readMarks, h.text]
  have := weave_readMarks escaped_append CellMark.sign 0 [] cs
  simpa [annotated, escaped] using this

/-- The marks that a child has in nested cells: none if it does not start there. -/
theorem Fits.marksOf_eq (h : t.Fits p o cs) (hn : Nested cs) (c : NodeId) :
    marksOf c cs = if c ∈ starts cs then
      if (t.node c).isUnfolded then [.opening c, .closing c] else [.glyph c] else [] := by
  split
  · next hc =>
    have ho := h.mem_openings hc
    split
    · next hu => exact hn.marksOf_opening (ho.2 hu)
    · next hu => exact hn.marksOf_glyph hc (mt ho.1 hu)
  · next hc =>
    exact marksOf_eq_nil hc fun hclose => hc (hn.mem_ids.1 (Cells.mem_ids.2 (.inr hclose)))

/-- A sibling whose span is in that of an unfolded child has its marks between the markers. -/
theorem Layout.marksOf_region (h : Layout t p (unfoldedCells u F a b d)) (hc : c ∈ t.children p)
    (hne : c ≠ u) {r s : Span} (hr : (t.node u).span = some r) (hs : (t.node c).span = some s)
    (hstart : r.start ≤ s.start) (hstop : s.stop ≤ r.stop) :
    marksOf c b = marksOf c (unfoldedCells u F a b d) := by
  obtain ⟨ha, hb, hd⟩ := h.fits_unfolded
  have hspan : t.startOf c = s.start ∧ t.stopOf c = s.stop := by
    rw [Tree.startOf, Tree.stopOf, hs]
    exact ⟨rfl, rfl⟩
  rw [Node.span, h.place_of_unfolded, Option.map_some] at hr
  obtain rfl := Option.some.inj hr
  rw [h.children] at hc
  have hreg := h.fits.region h.nested hc
  rw [hb.marksOf_eq (h.nested.fold F.glyph).1, h.fits.marksOf_eq h.nested, if_pos hc, if_pos]
  simp only [unfoldedCells, starts_append, starts_opening, starts_closing, List.mem_append,
    List.mem_cons, hne, false_or] at hc
  rcases hc with (hc | hc) | hc
  · have := ha.startOf hc
    simp only at hstart
    omega
  · exact hc
  · have := hd.startOf hc
    simp only at hstop
    omega

/-! ## Renderings -/

/-- What the annotated text of a node shows, where the cells are its text with the marks of its
children. -/
structure Annotated (t : Tree) (p : NodeId) (cs : Cells) : Prop where
  text : (t.node p).text = cs.text
  /-- A marked character is the glyph or the marker of the child. -/
  placed : ∀ (a : Cells) ch m b, cs = a ++ ⟨ch, some m⟩ :: b → t.Stands p a.size ch m
  shown : t.annotatedText p = annotated cs
  /-- No slice is cut off the boundaries of the text. -/
  unfailing : t.annotatedText? p = some (t.annotatedText p)
  /-- A hidden child has one mark, an unfolded one has two, and no other node has any. -/
  marks : ∀ c, marksOf c cs = if c ∈ t.children p then
    if (t.node c).isUnfolded then [.opening c, .closing c] else [.glyph c] else []
  ordered : starts cs = t.children p
  /-- Every closing marker is that of the child opened last. -/
  nested : nest [] cs = some []
  /-- Siblings whose spans are in that of an unfolded child have their marks between its signs. -/
  between : ∀ u ∈ t.children p, ∀ F, (t.node u).fold = some F →
    ∃ a b d, cs = unfoldedCells u F a b d ∧
      t.annotatedText p = annotated a ++ Mark.openingSign u ++ annotated b ++
        Mark.closingSign u ++ annotated d ∧
      ∀ c ∈ t.children p, c ≠ u → ∀ r s, (t.node u).span = some r → (t.node c).span = some s →
        r.start ≤ s.start → s.stop ≤ r.stop → marksOf c b = marksOf c cs

theorem Layout.annotated (h : Layout t p cs) (hs : Shaped t) : Annotated t p cs where
  text := h.text
  placed a ch m b he := by
    have hfit := (fits_append.1 (he ▸ h.fits)).2
    simpa using (fits_some.1 hfit).1
  shown := h.annotatedText_eq
  unfailing := hs.annotatedText?_eq p
  marks c := h.children ▸ h.fits.marksOf_eq h.nested c
  ordered := h.children.symm
  nested := h.nested.nest
  between u hu F hF := by
    obtain ⟨a, b, d, rfl⟩ := h.exists_unfolded hu hF
    refine ⟨a, b, d, rfl, ?_, fun c hc hne r s hr hs' hstart hstop =>
      h.marksOf_region hc hne hr hs' hstart hstop⟩
    rw [h.annotatedText_eq]
    simp [unfoldedCells, CellMark.sign]

/-- In every reachable tree the annotated text of a node is its text with the children shown by
number. -/
theorem Reachable.annotatedText_renders (h : Reachable t) (p : NodeId) :
    ∃ cs, Annotated t p cs := by
  have hs := h.wellFormed.shaped
  rcases Nat.lt_or_ge p t.size with hp | hp
  · obtain ⟨cs, hl⟩ := hs.layout p hp
    exact ⟨cs, hl.annotated hs⟩
  · -- a number that no node has stands for an empty text without children
    have hnode := node_eq_default hp
    have hkids : t.children p = [] := by
      rw [children, hnode]
      rfl
    have htext : t.annotatedText p = [] := by
      rw [annotatedText, marks, hkids, hnode]
      rfl
    refine ⟨[], ?_, ?_, htext, hs.annotatedText?_eq p, ?_, hkids.symm, rfl, ?_⟩
    · rw [hnode]
      rfl
    · simp
    · simp [hkids]
    · simp [hkids]

/-- Hides a region and unfolds it, then hides a part of what is between its markers and unfolds it,
and then hides another part. -/
def unfoldAndHide : List Command :=
  [.hideAll ['k'] ['x', 'y', 'z'] ['#'] ['*'], .unfold 1 ['<'] ['>'],
    .hideAll ['m'] ['y'] ['#'] ['*'], .unfold 2 ['('] [')'], .hideAll ['n'] ['z'] ['#'] ['*']]

/-- A tree with an unfolded and a hidden node between the markers of another one, and with
characters that are escaped. -/
def unfoldedAndHidden : Tree := (ofText ['"', 'x', 'y', 'z', '\n']).after unfoldAndHide

theorem reachable_unfoldedAndHidden : Reachable unfoldedAndHidden := by
  refine (Reachable.initial (.ofText _ _)).after ⟨?_, trivial, ?_, trivial, ?_, trivial⟩
  · exact admits_hideAll (by cbv)
  · exact admits_hideAll (by cbv)
  · exact admits_hideAll (by cbv)

theorem annotatedText_renders_unfoldedAndHidden :
    Reachable unfoldedAndHidden ∧
      unfoldedAndHidden.annotatedText root = "\\\"[#1>x[#2>y<#2][#3]<#1]\\n" ∧
        ∃ cs, Annotated unfoldedAndHidden root cs :=
  ⟨reachable_unfoldedAndHidden, by cbv,
    Reachable.annotatedText_renders reachable_unfoldedAndHidden root⟩

end Tree

end GlyphTree
