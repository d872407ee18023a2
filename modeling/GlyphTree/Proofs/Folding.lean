import GlyphTree.Proofs.Splice
import GlyphTree.Tree.Unfold

/-!
# Folding and unfolding

Folding an unfolded node back and unfolding a hidden one are the same change, read in one direction
or the other: `Folding u f p id a b c F` relates the tree `u`, in which the node stands unfolded
between the cells `a` and `c` of `p`, to the tree `f`, in which it is hidden there behind a glyph.
-/

namespace GlyphTree.Tree

open Cells Patch

variable {t u f : Tree} {p id : NodeId} {a b c : Cells} {F : Fold}

/-- The cells of a text in which a node stands unfolded. -/
def unfoldedCells (id : NodeId) (F : Fold) (a b c : Cells) : Cells :=
  a ++ ⟨F.opening, some (.opening id)⟩ :: b ++ ⟨F.closing, some (.closing id)⟩ :: c

/-- The cells of a text in which a node stands hidden. -/
def foldedCells (id : NodeId) (F : Fold) (a c : Cells) : Cells :=
  a ++ ⟨F.glyph, some (.glyph id)⟩ :: c

/-- The node stands hidden behind a glyph of `p`, and not above `p`; unfolded it would have the
markers of `F`. -/
structure Hidden (t : Tree) (p id : NodeId) (a b c : Cells) (F : Fold) : Prop where
  place : Layout t p (foldedCells id F a c)
  body : Layout t id b
  apart : p ∉ starts b
  folded : (t.node id).fold = none

/-- `f` is `u` with the node folded back, and `u` is `f` with the node unfolded. -/
structure Folding (u f : Tree) (p id : NodeId) (a b c : Cells) (F : Fold) : Prop where
  size : f.size = u.size
  around : Layout u p (unfoldedCells id F a b c)
  hollow : Layout u id []
  place : Layout f p (foldedCells id F a c)
  body : Layout f id b
  unfolded : (u.node id).fold = some F
  folded : (f.node id).fold = none
  content : ∀ j, j ≠ p → j ≠ id →
    (f.node j).text = (u.node j).text ∧ f.children j = u.children j
  expanded : ∀ j, f.expandedChildren j = u.expandedChildren j
  fold : ∀ j, j ≠ id → (f.node j).fold = (u.node j).fold
  stands : ∀ j, j ∉ u.children p → (f.node j).place = (u.node j).place

/-- What a node that is folded back or unfolded leaves alone, read off the nodes of the tree
afterwards: `x` is the node itself, `y` its parent, the children in `ks` move and those in `ls`
follow the edits of the parent's text. -/
theorem elsewhere_of_node {t' : Tree} {q : NodeId} {sub add : Nat} {es : List Edit}
    {ks ls : List NodeId} {x y : Node} (hx : x.expanded = (t.node id).expanded)
    (hy : y.expanded = (t.node p).expanded ∧ y.fold = (t.node p).fold ∧
      y.place = (t.node p).place)
    (h : ∀ j, t'.node j = if j = id then x else if j = p then y
      else if j ∈ ks then moved q sub add (t.node j)
      else if j ∈ ls then followEdits es (t.node j) else t.node j) :
    (∀ j, j ≠ p → j ≠ id →
      (t'.node j).text = (t.node j).text ∧ t'.children j = t.children j) ∧
      (∀ j, t'.expandedChildren j = t.expandedChildren j) ∧
      (∀ j, j ≠ id → (t'.node j).fold = (t.node j).fold) ∧
      ∀ j, j ≠ id → j ∉ ks → j ∉ ls → (t'.node j).place = (t.node j).place := by
  have hrest : ∀ j, j ≠ p → j ≠ id → (t'.node j).text = (t.node j).text ∧
      t'.children j = t.children j ∧ (t'.node j).expanded = (t.node j).expanded ∧
      (t'.node j).fold = (t.node j).fold := by
    intro j hjp hji
    rw [Tree.children, h, if_neg hji, if_neg hjp]
    split
    · exact ⟨rfl, rfl, rfl, rfl⟩
    · split <;> simp [Tree.children]
  refine ⟨fun j hjp hji => ⟨(hrest j hjp hji).1, (hrest j hjp hji).2.1⟩, fun j => ?_,
    fun j hji => ?_, fun j hji hk hl => ?_⟩
  · rw [expandedChildren, expandedChildren]
    by_cases hji : j = id
    · rw [h, if_pos hji, hx, hji]
    · by_cases hjp : j = p
      · rw [h, if_neg hji, if_pos hjp, hy.1, hjp]
      · exact (hrest j hjp hji).2.2.1
  · by_cases hjp : j = p
    · rw [h, if_neg hji, if_pos hjp, hy.2.1, hjp]
    · exact (hrest j hjp hji).2.2.2
  · rw [h, if_neg hji, if_neg hk, if_neg hl]
    split
    · rename_i hjp
      rw [hy.2.2, hjp]
    · rfl

/-! ## Folding back -/

/-- The region of an unfolded node as a patch. -/
def foldPatch (id : NodeId) (F : Fold) (a b : Cells) : Patch :=
  ⟨a, ⟨F.opening, some (.opening id)⟩ :: b ++ [⟨F.closing, some (.closing id)⟩],
    [⟨F.glyph, none⟩]⟩

theorem foldPatch_closed (h : Nested (unfoldedCells id F a b c)) :
    Closed (foldPatch id F a b).gone := by
  have hb := closed_of_nest (h.fold F.glyph).1.nest
  intro i
  simp [foldPatch, hb i, or_comm]

/-- The children of a node one of whose children stands unfolded. -/
theorem Layout.unfolded_disjoint (h : Layout t p (unfoldedCells id F a b c)) :
    id ≠ p ∧ id ∉ starts (a ++ c) ∧
      ∀ i ∈ starts b, i ≠ id ∧ i ≠ p ∧ i ∉ starts a ∧ i ∉ starts c := by
  have hnd := h.nested.nodup
  have hirr := h.irrefl
  simp only [unfoldedCells, starts_append, starts_opening, starts_closing, List.append_assoc,
    List.cons_append, List.mem_append, List.mem_cons, not_or] at hnd hirr
  obtain ⟨-, hmid, hdis⟩ := List.nodup_append.1 hnd
  obtain ⟨hid, hbc⟩ := List.nodup_cons.1 hmid
  rw [List.mem_append, not_or] at hid
  refine ⟨fun e => hirr.2.1 e.symm, ?_, fun i hi => ⟨?_, ?_, ?_, ?_⟩⟩
  · rw [starts_append, List.mem_append, not_or]
    exact ⟨fun ha => hdis id ha id List.mem_cons_self rfl, hid.2⟩
  · rintro rfl
    exact hid.1 hi
  · rintro rfl
    exact hirr.2.2.1 hi
  · exact fun ha => hdis i ha i (by simp [hi]) rfl
  · exact fun hc => (List.nodup_append.1 hbc).2.2 i hi i hc rfl

/-- Once the region of an unfolded node has been collapsed, the node is ready to take over the
children inside. -/
theorem Layout.ready_foldBack {t₂ : Tree} (h : Layout t p (unfoldedCells id F a b c))
    (hid : Layout t id []) (hl : Layout t₂ p (a ++ ⟨F.glyph, none⟩ :: c))
    (hsize : t₂.size = t.size)
    (hother : ∀ j, j ≠ p → j ∉ starts (a ++ c) → t₂.node j = t.node j) :
    Ready (t₂.modify id fun n => moveGroups (a.size + F.opening.utf8Size) 0
        { n with text := b.text, fold := none }) p id (a.size + F.opening.utf8Size) a b F.glyph
      c := by
  obtain ⟨hne, hac, hb⟩ := h.unfolded_disjoint
  have hnb := (h.nested.fold F.glyph).1
  have hnode := fun j => node_modify t₂ id j fun n =>
    moveGroups (a.size + F.opening.utf8Size) 0 { n with text := b.text, fold := none }
  have hsame : ∀ j, j ≠ id → (t₂.modify id fun n => moveGroups (a.size + F.opening.utf8Size) 0
      { n with text := b.text, fold := none }).node j = t₂.node j := by
    intro j hj
    rw [hnode, if_neg (fun e => hj e.1)]
  have hself : (t₂.modify id fun n => moveGroups (a.size + F.opening.utf8Size) 0
      { n with text := b.text, fold := none }).node id =
      moveGroups (a.size + F.opening.utf8Size) 0
        { t.node id with text := b.text, fold := none } := by
    rw [hnode, if_pos ⟨rfl, hsize ▸ hid.lt⟩, hother id hne hac]
  have hcp : ∀ i ∈ t₂.children p, i ≠ id := by
    intro i hi
    rw [hl.children] at hi
    rintro rfl
    exact hac (by simpa using hi)
  refine ⟨?_, ⟨?_, ?_, ?_, fits_plain _, nested_plain _, by simp⟩, ?_, hne, ?_, ?_, hnb, hb⟩
  · refine hl.frame (by simpa using hl.lt) (by rw [hsame p (Ne.symm hne)])
      (by rw [Tree.children, hsame p (Ne.symm hne)]; rfl) fun i hi => ?_
    rw [hsame i (hcp i hi)]
    exact ⟨rfl, rfl⟩
  · rw [size_modify, hsize]
    exact hid.lt
  · rw [hself]
    simp [moveGroups, Node.mapGroups]
  · rw [Tree.children, hself, starts_plain]
    exact hid.children
  · rw [hself]
    rfl
  · rw [Tree.children, hsame p (Ne.symm hne)]
    exact fun hm => hcp id hm rfl
  · obtain ⟨hab, -⟩ := fits_append.1 h.fits
    have hfb := (fits_some.1 (fits_append.1 hab).2).2
    rw [Nat.zero_add] at hfb
    apply hfb.congr
    intro i hi
    obtain ⟨h1, h2, h3, h4⟩ := hb i (hnb.mem_ids.1 hi)
    rw [hsame i h1, hother i h2 (by simp [h3, h4])]
    exact ⟨rfl, rfl⟩

/-- Where an unfolded node stands. -/
theorem Layout.place_of_unfolded (h : Layout t p (unfoldedCells id F a b c)) :
    (t.node id).place = some ⟨p, ⟨a.size,
      a.size + F.opening.utf8Size + b.size + F.closing.utf8Size⟩⟩ := by
  obtain ⟨hab, hec⟩ := fits_append.1 h.fits
  obtain ⟨-, hob⟩ := fits_append.1 hab
  obtain ⟨⟨stop, f, hp, -⟩, -⟩ := fits_some.1 hob
  obtain ⟨⟨start, f', hp', -⟩, -⟩ := fits_some.1 hec
  rw [hp] at hp'
  simp only [Option.some.injEq, Place.mk.injEq, Span.mk.injEq, true_and, size_append,
    size_cons] at hp'
  rw [hp, hp'.2]
  simp only [Nat.zero_add, Nat.add_assoc]

/-- The tree in which the region of an unfolded node has been collapsed, and the node holds its body
again. -/
def foldStep (t : Tree) (p id : NodeId) (F : Fold) (a b c : Cells) : Tree :=
  ((t.setChildren p (starts (a ++ c))).rewrite p (edits 0 [foldPatch id F a b])).modify id
    fun n => moveGroups (a.size + F.opening.utf8Size) 0 { n with text := b.text, fold := none }

/-- The tree in which an unfolded node has been folded back. -/
def foldedBack (t : Tree) (p id : NodeId) (F : Fold) (a b c : Cells) : Tree :=
  (t.foldStep p id F a b c).takeOver p id (a.size + F.opening.utf8Size) b
    ⟨a.size, a.size + F.glyph.utf8Size⟩

theorem size_foldedBack (t : Tree) (p id : NodeId) (F : Fold) (a b c : Cells) :
    (t.foldedBack p id F a b c).size = t.size := by simp [foldedBack, takeOver, foldStep]

theorem stripped_foldedBack (t : Tree) (p id : NodeId) (F : Fold) (a b c : Cells) :
    (t.foldedBack p id F a b c).stripped = t.stripped := by simp [foldedBack, takeOver, foldStep]

/-- Collapsing the region of an unfolded node. -/
theorem Layout.collapse_region (h : Layout t p (unfoldedCells id F a b c)) :
    Layout ((t.setChildren p (starts (a ++ c))).rewrite p (edits 0 [foldPatch id F a b])) p
      (a ++ ⟨F.glyph, none⟩ :: c) := by
  have hl : Layout t p (before [foldPatch id F a b] c) := by
    simpa [before, foldPatch, unfoldedCells] using h
  have hcol := hl.collapse (by simp)
    (fun x hx => List.mem_singleton.1 hx ▸ foldPatch_closed h.nested)
    (fun x hx => List.mem_singleton.1 hx ▸ rfl)
  simpa [after, foldPatch] using hcol

theorem Layout.node_collapse_region (h : Layout t p (unfoldedCells id F a b c)) (j : NodeId) :
    ((t.setChildren p (starts (a ++ c))).rewrite p (edits 0 [foldPatch id F a b])).node j =
      if j = p then edited (edits 0 [foldPatch id F a b])
        { t.node p with children := starts (a ++ c) }
      else if j ∈ starts (a ++ c) then followEdits (edits 0 [foldPatch id F a b]) (t.node j)
      else t.node j := by
  have hl : Layout t p (before [foldPatch id F a b] c) := by
    simpa [before, foldPatch, unfoldedCells] using h
  have hnode := hl.node_patched (by simp)
    (fun x hx => List.mem_singleton.1 hx ▸ foldPatch_closed h.nested)
    (fun x hx => List.mem_singleton.1 hx ▸ rfl) j
  simpa [after, foldPatch] using hnode

theorem Layout.ready_foldStep (h : Layout t p (unfoldedCells id F a b c)) (hid : Layout t id []) :
    Ready (t.foldStep p id F a b c) p id (a.size + F.opening.utf8Size) a b F.glyph c :=
  h.ready_foldBack hid h.collapse_region (by simp) fun j hj hac => by
    rw [h.node_collapse_region, if_neg hj, if_neg hac]

/-- The text between the markers. -/
theorem slice_unfoldedCells (id : NodeId) (F : Fold) (a b c : Cells) :
    (unfoldedCells id F a b c).text.slice
      ⟨a.size + F.opening.utf8Size, a.size + F.opening.utf8Size + b.size⟩ = b.text := by
  have := Text.slice_middle (a.text ++ [F.opening]) b.text (F.closing :: c.text)
  simp only [Text.byteSize_append, Text.byteSize_cons, Text.byteSize_nil, Nat.add_zero] at this
  rw [← this]
  simp [unfoldedCells]
  rfl

theorem remapStart_foldPatch (id : NodeId) (F : Fold) (a b : Cells) :
    remapStart a.size (edits 0 [foldPatch id F a b]) = a.size := by
  have hpos : 0 < (foldPatch id F a b).gone.size := by
    rw [foldPatch, List.cons_append, size_cons]
    exact Nat.add_pos_left F.opening.utf8Size_pos _
  have : remapStartFrom (0 + a.size) ((0 : Nat) - (0 : Nat) : Int)
      (edits 0 [foldPatch id F a b]) = 0 + a.size := remapStartFrom_gone hpos
  simpa [remapStart] using this

/-- The children of a node beside one that stands unfolded. -/
theorem Layout.children_beside (h : Layout t p (unfoldedCells id F a b c)) :
    (t.children p).filter (· != id) = starts a ++ starts b ++ starts c := by
  obtain ⟨-, hac, hb⟩ := h.unfolded_disjoint
  have hida : (starts a).filter (· != id) = starts a :=
    List.filter_eq_self.2 fun i hi => by simpa using fun e => hac (by simp [← e, hi])
  have hidb : (starts b).filter (· != id) = starts b :=
    List.filter_eq_self.2 fun i hi => by simpa using (hb i hi).1
  have hidc : (starts c).filter (· != id) = starts c :=
    List.filter_eq_self.2 fun i hi => by simpa using fun e => hac (by simp [← e, hi])
  simp [h.children, unfoldedCells, hida, hidb, hidc]

/-- The region of an unfolded node encloses the children of its body, and of the children beside it
no others. -/
theorem Layout.filter_beside (h : Layout t p (unfoldedCells id F a b c)) :
    let region := Span.encloses ⟨a.size, a.size + F.opening.utf8Size + b.size + F.closing.utf8Size⟩
    let kids := (starts a ++ starts b ++ starts c).map t.withSpan
    kids.filter (fun k => region k.2) = (starts b).map t.withSpan ∧
      kids.filter (fun k => !region k.2) = (starts a ++ starts c).map t.withSpan := by
  obtain ⟨-, hac, hb⟩ := h.unfolded_disjoint
  have hl : Layout t p (a ++ (foldPatch id F a b).gone ++ c) := by
    simpa [foldPatch, unfoldedCells] using h
  have henc : ∀ i ∈ starts a ++ starts b ++ starts c, Span.encloses
      ⟨a.size, a.size + F.opening.utf8Size + b.size + F.closing.utf8Size⟩
        (t.withSpan i).2 = true ↔ i ∈ starts b := by
    intro i hi
    have hmem := List.mem_filter.1 (h.children_beside ▸ hi)
    have := hl.encloses_iff (foldPatch_closed h.nested) hmem.1
    rw [show a.size + (foldPatch id F a b).gone.size =
      a.size + F.opening.utf8Size + b.size + F.closing.utf8Size by
        simp [foldPatch, Nat.add_assoc]] at this
    refine this.trans ?_
    simp only [foldPatch, starts_append, starts_opening, starts_closing, starts_nil,
      List.append_nil, List.mem_cons]
    have hne : i ≠ id := by simpa using hmem.2
    tauto
  have hout : ∀ i ∈ starts a ++ starts c, i ∉ starts b := by
    intro i hi hib
    obtain ⟨-, -, h3, h4⟩ := hb i hib
    rcases List.mem_append.1 hi with h1 | h1
    · exact h3 h1
    · exact h4 h1
  exact filter_withSpan _ henc hout

theorem Layout.splice_foldCut_eq (h : Layout t p (unfoldedCells id F a b c)) :
    (t.setChildren p ((t.children p).filter (· != id))).splice p
        [foldCut id ⟨p, ⟨a.size, a.size + F.opening.utf8Size + b.size + F.closing.utf8Size⟩⟩ F] =
      t.foldedBack p id F a b c := by
  obtain ⟨hin, hout⟩ := h.filter_beside
  have hchildren : (t.setChildren p (starts a ++ starts b ++ starts c)).children p =
      starts a ++ starts b ++ starts c := by
    rw [Tree.children, node_setChildren _ h.lt, if_pos rfl]
  have htext : ((t.setChildren p (starts a ++ starts b ++ starts c)).node p).text =
      (unfoldedCells id F a b c).text := by
    rw [node_setChildren _ h.lt, if_pos rfl]
    exact h.text
  have hspan : ∀ i, (i, ((t.setChildren p (starts a ++ starts b ++ starts c)).node i).span.getD
      ⟨0, 0⟩) = t.withSpan i := by
    intro i
    rw [node_setChildren _ h.lt]
    split
    · rename_i hip
      subst hip
      rfl
    · rfl
  have hfst : ∀ l : List NodeId, (l.map t.withSpan).map Prod.fst = l := by
    intro l
    rw [List.map_map]
    exact List.map_id _
  rw [h.children_beside]
  generalize hcut : foldCut id ⟨p, ⟨a.size,
    a.size + F.opening.utf8Size + b.size + F.closing.utf8Size⟩⟩ F = cut
  have hedit : [cut.edit] = edits 0 [foldPatch id F a b] := by
    simp [edits, ← hcut, foldCut, Cut.edit, foldPatch, Nat.add_assoc]
  have hrange : cut.range =
      ⟨a.size, a.size + F.opening.utf8Size + b.size + F.closing.utf8Size⟩ := hcut ▸ rfl
  simp only [Tree.splice, hchildren, htext, List.map_cons, List.map_nil, hedit, hspan, hrange,
    List.any_cons, List.any_nil, Bool.or_false, settleAll]
  rw [hin, hout, setChildren_setChildren, hfst, hfst, ← starts_append, ← hcut]
  simp only [settle, prepare, foldCut, Cut.body, Cut.landing, Nat.add_sub_cancel,
    slice_unfoldedCells, remapStart_foldPatch]
  rfl

/-- The nodes of the tree in which a node has been folded back. -/
theorem Layout.node_foldBack (h : Layout t p (unfoldedCells id F a b c)) (hid : Layout t id [])
    (j : NodeId) :
    (t.foldedBack p id F a b c).node j =
      if j = id then { moveGroups (a.size + F.opening.utf8Size) 0
          { t.node id with text := b.text, fold := none } with
        place := some ⟨p, ⟨a.size, a.size + F.glyph.utf8Size⟩⟩, children := starts b }
      else if j = p then { edited (edits 0 [foldPatch id F a b]) (t.node p) with
        children := starts a ++ id :: starts c }
      else if j ∈ starts b then moved id (a.size + F.opening.utf8Size) 0 (t.node j)
      else if j ∈ starts (a ++ c) then followEdits (edits 0 [foldPatch id F a b]) (t.node j)
      else t.node j := by
  obtain ⟨hne, hac, hb⟩ := h.unfolded_disjoint
  have hsize : id < ((t.setChildren p (starts (a ++ c))).rewrite p
      (edits 0 [foldPatch id F a b])).size := by simpa using hid.lt
  have hself : (t.foldStep p id F a b c).node id = moveGroups (a.size + F.opening.utf8Size) 0
      { t.node id with text := b.text, fold := none } := by
    rw [foldStep, node_modify, if_pos ⟨rfl, hsize⟩, h.node_collapse_region, if_neg hne, if_neg hac]
  have hother : ∀ j, j ≠ id → (t.foldStep p id F a b c).node j =
      ((t.setChildren p (starts (a ++ c))).rewrite p (edits 0 [foldPatch id F a b])).node j :=
    fun j hj => by rw [foldStep, node_modify, if_neg fun e => hj e.1]
  rw [foldedBack, (h.ready_foldStep hid).node_takeOver, hself, hother p (Ne.symm hne), h.node_collapse_region,
    if_pos rfl]
  by_cases hj : j = id
  · rw [if_pos hj, if_pos hj]
  · rw [if_neg hj, if_neg hj, hother j hj, h.node_collapse_region]
    by_cases hjp : j = p
    · rw [if_pos hjp, if_pos hjp]
      rfl
    · rw [if_neg hjp, if_neg hjp, if_neg hjp]
      by_cases hjb : j ∈ starts b
      · have hjac : j ∉ starts (a ++ c) := by simp [(hb j hjb).2.2]
        rw [if_pos hjb, if_pos hjb, if_neg hjac]
      · rw [if_neg hjb, if_neg hjb]

/-- Folding back is a folding. -/
theorem Layout.folding_foldBack (h : Layout t p (unfoldedCells id F a b c)) (hid : Layout t id [])
    (hF : (t.node id).fold = some F) :
    Folding t (t.foldedBack p id F a b c) p id a b c F := by
  have hready := h.ready_foldStep hid
  have hnode := h.node_foldBack hid
  have hplace : Layout (t.foldedBack p id F a b c) p _ := hready.layout_takeOver
  have hbody : Layout (t.foldedBack p id F a b c) id b := hready.layout_taken
  have hsize := size_foldedBack t p id F a b c
  generalize t.foldedBack p id F a b c = t' at *
  obtain ⟨hcontent, hexpanded, hfold, hstands⟩ :=
    elsewhere_of_node (t := t) (p := p) (by rfl) ⟨by rfl, by rfl, by rfl⟩ hnode
  refine ⟨hsize, h, hid, hplace, hbody, hF, ?_, hcontent, hexpanded, hfold, fun j hj => ?_⟩
  · rw [hnode, if_pos rfl]
    rfl
  · rw [h.children] at hj
    simp only [unfoldedCells, starts_append, starts_opening, starts_closing, List.append_assoc,
      List.cons_append, List.mem_append, List.mem_cons, not_or] at hj
    exact hstands j hj.2.1 hj.2.2.1 (by simp [hj])

/-! ## Unfolding -/

/-- The glyph of a node as a patch that puts the bare region there. -/
def unfoldPatch (id : NodeId) (F : Fold) (a b : Cells) : Patch :=
  ⟨a, [⟨F.glyph, some (.glyph id)⟩], plain (F.opening :: b.text ++ [F.closing])⟩

/-- The children of a node one of whose children is hidden. -/
theorem Layout.folded_disjoint (h : Layout t p (foldedCells id F a c)) :
    id ≠ p ∧ id ∉ starts (a ++ c) ∧
      (t.children p).filter (· != id) = starts (a ++ c) := by
  have hnd := h.nested.nodup
  have hirr := h.irrefl
  simp only [foldedCells, starts_append, starts_glyph, List.mem_append, List.mem_cons,
    not_or] at hnd hirr
  have hac : id ∉ starts (a ++ c) := by
    rw [starts_append]
    exact (List.nodup_cons.1 (List.nodup_middle.1 hnd)).1
  refine ⟨fun e => hirr.2.1 e.symm, hac, ?_⟩
  have hida : (starts a).filter (· != id) = starts a :=
    List.filter_eq_self.2 fun i hi => by simpa using fun e => hac (by simp [← e, hi])
  have hidc : (starts c).filter (· != id) = starts c :=
    List.filter_eq_self.2 fun i hi => by simpa using fun e => hac (by simp [← e, hi])
  simp [h.children, foldedCells, hida, hidc]

/-- Where a hidden node stands. -/
theorem Layout.place_of_folded (h : Layout t p (foldedCells id F a c)) :
    (t.node id).place = some ⟨p, ⟨a.size, a.size + F.glyph.utf8Size⟩⟩ := by
  obtain ⟨⟨hp, -⟩, -⟩ := fits_some.1 (fits_append.1 h.fits).2
  simpa using hp

/-- The tree in which a region has come for the glyph of a node, and nothing has moved in yet. -/
def unfoldStep (t : Tree) (p id : NodeId) (F : Fold) (a b c : Cells) : Tree :=
  ((t.setChildren p (starts (a ++ c))).rewrite p (edits 0 [unfoldPatch id F a b])).modify id
    fun n => { n with text := [], children := [] }

theorem Layout.node_expand_glyph (h : Layout t p (foldedCells id F a c)) (b : Cells)
    (j : NodeId) :
    ((t.setChildren p (starts (a ++ c))).rewrite p (edits 0 [unfoldPatch id F a b])).node j =
      if j = p then edited (edits 0 [unfoldPatch id F a b])
        { t.node p with children := starts (a ++ c) }
      else if j ∈ starts (a ++ c) then followEdits (edits 0 [unfoldPatch id F a b]) (t.node j)
      else t.node j := by
  have hl : Layout t p (before [unfoldPatch id F a b] c) := by
    simpa [before, unfoldPatch, foldedCells] using h
  have hnode := hl.node_patched (by simp)
    (fun x hx => List.mem_singleton.1 hx ▸ fun i => by simp [unfoldPatch])
    (fun x hx => List.mem_singleton.1 hx ▸ by simp [unfoldPatch]) j
  simpa [after, unfoldPatch] using hnode

theorem Layout.expand_glyph (h : Layout t p (foldedCells id F a c)) (b : Cells) :
    Layout ((t.setChildren p (starts (a ++ c))).rewrite p (edits 0 [unfoldPatch id F a b])) p
      ((a ++ [⟨F.opening, none⟩]) ++ plain b.text ++ ⟨F.closing, none⟩ :: c) := by
  have hl : Layout t p (before [unfoldPatch id F a b] c) := by
    simpa [before, unfoldPatch, foldedCells] using h
  have hcol := hl.collapse (by simp)
    (fun x hx => List.mem_singleton.1 hx ▸ fun i => by simp [unfoldPatch])
    (fun x hx => List.mem_singleton.1 hx ▸ by simp [unfoldPatch])
  have hafter : after [unfoldPatch id F a b] c =
      (a ++ [⟨F.opening, none⟩]) ++ plain b.text ++ ⟨F.closing, none⟩ :: c := by
    simp [after, unfoldPatch, plain]
  rw [hafter] at hcol
  simpa using hcol

theorem Layout.node_unfoldStep (h : Layout t p (foldedCells id F a c)) (hid : id < t.size)
    (b : Cells) (j : NodeId) :
    (t.unfoldStep p id F a b c).node j =
      if j = id then { t.node id with text := [], children := [] }
      else if j = p then edited (edits 0 [unfoldPatch id F a b])
        { t.node p with children := starts (a ++ c) }
      else if j ∈ starts (a ++ c) then followEdits (edits 0 [unfoldPatch id F a b]) (t.node j)
      else t.node j := by
  obtain ⟨hne, hac, -⟩ := h.folded_disjoint
  have hsize : id < ((t.setChildren p (starts (a ++ c))).rewrite p
      (edits 0 [unfoldPatch id F a b])).size := by simpa using hid
  rw [unfoldStep, node_modify, h.node_expand_glyph]
  by_cases hj : j = id
  · subst hj
    rw [if_pos ⟨rfl, hsize⟩, if_pos rfl, if_neg hne, if_neg hac]
  · rw [if_neg (fun e => hj e.1), if_neg hj]

/-- The tree in which the children of a node have moved out into the region that has come for its
glyph. -/
def spread (t : Tree) (p id : NodeId) (F : Fold) (a b c : Cells) : Tree :=
  (starts b).foldl (fun t i => t.moveChild p 0 (a.size + F.opening.utf8Size) i)
    (t.unfoldStep p id F a b c)

/-- The tree in which the node besides counts as unfolded, though it stands nowhere new yet. -/
def hollow (t : Tree) (p id : NodeId) (F : Fold) (a b c : Cells) : Tree :=
  (t.spread p id F a b c).modify id fun n =>
    moveGroups 0 (a.size + F.opening.utf8Size) { n with fold := some F }

/-- The tree in which a node stands unfolded around the region that has come for its glyph. -/
def opened (t : Tree) (p id : NodeId) (F : Fold) (a b c : Cells) : Tree :=
  (t.hollow p id F a b c).putChild p id
    ⟨a.size, a.size + F.opening.utf8Size + b.size + F.closing.utf8Size⟩

theorem size_opened (t : Tree) (p id : NodeId) (F : Fold) (a b c : Cells) :
    (t.opened p id F a b c).size = t.size := by simp [opened, hollow, spread, unfoldStep]

theorem stripped_opened (t : Tree) (p id : NodeId) (F : Fold) (a b c : Cells) :
    (t.opened p id F a b c).stripped = t.stripped := by
  simp [opened, hollow, spread, unfoldStep]

theorem folds_opened (t : Tree) (p id : NodeId) (F : Fold) (a b c : Cells) :
    (t.opened p id F a b c).folds = t.folds :=
  folds_of_aside (aside_of_stripped (stripped_opened t p id F a b c))

theorem Layout.unfoldAt_eq (h : Layout t p (foldedCells id F a c)) (hb : Layout t id b) :
    t.unfoldAt id ⟨p, ⟨a.size, a.size + F.glyph.utf8Size⟩⟩ F =
      { t.opened p id F a b c with folds := id :: t.folds } := by
  obtain ⟨-, -, hks⟩ := h.folded_disjoint
  have hedit : edits 0 [unfoldPatch id F a b] =
      [⟨⟨a.size, a.size + F.glyph.utf8Size⟩, F.opening :: b.text ++ [F.closing]⟩] := by
    simp [edits, unfoldPatch]
  have hsize : Text.byteSize (F.opening :: b.text ++ [F.closing]) =
      F.opening.utf8Size + b.size + F.closing.utf8Size := by
    simp [Nat.add_assoc]
    rfl
  have hch : (t.node id).children = starts b := hb.children
  rw [← folds_opened t p id F a b c, opened, Nat.add_assoc, Nat.add_assoc,
    ← Nat.add_assoc F.opening.utf8Size, ← hsize]
  simp only [unfoldAt, hks, hb.text, hch, ← hedit]
  rfl

theorem size_opening (a : Cells) (F : Fold) :
    Cells.size (a ++ [⟨F.opening, none⟩]) = a.size + F.opening.utf8Size := by
  simp

theorem Layout.layout_unfoldStep (h : Layout t p (foldedCells id F a c)) (b : Cells) :
    Layout (t.unfoldStep p id F a b c) p
      ((a ++ [⟨F.opening, none⟩]) ++ plain b.text ++ ⟨F.closing, none⟩ :: c) := by
  obtain ⟨hne, hac, -⟩ := h.folded_disjoint
  refine (h.expand_glyph b).modify (Ne.symm hne) (fun hm => hac ?_) _
  rw [(h.expand_glyph b).children] at hm
  simpa using hm

section
variable (h : Layout t p (foldedCells id F a c)) (hb : Layout t id b) (hp : p ∉ starts b)
include h hb hp

theorem Layout.body_disjoint : ∀ i ∈ starts b, i ≠ id ∧ i ≠ p ∧ i ∉ starts (a ++ c) := by
  obtain ⟨hne, hac, hks⟩ := h.folded_disjoint
  intro i hi
  refine ⟨fun e => hb.irrefl (e ▸ hi), fun e => hp (e ▸ hi), fun hi' => hne ?_⟩
  have h1 := hb.parent (hb.children ▸ hi)
  have h2 := h.parent (List.mem_filter.1 (hks ▸ hi')).1
  exact Option.some.inj (h1.symm.trans h2)

theorem Layout.unfoldStep_same {j : NodeId} (hj : j ∈ starts b) :
    (t.unfoldStep p id F a b c).node j = t.node j := by
  obtain ⟨h1, h2, h3⟩ := h.body_disjoint hb hp j hj
  rw [h.node_unfoldStep hb.lt, if_neg h1, if_neg h2, if_neg h3]

theorem Layout.fits_unfoldStep : (t.unfoldStep p id F a b c).Fits id 0 b :=
  hb.fits.congr fun i hi => by
    rw [h.unfoldStep_same hb hp (hb.nested.mem_ids.1 hi)]
    exact ⟨rfl, rfl⟩

theorem Layout.spread_disjoint : ∀ i ∈ starts b,
    i ≠ p ∧ i ∉ starts (a ++ [⟨F.opening, none⟩]) ∧ i ∉ starts (⟨F.closing, none⟩ :: c) := by
  intro i hi
  obtain ⟨-, h2, h3⟩ := h.body_disjoint hb hp i hi
  rw [starts_append, List.mem_append, not_or] at h3
  exact ⟨h2, by simpa using h3.1, by simpa using h3.2⟩

theorem Layout.node_spread (j : NodeId) :
    (t.spread p id F a b c).node j =
      if j ∈ starts b then moved p 0 (a.size + F.opening.utf8Size) (t.node j)
      else if j = p then { edited (edits 0 [unfoldPatch id F a b]) (t.node p) with
        children := starts a ++ starts b ++ starts c }
      else (t.unfoldStep p id F a b c).node j := by
  have := node_gather (h.layout_unfoldStep b) (h.fits_unfoldStep hb hp) hb.nested
    (h.spread_disjoint hb hp) j
  rw [size_opening] at this
  rw [spread, this]
  by_cases hj : j ∈ starts b
  · rw [if_pos hj, if_pos hj, h.unfoldStep_same hb hp hj]
  · rw [if_neg hj, if_neg hj, h.node_unfoldStep hb.lt, if_neg (Ne.symm h.folded_disjoint.1),
      if_pos rfl]
    simp [edited, Node.mapGroups]

theorem Layout.layout_spread : Layout (t.spread p id F a b c) p
    (a ++ ⟨F.opening, none⟩ :: b ++ ⟨F.closing, none⟩ :: c) := by
  have := (h.layout_unfoldStep b).gather (h.fits_unfoldStep hb hp) hb.nested
    (h.spread_disjoint hb hp)
  rw [size_opening] at this
  simpa [spread] using this

theorem Layout.not_mem_spread : id ∉ (t.spread p id F a b c).children p := by
  obtain ⟨-, hac, -⟩ := h.folded_disjoint
  have hidb : id ∉ starts b := hb.irrefl
  rw [(h.layout_spread hb hp).children]
  simp only [starts_append, starts_none, List.mem_append] at hac ⊢
  tauto

theorem Layout.layout_hollow : Layout (t.hollow p id F a b c) p
    (a ++ ⟨F.opening, none⟩ :: b ++ ⟨F.closing, none⟩ :: c) :=
  (h.layout_spread hb hp).modify (Ne.symm h.folded_disjoint.1) (h.not_mem_spread hb hp) _

theorem Layout.not_mem_hollow : id ∉ (t.hollow p id F a b c).children p := by
  rw [(h.layout_hollow hb hp).children, ← (h.layout_spread hb hp).children]
  exact h.not_mem_spread hb hp

theorem Layout.node_hollow_self : (t.hollow p id F a b c).node id =
    moveGroups 0 (a.size + F.opening.utf8Size)
      { t.node id with text := [], children := [], fold := some F } := by
  have hsize : id < (t.spread p id F a b c).size := by simpa [spread, unfoldStep] using hb.lt
  have hidb : id ∉ starts b := hb.irrefl
  rw [hollow, node_modify, if_pos ⟨rfl, hsize⟩, h.node_spread hb hp, if_neg hidb,
    if_neg h.folded_disjoint.1, h.node_unfoldStep hb.lt, if_pos rfl]

theorem Layout.layout_opened :
    Layout (t.opened p id F a b c) p (unfoldedCells id F a b c) := by
  refine (h.layout_hollow hb hp).enclose (closed_of_nest hb.nested.nest) ?_ h.folded_disjoint.1
    (h.not_mem_hollow hb hp) (by rw [h.node_hollow_self hb hp]; rfl)
  simpa [hollow, spread, unfoldStep] using hb.lt

theorem Layout.node_opened (j : NodeId) :
    (t.opened p id F a b c).node j =
      if j = id then { moveGroups 0 (a.size + F.opening.utf8Size)
          { t.node id with text := [], children := [], fold := some F } with
        place := some ⟨p, ⟨a.size,
          a.size + F.opening.utf8Size + b.size + F.closing.utf8Size⟩⟩ }
      else if j = p then { edited (edits 0 [unfoldPatch id F a b]) (t.node p) with
        children := starts a ++ id :: (starts b ++ starts c) }
      else if j ∈ starts b then moved p 0 (a.size + F.opening.utf8Size) (t.node j)
      else if j ∈ starts (a ++ c) then followEdits (edits 0 [unfoldPatch id F a b]) (t.node j)
      else t.node j := by
  obtain ⟨hne, -, -⟩ := h.folded_disjoint
  have hlay : Layout (t.hollow p id F a b c) p
      (a ++ ⟨F.opening, none⟩ :: (b ++ ⟨F.closing, none⟩ :: c)) := by
    simpa using h.layout_hollow hb hp
  have hsize : id < (t.hollow p id F a b c).size := by
    simpa [hollow, spread, unfoldStep] using hb.lt
  have hother : ∀ k, k ≠ id → (t.hollow p id F a b c).node k = (t.spread p id F a b c).node k :=
    fun k hk => by rw [hollow, node_modify, if_neg fun e => hk e.1]
  rw [opened, node_put hlay hsize hne (h.not_mem_hollow hb hp)]
  by_cases hji : j = id
  · rw [if_pos hji, if_pos hji, h.node_hollow_self hb hp]
  · rw [if_neg hji, if_neg hji]
    by_cases hjp : j = p
    · rw [if_pos hjp, if_pos hjp, hother p (Ne.symm hne), h.node_spread hb hp, if_neg hp,
        if_pos rfl]
      simp
    · rw [if_neg hjp, if_neg hjp, hother j hji, h.node_spread hb hp, if_neg hjp,
        h.node_unfoldStep hb.lt, if_neg hji, if_neg hjp]

/-- Unfolding is a folding read backwards. -/
theorem Layout.folding_unfoldAt (hF : (t.node id).fold = none) : Folding
    (t.unfoldAt id ⟨p, ⟨a.size, a.size + F.glyph.utf8Size⟩⟩ F) t p id a b c F := by
  have hsize := size_opened t p id F a b c
  have hplace := h.layout_opened hb hp
  have hnode := h.node_opened hb hp
  rw [h.unfoldAt_eq hb]
  generalize t.opened p id F a b c = t' at *
  -- the stack of unfolded nodes is no part of the layout
  generalize hu : ({ t' with folds := id :: t.folds } : Tree) = u
  have hsame : ∀ j, u.node j = t'.node j := fun j => hu ▸ rfl
  have husize : u.size = t.size := hu ▸ hsize
  have hself := (hsame id).trans (hnode id)
  rw [if_pos rfl] at hself
  obtain ⟨hcontent, hexpanded, hfold, hstands⟩ :=
    elsewhere_of_node (t := t) (p := p) (by rfl) ⟨by rfl, by rfl, by rfl⟩
      fun j => (hsame j).trans (hnode j)
  refine ⟨husize.symm, ?_, ⟨husize ▸ hb.lt, ?_, ?_, trivial, nested_plain [], by simp⟩, h, hb, ?_,
    hF, fun j hjp hji => ?_, fun j => (hexpanded j).symm, fun j hji => (hfold j hji).symm,
    fun j hj => ?_⟩
  · apply hplace.frame (husize ▸ h.lt) (by rw [hsame]) (by rw [Tree.children, hsame]; rfl)
    intro i _
    rw [hsame i]
    exact ⟨rfl, rfl⟩
  · rw [hself]
    rfl
  · rw [Tree.children, hself]
    rfl
  · rw [hself]
    rfl
  · exact ⟨(hcontent j hjp hji).1.symm, (hcontent j hjp hji).2.symm⟩
  · have hkids : u.children p = _ := (congrArg Node.children (hsame p)).trans hplace.children
    simp only [hkids, unfoldedCells, starts_append, starts_opening, starts_closing,
      List.append_assoc, List.cons_append, List.mem_append, List.mem_cons, not_or] at hj
    exact (hstands j hj.2.1 hj.2.2.1 (by simp [hj])).symm

end

theorem Hidden.folding (h : Hidden t p id a b c F) : Folding
    (t.unfoldAt id ⟨p, ⟨a.size, a.size + F.glyph.utf8Size⟩⟩ F) t p id a b c F :=
  h.place.folding_unfoldAt h.body h.apart h.folded

end GlyphTree.Tree
