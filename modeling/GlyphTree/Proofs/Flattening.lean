import GlyphTree.Proofs.FoldStack

/-!
# Expanding children for good

Expanding the children of a node puts their texts in place of their glyphs. Where the children have
no children themselves, that is what the node stands for, so the nodes are expanded from the last in
live order to the first: a node comes after all that are below it (`Flattened`).
-/

namespace GlyphTree.Tree

open Cells Relation

variable {t t' u f : Tree} {p id x y : NodeId} {o : Nat} {cs a b c : Cells} {F : Fold}
  {l : List NodeId}

/-! ## One node -/

/-- The edits that put the texts of hidden children in place of their glyphs. -/
theorem Fits.filterMap_span (h : t.Fits p o cs) (hf : ∀ i ∈ ids cs, (t.node i).fold = none) :
    (starts cs).filterMap (fun c => (t.node c).span.map (Edit.mk · (t.node c).text)) =
      (marks o cs).map fun x => ⟨x.1, t.resolveId (fun c => (t.node c).text) x.2⟩ := by
  induction cs generalizing o with
  | nil => rfl
  | cons c cs ih =>
    obtain ⟨ch, m⟩ := c
    rcases m with _ | i | i | i
    · exact ih (fits_none.1 h) hf
    · obtain ⟨⟨hp, hi⟩, h⟩ := fits_some.1 h
      have ih := ih h fun j hj => hf j (by simp [hj])
      rw [starts_glyph, List.filterMap_cons, ih]
      simp [Node.span, hp, resolveId, Node.isUnfolded, hi, CellMark.id]
    · obtain ⟨⟨_, F, -, hF, -⟩, -⟩ := fits_some.1 h
      rw [hf i (by simp [CellMark.id])] at hF
      cases hF
    · obtain ⟨⟨_, F, -, hF, -⟩, -⟩ := fits_some.1 h
      rw [hf i (by simp [CellMark.id])] at hF
      cases hF

/-- A tree after the children of a node have been expanded. -/
structure Expanded (t t' : Tree) (x : NodeId) (cs : Cells) : Prop where
  size : t'.size = t.size
  aside : t'.aside = t.aside
  text : (t'.node x).text = fill (fun c => (t.node c).text) cs
  children : t'.children x = []
  expanded : t'.expandedChildren x = t.expandedChildren x ++ t.children x
  place : (t'.node x).place = (t.node x).place
  fold : (t'.node x).fold = (t.node x).fold
  other : ∀ j, j ≠ x → t'.node j = t.node j

/-- Expanding the children of a node none of which is unfolded. -/
theorem Layout.expanded (h : Layout t x cs)
    (hf : ∀ c ∈ t.children x, (t.node c).fold = none) :
    Expanded t (t.expandChildren x) x cs := by
  have hids : ∀ i ∈ ids cs, (t.node i).fold = none := fun i hi =>
    hf i (h.children ▸ h.nested.mem_ids.1 hi)
  have hedits := h.fits.filterMap_span hids
  have htext := Fits.applyEditsFrom (o := 0) (u := []) (by simpa using h.fits)
    fun c => (t.node c).text
  simp only [Text.byteSize_nil, Nat.zero_add, List.nil_append, ← hedits] at htext
  rw [← h.children] at htext
  unfold expandChildren
  dsimp only
  generalize (t.children x).filterMap
    (fun c => (t.node c).span.map (Edit.mk · (t.node c).text)) = es at htext ⊢
  -- without edits the text stays as it is, and so do the groups
  have hnode : ∀ j, ∃ groups, ((t.setChildren x []).rewrite x es).node j = if j = x then
      { t.node x with text := applyEdits (t.node x).text es, children := [], groups := groups }
      else t.node j := by
    intro j
    by_cases he : es = []
    · refine ⟨(t.node x).groups, ?_⟩
      rw [he, rewrite, List.isEmpty_nil, if_pos rfl, node_setChildren _ h.lt]
      rfl
    · refine ⟨(edited es { t.node x with children := [] }).groups, ?_⟩
      rw [node_collapse he h.lt .nil (by simp) (by simp), if_neg List.not_mem_nil]
      rfl
  have hsize : x < ((t.setChildren x []).rewrite x es).size := by simpa using h.lt
  obtain ⟨groups, hx⟩ := hnode x
  rw [if_pos rfl, h.text] at hx
  refine ⟨by simp, by simp, ?_, ?_, ?_, ?_, ?_, fun j hj => ?_⟩
  · rw [node_modify, if_pos ⟨rfl, hsize⟩, hx]
    exact htext
  · rw [Tree.children, node_modify, if_pos ⟨rfl, hsize⟩, hx]
  · rw [expandedChildren, node_modify, if_pos ⟨rfl, hsize⟩, hx]
    rfl
  · rw [node_modify, if_pos ⟨rfl, hsize⟩, hx]
  · rw [node_modify, if_pos ⟨rfl, hsize⟩, hx]
  · obtain ⟨groups, hj'⟩ := hnode j
    rw [node_modify, if_neg fun e => hj e.1, hj', if_neg hj]

section
variable (e : Expanded t t' x cs)
include e

theorem Expanded.mem_below {c : NodeId} : c ∈ t'.below y ↔ c ∈ t.below y := by
  rw [below, below]
  by_cases hy : y = x
  · subst hy
    rw [e.children, e.expanded, List.nil_append, List.mem_append, List.mem_append, or_comm]
  · rw [Tree.children, expandedChildren, e.other y hy]
    rfl

theorem Expanded.stands (j : NodeId) :
    (t'.node j).place = (t.node j).place ∧ (t'.node j).fold = (t.node j).fold := by
  by_cases hj : j = x
  · exact hj ▸ ⟨e.place, e.fold⟩
  · rw [e.other j hj]
    exact ⟨rfl, rfl⟩

theorem Expanded.layout {ds : Cells} (hl : Layout t y ds) (hy : y ≠ x) : Layout t' y ds :=
  hl.frame (e.size ▸ hl.lt) (by rw [e.other y hy]) (by rw [Tree.children, e.other y hy]; rfl)
    fun i _ => e.stands i

theorem Expanded.layout_self (hx : x < t.size) :
    Layout t' x (plain (fill (fun c => (t.node c).text) cs)) where
  lt := e.size ▸ hx
  text := by rw [e.text, text_plain]
  children := by rw [e.children, starts_plain]
  fits := fits_plain _
  nested := nested_plain _
  irrefl := by simp

theorem Expanded.shaped (hs : Shaped t) (h : Layout t x cs)
    (hun : (t.node x).isUnfolded = false) : Shaped t' where
  root := e.size ▸ hs.root
  top := (e.stands Tree.root).1.trans hs.top
  topFold := (e.stands Tree.root).2.trans hs.topFold
  layout y hy := by
    by_cases hyx : y = x
    · exact hyx ▸ ⟨_, e.layout_self h.lt⟩
    · obtain ⟨ds, hl⟩ := hs.layout y (e.size ▸ hy)
      exact ⟨ds, e.layout hl hyx⟩
  hollow y hy := by
    rw [Node.isUnfolded_congr (e.stands y).2] at hy
    have hyx : y ≠ x := by
      intro hyx
      rw [hyx] at hy
      exact Bool.noConfusion (hy.symm.trans hun)
    exact e.layout (hs.hollow y hy) hyx
  expandedNodup y := by
    by_cases hyx : y = x
    · rw [hyx, e.expanded]
      exact List.perm_append_comm.nodup_iff.1 (hs.below_nodup x)
    · rw [expandedChildren, e.other y hyx]
      exact hs.expandedNodup y
  expandedParent y i hi := by
    have hb : i ∈ t.below y := e.mem_below.1 (List.mem_append_right _ hi)
    refine ⟨?_, fun hc => ?_⟩
    · rw [Node.parent, (e.stands i).1]
      exact hs.parent_below hb
    · by_cases hyx : y = x
      · rw [hyx, e.children] at hc
        cases hc
      · rw [expandedChildren, e.other y hyx] at hi
        rw [Tree.children, e.other y hyx] at hc
        exact (hs.expandedParent y i hi).2 hc
  ranked := hs.ranked.imp fun _ hr y c hc => hr y c (e.mem_below.1 hc)

theorem Expanded.stacked {folds : List NodeId} (hst : Stacked t folds) : Stacked t' folds where
  nodup := hst.nodup
  unfolded i hi := by
    rw [Node.isUnfolded_congr (e.stands i).2]
    exact hst.unfolded i hi
  listed y i hi hun := by
    rw [Node.isUnfolded_congr (e.stands i).2] at hun
    by_cases hyx : y = x
    · rw [hyx, e.children] at hi
      cases hi
    · rw [Tree.children, e.other y hyx] at hi
      exact hst.listed y i hi hun

/-- If the children have no children, the node's new text is what it stands for. -/
theorem Expanded.reading (hs : Shaped t) (hs' : Shaped t') (h : Layout t x cs)
    (hc : ∀ c ∈ t.children x, t.children c = []) (hy : y < t.size) :
    t'.reading y = t.reading y := by
  refine hs.reading_unique (fun y ds hl => ?_) hy
  by_cases hyx : y = x
  · subst hyx
    rw [hs'.reading_of_childless (e.size ▸ h.lt) e.children, e.text, hl.unique h]
    apply h.fill_congr
    intro c hcx _
    have hcy : c ≠ y := fun hcy => h.irrefl (h.children ▸ hcy ▸ hcx)
    rw [hs'.reading_of_childless (e.size ▸ h.lt_size hcx), e.other c hcy]
    rw [Tree.children, e.other c hcy]
    exact hc c hcx
  · exact hs'.reading_eq (e.layout hl hyx)

end

/-! ## All live nodes -/

theorem Stacked.fold_of_mem_children {c : NodeId} (hst : Stacked t []) (hc : c ∈ t.children x) :
    (t.node c).fold = none := by
  cases hcf : (t.node c).fold with
  | none => rfl
  | some F => cases hst.listed x c hc (Node.isUnfolded_of_some hcf)

/-- A tree after the children of some nodes have been expanded, each after those below it. -/
structure Flattened (t t' : Tree) (l : List NodeId) : Prop where
  size : t'.size = t.size
  aside : t'.aside = t.aside
  shaped : Shaped t'
  stacked : Stacked t' []
  reading : ∀ y, y < t.size → t'.reading y = t.reading y
  below : ∀ y c, c ∈ t'.below y ↔ c ∈ t.below y
  childless : ∀ y ∈ l, t'.children y = []
  fold : ∀ y, (t'.node y).fold = (t.node y).fold
  other : ∀ y, y ∉ l → t'.node y = t.node y

theorem Flattened.refl (hs : Shaped t) (hst : Stacked t []) : Flattened t t [] :=
  ⟨rfl, rfl, hs, hst, fun _ _ => rfl, fun _ _ => .rfl, by simp, fun _ => rfl, fun _ _ => rfl⟩

/-- One more node, all of whose children have been expanded before. -/
theorem Flattened.cons (hf : Flattened t t' l) (hx : x < t.size) (hxl : x ∉ l)
    (hun : (t.node x).isUnfolded = false) (hc : ∀ c ∈ t.children x, c ∈ l) :
    Flattened t (t'.expandChildren x) (x :: l) := by
  obtain ⟨cs, hl⟩ := hf.shaped.layout x (hf.size ▸ hx)
  have hxc : t'.children x = t.children x := by
    rw [Tree.children, hf.other x hxl]
    rfl
  have e := hl.expanded fun c => hf.stacked.fold_of_mem_children
  have hun' : (t'.node x).isUnfolded = false := by rwa [hf.other x hxl]
  have hs := e.shaped hf.shaped hl hun'
  refine ⟨e.size.trans hf.size, e.aside.trans hf.aside, hs, e.stacked hf.stacked, fun y hy => ?_,
    fun y c => e.mem_below.trans (hf.below y c), fun y hy => ?_,
    fun y => (e.stands y).2.trans (hf.fold y), fun y hy => ?_⟩
  · rw [e.reading hf.shaped hs hl (fun c hc' => hf.childless c (hc c (hxc ▸ hc')))
      (hf.size ▸ hy), hf.reading y hy]
  · by_cases hyx : y = x
    · rw [hyx, e.children]
    · rw [Tree.children, e.other y hyx]
      exact hf.childless y (List.mem_of_ne_of_mem hyx hy)
  · rw [List.mem_cons, not_or] at hy
    rw [e.other y hy.1, hf.other y hy.2]

/-- Expanding nodes from the last to the first, in an order in which nodes come before those below
them. -/
theorem Shaped.flattened_foldl (hs : Shaped t) (hst : Stacked t []) (hl : ∀ x ∈ l, x < t.size)
    (hun : ∀ x ∈ l, (t.node x).isUnfolded = false) (hnd : l.Nodup)
    (hd : Descends t.children l) : Flattened t (l.reverse.foldl expandChildren t) l := by
  rw [List.foldl_reverse]
  induction l with
  | nil => exact .refl hs hst
  | cons x l ih =>
    obtain ⟨hxl, hnd⟩ := List.nodup_cons.1 hnd
    obtain ⟨hx, hl⟩ := List.forall_mem_cons.1 hl
    obtain ⟨hxun, hun⟩ := List.forall_mem_cons.1 hun
    exact (ih hl hun hnd hd.2).cons hx hxl hxun hd.1

/-- If no unfolded node is listed, no live node is unfolded. -/
theorem Shaped.fold_of_live (hs : Shaped t) (hst : Stacked t []) (hx : x ∈ t.liveOrder) :
    (t.node x).fold = none := by
  rcases (hs.mem_liveOrder.1 hx).cases_tail with rfl | ⟨q, -, hq⟩
  · exact hs.topFold
  · exact hst.fold_of_mem_children hq

/-- All live nodes are expanded. -/
theorem Shaped.flattened (hs : Shaped t) (hst : Stacked t []) :
    Flattened t (t.liveOrder.reverse.foldl expandChildren t) t.liveOrder := by
  refine hs.flattened_foldl hst (fun x hx => hs.lt_of_mem_documentOrder (hs.live_subset hx))
    (fun x hx => ?_) hs.nodup_liveOrder (descends_preorder (hs.ends_children hs.root))
  exact Node.isUnfolded_of_none (hs.fold_of_live hst hx)

/-- What holds of a tree when no node has been expanded yet, and of the nodes expanded so far after
each expansion of hidden children that have no children themselves, holds of all live nodes when they
are expanded. -/
theorem Shaped.expandLive_induct {P : List NodeId → Tree → Prop} (hs : Shaped t) (hst : Stacked t [])
    (hstep : ∀ {l u x cs}, P l u → Shaped u → Shaped (u.expandChildren x) → Layout u x cs →
      (∀ c ∈ u.children x, (u.node c).fold = none ∧ u.children c = []) →
      P (x :: l) (u.expandChildren x))
    (h : P [] t) : P t.liveOrder (t.liveOrder.reverse.foldl expandChildren t) := by
  have hl : ∀ x ∈ t.liveOrder, x < t.size ∧ (t.node x).isUnfolded = false := fun x hx =>
    ⟨hs.lt_of_mem_documentOrder (hs.live_subset hx),
      Node.isUnfolded_of_none (hs.fold_of_live hst hx)⟩
  have hnd := hs.nodup_liveOrder
  have hd : Descends t.children t.liveOrder := descends_preorder (hs.ends_children hs.root)
  generalize t.liveOrder = l at hl hnd hd
  induction l with
  | nil => exact h
  | cons x l ih =>
    obtain ⟨hxl, hnd⟩ := List.nodup_cons.1 hnd
    obtain ⟨⟨hx, hxu⟩, hl⟩ := List.forall_mem_cons.1 hl
    have hflat := hs.flattened_foldl hst (fun y hy => (hl y hy).1) (fun y hy => (hl y hy).2) hnd hd.2
    have hflat' := hflat.cons hx hxl hxu hd.1
    obtain ⟨cs, hlay⟩ := hflat.shaped.layout x (hflat.size ▸ hx)
    rw [List.reverse_cons, List.foldl_append]
    refine hstep (ih hl hnd hd.2) hflat.shaped hflat'.shaped hlay fun c hc => ?_
    refine ⟨hflat.stacked.fold_of_mem_children hc, hflat.childless c (hd.1 c ?_)⟩
    rwa [Tree.children, hflat.other x hxl] at hc

/-- What holds of a tree, and after each expansion of hidden children that have no children
themselves, holds when all live nodes are expanded. -/
theorem Shaped.expand_induct {P : Tree → Prop} (hs : Shaped t) (hst : Stacked t [])
    (hstep : ∀ {u x cs}, P u → Shaped u → Shaped (u.expandChildren x) → Layout u x cs →
      (∀ c ∈ u.children x, (u.node c).fold = none ∧ u.children c = []) → P (u.expandChildren x))
    (h : P t) : P (t.liveOrder.reverse.foldl expandChildren t) :=
  hs.expandLive_induct (P := fun _ => P) hst hstep h

/-! ## Reach -/

/-- What could be reached before a node was folded back can be reached afterwards. -/
theorem Folding.live_fold (h : Folding u f p id a b c F)
    (hx : ReflTransGen (Under u.children) x y) : ReflTransGen (Under f.children) x y := by
  refine ReflTransGen.lift' (fun j => j) (fun q i (hi : i ∈ u.children q) => ?_) _ _ hx
  by_cases hb : i ∈ starts b
  · -- the way to the body leads through the node now
    have hq : q = p ∨ f.children q = u.children q := by
      by_cases hqp : q = p
      · exact .inl hqp
      · by_cases hqi : q = id
        · rw [hqi, h.children_hollow] at hi
          cases hi
        · exact .inr (h.children_same hqp hqi)
    rcases hq with rfl | hq
    · exact .tail (.single h.mem_children_place) (h.body.children ▸ hb : i ∈ f.children id)
    · exact .single (hq ▸ hi : i ∈ f.children q)
  · exact .single ((h.mem_children_iff hb).2 hi : i ∈ f.children q)

theorem Folding.mem_below_fold (h : Folding u f p id a b c F) (hi : y ∈ u.below x) :
    ReflTransGen (Under f.below) x y := by
  rcases List.mem_append.1 hi with hi | hi
  · exact ReflTransGen.mono (fun q c (hc : c ∈ f.children q) =>
      (List.mem_append_left _ hc : c ∈ f.below q)) _ _ (h.live_fold (.single hi))
  · exact .single (List.mem_append_right _ (h.expanded x ▸ hi) : y ∈ f.below x)

/-- The document has the same nodes when a node is folded back. -/
theorem Folding.mem_documentOrder (h : Folding u f p id a b c F) (hu : Shaped u) :
    x ∈ f.documentOrder ↔ x ∈ u.documentOrder := by
  have hf := h.shaped_fold hu
  rw [hf.mem_documentOrder, hu.mem_documentOrder]
  constructor
  · intro hx
    induction hx with
    | refl => exact .refl
    | @tail q i _ hi ih =>
      have hi : i ∈ f.below q := hi
      by_cases hq : q = id ∧ i ∈ starts b
      · -- the way to the node led through its parent, where its body was
        obtain ⟨rfl, hb⟩ := hq
        rcases ih.cases_tail with hroot | ⟨q', hq', hid⟩
        · exact absurd h.mem_children_place (hroot ▸ hf.root_not_child)
        · have hp : q ∈ u.below p := List.mem_append_left _ (by simp [h.children_around])
          obtain rfl := hu.below_unique q' p q hid hp
          have : i ∈ u.children q' := by simp [h.children_around, hb]
          exact hq'.tail (List.mem_append_left _ this : i ∈ u.below q')
      · refine ih.tail (?_ : i ∈ u.below q)
        rcases List.mem_append.1 hi with hi | hi
        · refine List.mem_append_left _ ?_
          by_cases hb : i ∈ starts b
          · have hqi : q ≠ id := fun e => hq ⟨e, hb⟩
            exact absurd (hf.parent_unique hi (h.body.children ▸ hb)) hqi
          · exact (h.mem_children_iff hb).1 hi
        · exact List.mem_append_right _ (h.expanded q ▸ hi)
  · intro hx
    exact ReflTransGen.lift' (fun j => j) (fun q i hi => h.mem_below_fold hi) _ _ hx

theorem Folds.mem_liveOrder {folds : List NodeId} (h : Folds t folds t') (hs : Shaped t)
    (hx : x ∈ t.liveOrder) : x ∈ t'.liveOrder := by
  induction h with
  | done => exact hx
  | skip _ _ ih => exact ih hs hx
  | back hF _ ih =>
    have hs' := hF.shaped_fold hs
    exact ih hs' (hs'.mem_liveOrder.2 (hF.live_fold (hs.mem_liveOrder.1 hx)))

theorem Folds.mem_documentOrder {folds : List NodeId} (h : Folds t folds t') (hs : Shaped t) :
    x ∈ t'.documentOrder ↔ x ∈ t.documentOrder := by
  induction h with
  | done => rfl
  | skip _ _ ih => exact ih hs
  | back hF _ ih => exact (ih (hF.shaped_fold hs)).trans (hF.mem_documentOrder hs)

theorem Flattened.mem_documentOrder (h : Flattened t t' l) (hs : Shaped t) :
    x ∈ t'.documentOrder ↔ x ∈ t.documentOrder := by
  have hb : Under t'.below = Under t.below := by
    funext y c
    exact propext (h.below y c)
  rw [h.shaped.mem_documentOrder, hs.mem_documentOrder, hb]

theorem Shaped.mem_liveOrder_of_isLive (hs : Shaped t) (hx : t.isLive x = true) :
    x ∈ t.liveOrder := by
  rw [isLive] at hx
  rw [hs.mem_liveOrder]
  generalize t.size + 1 = n at hx
  induction n generalizing x with
  | zero => cases hx
  | succ n ih =>
    rw [isLiveWithin] at hx
    split at hx
    · rename_i hroot
      exact hroot ▸ .refl
    · split at hx
      · cases hx
      · rename_i q _
        obtain ⟨hc, hq⟩ := Bool.and_eq_true_iff.1 hx
        exact (ih hq).tail (by simpa using hc : x ∈ t.children q)

/-! ## Unhiding everything -/

theorem unhideAll_tree (t : Tree) : t.unhideAll.tree =
    t.foldAll.tree.liveOrder.reverse.foldl expandChildren t.foldAll.tree := by
  obtain ⟨n, hn⟩ := foldEach_ok t.folds { t with folds := [] }
  unfold unhideAll Outcome.andThen
  rw [show t.foldAll.result = .ok n from hn]
  rfl

theorem foldAll_of_folds_nil (h : t.folds = []) : t.foldAll.tree = t := by
  obtain ⟨nodes, names, cursors, ignored, folds, labels, config⟩ := t
  simp only at h
  subst h
  rfl

theorem expandChildren_of_childless (h : t.children x = []) : t.expandChildren x = t := by
  have hset : t.setChildren x [] = t := modify_eq_self (by rw [← h]; rfl)
  unfold expandChildren
  rw [h]
  refine Eq.trans (congrArg (modify · x _) ?_) (modify_eq_self ?_)
  · exact hset
  · rw [List.append_nil]

section
variable (hw : WellFormed t)
include hw

theorem WellFormed.flattened_unhideAll :
    Flattened t.foldAll.tree t.unhideAll.tree t.foldAll.tree.liveOrder := by
  have hf := hw.faithful_foldAll.wellFormed
  have hst := hf.stacked
  rw [hw.folds_foldAll.2] at hst
  rw [unhideAll_tree]
  exact hf.shaped.flattened hst

theorem WellFormed.folds_unhideAll : t.unhideAll.tree.folds = [] :=
  (folds_of_aside hw.flattened_unhideAll.aside).trans hw.folds_foldAll.2

theorem WellFormed.faithful_unhideAll : Faithful t t.unhideAll.tree := by
  have hf := hw.faithful_foldAll
  have h := hw.flattened_unhideAll
  refine ⟨⟨h.shaped, hw.folds_unhideAll ▸ h.stacked⟩, ?_⟩
  rw [h.reading _ hf.wellFormed.shaped.root, hf.reading]

/-- What was live and not unfolded has as its text what it stood for. -/
theorem WellFormed.text_unhideAll (hx : x ∈ t.liveOrder) (hun : (t.node x).isUnfolded = false) :
    (t.unhideAll.tree.node x).text = t.reading x := by
  have ha := alike_folds t []
  have hs := hw.shaped.alike ha
  have hlt := hw.shaped.lt_of_mem_documentOrder (hw.shaped.live_subset hx)
  have hfolds := hw.folds_foldAll.1
  have h := hw.flattened_unhideAll
  have hlive : x ∈ t.foldAll.tree.liveOrder := by
    refine hfolds.mem_liveOrder hs (hs.mem_liveOrder.2 ?_)
    exact hw.shaped.mem_liveOrder.1 hx
  have hlt' : x < t.foldAll.tree.size := hfolds.size ▸ hlt
  rw [← h.shaped.reading_of_childless (h.size ▸ hlt') (h.childless x hlive), h.reading x hlt',
    hfolds.reading hs hlt, ha.reading hw.shaped hlt]
  intro hm
  exact Bool.noConfusion ((hw.stacked.unfolded x hm).symm.trans hun)

theorem WellFormed.children_root_unhideAll : t.unhideAll.tree.children root = [] := by
  refine hw.flattened_unhideAll.childless root ?_
  exact hw.faithful_foldAll.wellFormed.shaped.mem_liveOrder.2 .refl

theorem WellFormed.liveOrder_unhideAll : t.unhideAll.tree.liveOrder = [root] := by
  have hs := hw.faithful_unhideAll.wellFormed.shaped
  obtain ⟨n, hn⟩ : ∃ n, t.unhideAll.tree.size = n + 1 := ⟨_, (Nat.succ_pred_eq_of_pos hs.root).symm⟩
  rw [liveOrder, hn, preorder, hw.children_root_unhideAll]
  rfl

theorem WellFormed.isLive_unhideAll : t.unhideAll.tree.isLive x = true ↔ x = root := by
  constructor
  · intro hx
    have := hw.faithful_unhideAll.wellFormed.shaped.mem_liveOrder_of_isLive hx
    rw [hw.liveOrder_unhideAll] at this
    exact List.mem_singleton.1 this
  · rintro rfl
    rfl

theorem WellFormed.documentOrder_unhideAll :
    t.unhideAll.tree.documentOrder.Perm t.documentOrder := by
  have hf := hw.faithful_foldAll.wellFormed.shaped
  refine (List.perm_ext_iff_of_nodup hw.faithful_unhideAll.wellFormed.shaped.nodup_documentOrder
    hw.shaped.nodup_documentOrder).2 fun x => ?_
  rw [hw.flattened_unhideAll.mem_documentOrder hf,
    hw.folds_foldAll.1.mem_documentOrder (hw.shaped.alike (alike_folds t []))]
  rfl

/-- Where nothing is unfolded and only the root is live there is nothing left to do. -/
theorem WellFormed.unhideAll_unhideAll :
    t.unhideAll.tree.unhideAll.tree = t.unhideAll.tree := by
  rw [unhideAll_tree t.unhideAll.tree, foldAll_of_folds_nil hw.folds_unhideAll,
    hw.liveOrder_unhideAll]
  exact expandChildren_of_childless hw.children_root_unhideAll

end

end GlyphTree.Tree
