import GlyphTree.Proofs.Reading

/-!
# The stack of unfolded nodes

A folding, read in either direction, keeps all nodes laid out and what each node but the one folded
stands for. Unfolding puts a node on the stack; folding back takes it off. Of the nodes on the stack
those that no list of children holds any more are skipped, so `foldAll` is a run of foldings
(`Folds`) after which no unfolded node is listed.
-/

namespace GlyphTree.Tree

open Cells

variable {t u f : Tree} {p id x : NodeId} {a b c : Cells} {F : Fold} {folds : List NodeId}

/-! ## One folding -/

section
variable (h : Folding u f p id a b c F)
include h

theorem Folding.children_around : u.children p = starts a ++ id :: (starts b ++ starts c) := by
  rw [h.around.children]
  simp [unfoldedCells]

theorem Folding.children_place : f.children p = starts a ++ id :: starts c := by
  rw [h.place.children]
  simp [foldedCells]

theorem Folding.children_hollow : u.children id = [] := h.hollow.children

theorem Folding.mem_children_place : id ∈ f.children p := by
  simp [h.children_place]

theorem Folding.ne : id ≠ p := h.around.unfolded_disjoint.1

theorem Folding.children_same {j : NodeId} (hp : j ≠ p) (hi : j ≠ id) :
    f.children j = u.children j := (h.content j hp hi).2

/-- The nodes directly below others are the same, but for the body. -/
theorem Folding.mem_children_iff {j i : NodeId} (hi : i ∉ starts b) :
    i ∈ f.children j ↔ i ∈ u.children j := by
  by_cases hp : j = p
  · rw [hp, h.children_place, h.children_around]
    simp [hi]
  · by_cases hj : j = id
    · rw [hj, h.body.children, h.children_hollow]
      simp [hi]
    · rw [h.children_same hp hj]

theorem Folding.kept_fold : Kept [p, id] u f where
  size := Nat.le_of_eq h.size.symm
  content j _ hj := by
    rw [List.mem_cons, List.mem_singleton, not_or] at hj
    exact ⟨(h.content j hj.1 hj.2).1, (h.content j hj.1 hj.2).2, h.fold j hj.2⟩
  stands j _ hj := by
    have hjp : j ∉ u.children p := hj p (by simp)
    refine ⟨h.stands j hjp, h.fold j ?_⟩
    rintro rfl
    exact hjp (by simp [h.children_around])
  kids q hq i hi hlt := by
    refine ⟨p, by simp, ?_⟩
    rw [h.children_around]
    rcases hq with hq | hq
    · rcases List.mem_cons.1 hq with rfl | hq
      · rw [h.children_place] at hi
        simp only [List.mem_append, List.mem_cons] at hi ⊢
        tauto
      · rw [List.mem_singleton.1 hq, h.body.children] at hi
        simp [hi]
    · rw [Tree.children, node_eq_default (h.size ▸ hq)] at hi
      cases hi

theorem Folding.kept_unfold : Kept [p, id] f u where
  size := Nat.le_of_eq h.size
  content j hlt hj := by
    obtain ⟨h1, h2, h3⟩ := h.kept_fold.content j (h.size ▸ hlt) hj
    exact ⟨h1.symm, h2.symm, h3.symm⟩
  stands j hlt hj := by
    have hjp : j ∉ u.children p := by
      intro hm
      have h1 := hj p (by simp)
      have h2 := hj id (by simp)
      rw [h.children_place] at h1
      rw [h.body.children] at h2
      rw [h.children_around] at hm
      simp only [List.mem_append, List.mem_cons] at h1 hm
      tauto
    obtain ⟨h1, h2⟩ := h.kept_fold.stands j (h.size ▸ hlt) fun q hq => by
      rcases List.mem_cons.1 hq with rfl | hq
      · exact hjp
      · rw [List.mem_singleton.1 hq, h.children_hollow]
        exact List.not_mem_nil
    exact ⟨h1.symm, h2.symm⟩
  kids q hq i hi hlt := by
    rcases hq with hq | hq
    · rcases List.mem_cons.1 hq with rfl | hq
      · by_cases hb : i ∈ starts b
        · exact ⟨id, by simp, h.body.children ▸ hb⟩
        · exact ⟨q, by simp, (h.mem_children_iff hb).2 hi⟩
      · rw [List.mem_singleton.1 hq, h.children_hollow] at hi
        cases hi
    · rw [Tree.children, node_eq_default (h.size ▸ hq)] at hi
      cases hi

theorem Folding.isUnfolded {j : NodeId} (hj : j ≠ id) :
    (f.node j).isUnfolded = (u.node j).isUnfolded := Node.isUnfolded_congr (h.fold j hj)

/-! ### Folding back -/

/-- The body ranks below the node that comes between. -/
theorem Folding.ranked_fold (hu : Shaped u) : Ranked f.below := by
  obtain ⟨rank, hr⟩ := hu.ranked
  have hid : rank id < rank p := hr p id (List.mem_append_left _ (by simp [h.children_around]))
  refine ⟨fun x => if x = id then 2 * rank p else 2 * rank x + 1, fun q i hi => ?_⟩
  by_cases hq : q = id
  · subst hq
    -- whatever is below the node folded was below its parent or below the node itself
    have hlt : rank i < rank p := by
      rcases List.mem_append.1 hi with hi | hi
      · rw [h.body.children] at hi
        exact hr p i (List.mem_append_left _ (by simp [h.children_around, hi]))
      · rw [h.expanded] at hi
        exact Nat.lt_trans (hr q i (List.mem_append_right _ hi)) hid
    have hne : i ≠ q := by
      rintro rfl
      rcases List.mem_append.1 hi with hi | hi
      · exact h.body.irrefl (h.body.children ▸ hi)
      · exact hu.not_below_self i (List.mem_append_right _ (h.expanded i ▸ hi))
    simp only [if_pos, if_neg hne]
    omega
  · by_cases hi' : i = id
    · -- only its parent has the node below it
      have hqp : q = p := by
        rcases List.mem_append.1 hi with hi | hi
        · by_contra hqp
          rw [h.children_same hqp hq, hi'] at hi
          exact hqp (hu.parent_unique hi (by simp [h.children_around]))
        · rw [h.expanded, hi'] at hi
          exact hu.below_unique q p id (List.mem_append_right _ hi)
            (List.mem_append_left _ (by simp [h.children_around]))
      subst hqp
      simp only [if_pos hi', if_neg hq]
      omega
    · have hlt : rank i < rank q := by
        rcases List.mem_append.1 hi with hi | hi
        · refine hr q i (List.mem_append_left _ ?_)
          by_cases hqp : q = p
          · rw [hqp, h.children_place] at hi
            rw [hqp, h.children_around]
            simp only [List.mem_append, List.mem_cons] at hi ⊢
            tauto
          · rwa [h.children_same hqp hq] at hi
        · exact hr q i (List.mem_append_right _ (h.expanded q ▸ hi))
      simp only [if_neg hi', if_neg hq]
      omega

theorem Folding.shaped_fold (hu : Shaped u) : Shaped f := by
  refine hu.kept h.kept_fold (fun q hq hlt => ?_) (fun q hq hun => ?_) h.expanded
    (h.ranked_fold hu)
  · rcases hq with hq | hq
    · rcases List.mem_cons.1 hq with rfl | hq
      · exact ⟨_, h.place⟩
      · exact List.mem_singleton.1 hq ▸ ⟨_, h.body⟩
    · exact absurd hlt (Nat.not_lt.2 (h.size ▸ hq))
  · rcases hq with hq | hq
    · rcases List.mem_cons.1 hq with rfl | hq
      · rw [h.isUnfolded (Ne.symm h.ne)] at hun
        have := h.around.unique (hu.hollow q hun)
        simp [unfoldedCells] at this
      · rw [List.mem_singleton.1 hq, Node.isUnfolded, h.folded] at hun
        cases hun
    · rw [node_eq_default (h.size ▸ hq)] at hun
      cases hun

/-- The node folded back goes off the stack. -/
theorem Folding.stacked_fold (hu : Stacked u (id :: folds)) : Stacked f folds where
  nodup := (List.nodup_cons.1 hu.nodup).2
  unfolded i hi := by
    have hne : i ≠ id := fun e => (List.nodup_cons.1 hu.nodup).1 (e ▸ hi)
    rw [h.isUnfolded hne]
    exact hu.unfolded i (List.mem_cons_of_mem _ hi)
  listed q i hi hun := by
    have hne : i ≠ id := by
      rintro rfl
      exact Bool.noConfusion ((Node.isUnfolded_of_none h.folded).symm.trans hun)
    rw [h.isUnfolded hne] at hun
    have hlt : i < u.size := by
      rcases Nat.lt_or_ge i u.size with hlt | hge
      · exact hlt
      · rw [node_eq_default hge] at hun
        cases hun
    obtain ⟨s, hs⟩ := h.kept_fold.listed hi hlt
    exact List.mem_of_ne_of_mem hne (hu.listed s i hs hun)

/-! ### Unfolding -/

theorem Folding.ranked_unfold (hf : Shaped f) : Ranked u.below := by
  obtain ⟨rank, hr⟩ := hf.ranked
  have hid : rank id < rank p := hr p id (List.mem_append_left _ h.mem_children_place)
  refine ⟨rank, fun q i hi => ?_⟩
  rcases List.mem_append.1 hi with hi | hi
  · by_cases hb : i ∈ starts b
    · -- the body is listed at the parent now
      have hqp : q = p := by
        by_contra hqp
        by_cases hq : q = id
        · rw [hq, h.children_hollow] at hi
          cases hi
        · have h1 : i ∈ f.children q := h.children_same hqp hq ▸ hi
          exact hq (hf.parent_unique h1 (h.body.children ▸ hb))
      exact hqp ▸ Nat.lt_trans (hr id i (List.mem_append_left _ (h.body.children ▸ hb))) hid
    · exact hr q i (List.mem_append_left _ ((h.mem_children_iff hb).2 hi))
  · exact hr q i (List.mem_append_right _ (h.expanded q ▸ hi))

theorem Folding.shaped_unfold (hf : Shaped f) : Shaped u := by
  refine hf.kept h.kept_unfold (fun q hq hlt => ?_) (fun q hq hun => ?_)
    (fun j => (h.expanded j).symm) (h.ranked_unfold hf)
  · rcases hq with hq | hq
    · rcases List.mem_cons.1 hq with rfl | hq
      · exact ⟨_, h.around⟩
      · exact List.mem_singleton.1 hq ▸ ⟨_, h.hollow⟩
    · exact absurd hlt (Nat.not_lt.2 (h.size ▸ hq))
  · rcases hq with hq | hq
    · rcases List.mem_cons.1 hq with rfl | hq
      · rw [← h.isUnfolded (Ne.symm h.ne)] at hun
        have := h.place.unique (hf.hollow q hun)
        simp [foldedCells] at this
      · exact List.mem_singleton.1 hq ▸ h.hollow
    · rw [node_eq_default (h.size ▸ hq)] at hun
      cases hun

/-- The node unfolded goes on the stack. -/
theorem Folding.stacked_unfold (hf : Stacked f folds) : Stacked u (id :: folds) := by
  have hid : (u.node id).isUnfolded = true := Node.isUnfolded_of_some h.unfolded
  have hnot : id ∉ folds := fun hm =>
    Bool.noConfusion ((Node.isUnfolded_of_none h.folded).symm.trans (hf.unfolded id hm))
  refine ⟨List.nodup_cons.2 ⟨hnot, hf.nodup⟩, fun i hi => ?_, fun q i hi hun => ?_⟩
  · rcases List.mem_cons.1 hi with rfl | hi
    · exact hid
    · rw [← h.isUnfolded fun e => hnot (e ▸ hi)]
      exact hf.unfolded i hi
  · by_cases hne : i = id
    · exact hne ▸ List.mem_cons_self
    · rw [← h.isUnfolded hne] at hun
      have hlt : i < f.size := by
        rcases Nat.lt_or_ge i f.size with hlt | hge
        · exact hlt
        · rw [node_eq_default hge] at hun
          cases hun
      obtain ⟨s, hs⟩ := h.kept_unfold.listed hi hlt
      exact List.mem_cons_of_mem _ (hf.listed s i hs hun)

/-! ### Readings -/

/-- No other node stands for anything else. -/
theorem Folding.reading (hu : Shaped u) (hf : Shaped f) (hx : x < u.size) (hne : x ≠ id) :
    f.reading x = u.reading x := by
  suffices hr : ∀ j cs, Layout f j cs → Function.update u.reading id (fill u.reading b) j =
      fill (Function.update u.reading id (fill u.reading b)) cs by
    have := hf.reading_unique hr (h.size ▸ hx)
    rw [← this, Function.update_of_ne hne]
  intro j cs hl
  have hfill : ∀ {i o : Nat} {ds : Cells}, f.Fits i o ds → id ∉ starts ds →
      fill (Function.update u.reading id (fill u.reading b)) ds = fill u.reading ds :=
    fun hd hi => hd.fill_congr fun k hk _ =>
      Function.update_of_ne (fun e : k = id => hi (e ▸ hk)) _ _
  by_cases hj : j = id
  · subst hj
    rw [Function.update_self, hl.unique h.body, hfill h.body.fits h.body.irrefl]
  · rw [Function.update_of_ne hj]
    by_cases hjp : j = p
    · subst hjp
      obtain ⟨-, hac, -⟩ := h.around.unfolded_disjoint
      rw [starts_append, List.mem_append, not_or] at hac
      obtain ⟨hfa, hfc⟩ := fits_append.1 h.place.fits
      rw [hu.reading_eq h.around, hl.unique h.place, unfoldedCells, foldedCells]
      simp only [fill_append, fill_opening, fill_glyph, fill_closing, Function.update_self]
      rw [hfill hfa hac.1, hfill (fits_some.1 hfc).2 hac.2, List.append_assoc]
    · have hid : id ∉ starts cs := fun hm =>
        hjp (hf.parent_unique (hl.children ▸ hm) h.mem_children_place)
      rw [hfill hl.fits hid]
      refine hu.reading_eq (h.kept_unfold.layout hf hl ?_)
      simp [hj, hjp]

end

/-! ## Unfolding a node -/

theorem Layout.exists_folded {cs : Cells} (h : Layout t p cs) (hid : id ∈ t.children p)
    (hf : (t.node id).fold = none) :
    ∃ (a : Cells) (g : Char) (c : Cells), cs = a ++ ⟨g, some (.glyph id)⟩ :: c := by
  have hs := h.children ▸ hid
  rcases exists_of_mem_starts hs with ⟨a, g, c, he⟩ | ho
  · exact ⟨a, g, c, he⟩
  · exact Bool.noConfusion ((Node.isUnfolded_of_none hf).symm.trans (h.fits.isUnfolded ho))

theorem mem_children_of_isLive (h : t.isLive id = true) (hne : id ≠ root) :
    ∃ q, (t.node id).parent = some q ∧ id ∈ t.children q := by
  rw [isLive, isLiveWithin, if_neg hne] at h
  split at h
  · cases h
  · rename_i q hq
    exact ⟨q, hq, by simpa using (Bool.and_eq_true_iff.1 h).1⟩

theorem folds_unfoldAt (t : Tree) (id : NodeId) (pl : Place) (F : Fold) :
    (t.unfoldAt id pl F).folds = id :: t.folds := by
  unfold unfoldAt
  refine congrArg (id :: ·) (folds_of_aside ?_)
  simp

theorem Layout.slice_glyph (h : Layout t p (foldedCells id F a c)) :
    (t.node p).text.slice ⟨a.size, a.size + F.glyph.utf8Size⟩ = [F.glyph] := by
  have := Text.slice_middle a.text [F.glyph] c.text
  rw [h.text]
  simpa [foldedCells, Cells.size] using this

/-- A child that is not unfolded is hidden behind the glyph it stands on. -/
theorem Shaped.exists_hidden (hs : Shaped t) {q : NodeId} {pl : Place} {glyph : Char}
    (hid : id ∈ t.children q) (hf : (t.node id).fold = none) (hpl : (t.node id).place = some pl)
    (hg : ((t.node pl.parent).text.slice pl.span).head? = some glyph) (opening closing : Char) :
    ∃ a b c, Hidden t q id a b c ⟨glyph, opening, closing⟩ ∧
      pl = ⟨q, ⟨a.size, a.size + glyph.utf8Size⟩⟩ := by
  obtain ⟨cs, hl⟩ := hs.exists_layout hid
  obtain ⟨a, g, c, rfl⟩ := hl.exists_folded hid hf
  obtain ⟨b, hb⟩ := hs.layout id (hl.lt_size hid)
  have hplace := Layout.place_of_folded (F := ⟨g, opening, closing⟩) hl
  obtain rfl := Option.some.inj (hpl.symm.trans hplace)
  rw [Layout.slice_glyph (F := ⟨g, opening, closing⟩) hl] at hg
  obtain rfl := Option.some.inj hg
  -- the parent is not below its own child
  have hcycle : q ∉ starts b := fun hm =>
    hs.ranked.irrefl q (.tail (.single (List.mem_append_left _ hid))
      (List.mem_append_left _ (hb.children ▸ hm)))
  exact ⟨a, b, c, ⟨hl, hb, hcycle, hf⟩, rfl⟩

/-- A node that is unfolded was hidden below another one; all other calls change nothing. -/
theorem Shaped.unfold_cases (hs : Shaped t) (id : NodeId) (openLabel closeLabel : Text) :
    ((t.unfold id openLabel closeLabel).tree = t ∧
        (t.unfold id openLabel closeLabel).result ≠ .ok true) ∨
      (t.unfold id openLabel closeLabel).result = .ok true ∧ id ≠ Tree.root ∧
        ∃ p a b c F, Hidden t p id a b c F ∧ (t.unfold id openLabel closeLabel).tree =
          t.unfoldAt id ⟨p, ⟨a.size, a.size + F.glyph.utf8Size⟩⟩ F := by
  rw [unfold]
  split
  · exact .inl ⟨rfl, by simp [Outcome.failed]⟩
  · exact .inl ⟨rfl, by simp [Outcome.failed]⟩
  · exact .inl ⟨rfl, by simp [Outcome.failed]⟩
  · rename_i n opening closing hn _ _
    have hn : t.node id = n := by rw [node, ← node?, hn]; rfl
    subst hn
    split
    · exact .inl ⟨rfl, by simp [Outcome.done]⟩
    · rename_i pl hpl
      split
      · exact .inl ⟨rfl, by simp [Outcome.done]⟩
      · rename_i glyph hg
        split
        · exact .inl ⟨rfl, by simp [Outcome.done]⟩
        · rename_i hok
          simp only [not_or, Bool.not_eq_true', Bool.not_eq_false, Bool.not_eq_true] at hok
          obtain ⟨hroot, hlive, hun⟩ := hok
          obtain ⟨q, -, hid⟩ := mem_children_of_isLive hlive hroot
          obtain ⟨a, b, c, hh, rfl⟩ := hs.exists_hidden hid (Option.not_isSome_iff_eq_none.1
            (by simpa [Node.isUnfolded] using hun)) hpl hg opening closing
          exact .inr ⟨rfl, hroot, q, a, b, c, _, hh, rfl⟩

/-- A live node that is hidden can be unfolded. -/
theorem Shaped.unfold_live (hs : Shaped t) (hlive : t.isLive id = true) (hroot : id ≠ Tree.root)
    (hf : (t.node id).fold = none) {openLabel closeLabel : Text} {opening closing : Char}
    (ho : t.labels.glyph openLabel = .ok opening) (hc : t.labels.glyph closeLabel = .ok closing) :
    (t.unfold id openLabel closeLabel).result = .ok true := by
  obtain ⟨q, -, hid⟩ := mem_children_of_isLive hlive hroot
  obtain ⟨cs, hl⟩ := hs.exists_layout hid
  obtain ⟨a, g, c, rfl⟩ := hl.exists_folded hid hf
  have hn : t.node? id = some (t.node id) := by
    have := hl.lt_size hid
    rw [node?, node, Array.getElem?_eq_getElem this]
    rfl
  have hplace := Layout.place_of_folded (F := ⟨g, opening, closing⟩) hl
  have hslice := Layout.slice_glyph (F := ⟨g, opening, closing⟩) hl
  simp [unfold, hn, ho, hc, hplace, hslice, hroot, hlive, Node.isUnfolded, hf, Outcome.done]

theorem WellFormed.unfoldAt (hw : WellFormed t) (hh : Hidden t p id a b c F) :
    WellFormed (t.unfoldAt id ⟨p, ⟨a.size, a.size + F.glyph.utf8Size⟩⟩ F) := by
  refine ⟨hh.folding.shaped_unfold hw.shaped, ?_⟩
  rw [folds_unfoldAt]
  exact hh.folding.stacked_unfold hw.stacked

theorem WellFormed.faithful_unfold (hw : WellFormed t) (id : NodeId) (openLabel closeLabel : Text) :
    Faithful t (t.unfold id openLabel closeLabel).tree := by
  rcases hw.shaped.unfold_cases id openLabel closeLabel with
    ⟨he, -⟩ | ⟨-, hroot, p, a, b, c, F, hh, he⟩
  · rw [he]
    exact .refl hw
  · have hF := hh.folding
    have hu := hw.unfoldAt hh
    rw [he]
    exact ⟨hu, (hF.reading hu.shaped hw.shaped (hF.size ▸ hw.shaped.root) (Ne.symm hroot)).symm⟩

/-! ## Folding back all -/

/-- A run that folds nodes back, in the order of the list, and skips those that no list of children
holds. -/
inductive Folds : Tree → List NodeId → Tree → Prop where
  | done (t : Tree) : Folds t [] t
  | skip {t t' : Tree} {id : NodeId} {ids : List NodeId} :
    (∀ q, id ∉ t.children q) → Folds t ids t' → Folds t (id :: ids) t'
  | back {t t' : Tree} {p id : NodeId} {a b c : Cells} {F : Fold} {ids : List NodeId} :
    Folding t (t.foldedBack p id F a b c) p id a b c F →
    Folds (t.foldedBack p id F a b c) ids t' → Folds t (id :: ids) t'

theorem Layout.exists_unfolded {cs : Cells} (h : Layout t p cs) (hid : id ∈ t.children p)
    (hf : (t.node id).fold = some F) : ∃ a b c, cs = unfoldedCells id F a b c := by
  have ho := (h.fits.mem_openings (h.children ▸ hid)).2 (Node.isUnfolded_of_some hf)
  obtain ⟨a, o, b, e, c, rfl⟩ := h.nested.exists_region ho
  obtain ⟨hab, hec⟩ := fits_append.1 h.fits
  obtain ⟨⟨_, G, -, hG, rfl⟩, -⟩ := fits_some.1 (fits_append.1 hab).2
  obtain ⟨⟨_, H, -, hH, rfl⟩, -⟩ := fits_some.1 hec
  obtain rfl := Option.some.inj (hG.symm.trans hf)
  obtain rfl := Option.some.inj (hH.symm.trans hf)
  exact ⟨a, b, c, rfl⟩

theorem Layout.foldBack_eq (h : Layout t p (unfoldedCells id F a b c))
    (hf : (t.node id).fold = some F) :
    ∃ events, t.foldBack id = some (t.foldedBack p id F a b c, events) := by
  have hid : id ∈ t.children p := by
    rw [h.children]
    simp [unfoldedCells]
  rw [foldBack, hf, h.place_of_unfolded]
  dsimp only
  rw [if_pos (by simpa using hid), h.splice_foldCut_eq]
  exact ⟨_, rfl⟩

/-- An unfolded node is folded back where it is listed, and left alone if it is listed nowhere. -/
theorem Shaped.foldBack_cases (hs : Shaped t) (hun : (t.node id).isUnfolded = true) :
    (t.foldBack id = none ∧ ∀ q, id ∉ t.children q) ∨
      ∃ events p a b c F, Layout t p (unfoldedCells id F a b c) ∧ (t.node id).fold = some F ∧
        t.foldBack id = some (t.foldedBack p id F a b c, events) := by
  obtain ⟨F, hf⟩ := Option.isSome_iff_exists.1 hun
  by_cases hlisted : ∃ q, id ∈ t.children q
  · obtain ⟨q, hq⟩ := hlisted
    obtain ⟨cs, hl⟩ := hs.exists_layout hq
    obtain ⟨a, b, c, rfl⟩ := hl.exists_unfolded hq hf
    obtain ⟨events, he⟩ := hl.foldBack_eq hf
    exact .inr ⟨events, q, a, b, c, F, hl, hf, he⟩
  · rw [not_exists] at hlisted
    refine .inl ⟨?_, hlisted⟩
    rw [foldBack, hf]
    cases (t.node id).place with
    | none => rfl
    | some pl => exact if_neg (by simpa using hlisted pl.parent)

/-- A node that no list of children holds may go off the stack. -/
theorem Stacked.skip (h : Stacked t (id :: folds)) (hid : ∀ q, id ∉ t.children q) :
    Stacked t folds where
  nodup := (List.nodup_cons.1 h.nodup).2
  unfolded i hi := h.unfolded i (List.mem_cons_of_mem _ hi)
  listed q i hi hun :=
    List.mem_of_ne_of_mem (fun e : i = id => hid q (e ▸ hi)) (h.listed q i hi hun)

theorem Shaped.folds_foldEach (hs : Shaped t) (hst : Stacked t folds) :
    Folds t folds (foldEach folds t).tree ∧ (foldEach folds t).tree.folds = t.folds := by
  induction folds generalizing t with
  | nil => exact ⟨.done t, rfl⟩
  | cons id ids ih =>
    rcases hs.foldBack_cases (hst.unfolded id List.mem_cons_self) with
      ⟨he, hid⟩ | ⟨events, p, a, b, c, F, hl, hf, he⟩
    · obtain ⟨h1, h2⟩ := ih hs (hst.skip hid)
      simp only [foldEach, he]
      exact ⟨.skip hid h1, h2⟩
    · have hF := hl.folding_foldBack (hs.hollow id (Node.isUnfolded_of_some hf)) hf
      obtain ⟨h1, h2⟩ := ih (hF.shaped_fold hs) (hF.stacked_fold hst)
      simp only [foldEach, he]
      exact ⟨.back hF h1, h2.trans
        (folds_of_aside (aside_of_stripped (stripped_foldedBack t p id F a b c)))⟩

theorem foldEach_ok (ids : List NodeId) (t : Tree) : ∃ n, (foldEach ids t).result = .ok n := by
  induction ids generalizing t with
  | nil => exact ⟨0, rfl⟩
  | cons id ids ih =>
    rw [foldEach]
    split
    · exact ih t
    · rename_i s _ _
      obtain ⟨n, hn⟩ := ih s
      exact ⟨n + 1, by simp [Outcome.map, hn, Except.map]⟩

section
variable {t' : Tree} (h : Folds t folds t')
include h

theorem Folds.size : t'.size = t.size := by
  induction h with
  | done => rfl
  | skip _ _ ih => exact ih
  | back hF _ ih => exact ih.trans hF.size

theorem Folds.shaped (hs : Shaped t) : Shaped t' := by
  induction h with
  | done => exact hs
  | skip _ _ ih => exact ih hs
  | back hF _ ih => exact ih (hF.shaped_fold hs)

/-- Afterwards no unfolded node is in a list of children. -/
theorem Folds.stacked (hst : Stacked t folds) : Stacked t' [] := by
  induction h with
  | done => exact hst
  | skip hid _ ih => exact ih (hst.skip hid)
  | back hF _ ih => exact ih (hF.stacked_fold hst)

theorem Folds.reading (hs : Shaped t) (hx : x < t.size) (hne : x ∈ folds → x = root) :
    t'.reading x = t.reading x := by
  induction h with
  | done => rfl
  | skip _ _ ih => exact ih hs hx fun hm => hne (List.mem_cons_of_mem _ hm)
  | @back t t' p id a b c F ids hF _ ih =>
    have hs' := hF.shaped_fold hs
    have hxid : x ≠ id := by
      rintro rfl
      refine hs'.root_not_below (p := p) (List.mem_append_left _ ?_)
      exact hne List.mem_cons_self ▸ hF.mem_children_place
    rw [ih hs' (hF.size ▸ hx) fun hm => hne (List.mem_cons_of_mem _ hm),
      hF.reading hs hs' hx hxid]

end

theorem alike_folds (t : Tree) (folds : List NodeId) : Alike t { t with folds } :=
  ⟨rfl, fun _ => ⟨_, _, rfl⟩⟩

/-- Folding back all is a run over the whole stack, which leaves it empty. -/
theorem WellFormed.folds_foldAll (hw : WellFormed t) :
    Folds { t with folds := [] } t.folds t.foldAll.tree ∧ t.foldAll.tree.folds = [] :=
  (hw.shaped.alike (alike_folds t [])).folds_foldEach (hw.stacked.alike (alike_folds t []))

theorem WellFormed.faithful_foldAll (hw : WellFormed t) : Faithful t t.foldAll.tree := by
  obtain ⟨hf, hnil⟩ := hw.folds_foldAll
  have ha := alike_folds t []
  have hs := hw.shaped.alike ha
  refine ⟨⟨hf.shaped hs, hnil ▸ hf.stacked (hw.stacked.alike ha)⟩, ?_⟩
  rw [hf.reading hs hs.root fun _ => rfl, ha.reading hw.shaped hw.shaped.root]

end GlyphTree.Tree
