import GlyphTree.Proofs.FreshNodes
import GlyphTree.Proofs.GroupTables
import GlyphTree.View.Snapshot

/-!
# Glyphs

A hidden node shows its glyph in the text of its parent; an unfolded one keeps it in its fold
(`Shows`). No command gives a node another glyph: what a node shows afterwards it has shown before,
if it was there (`Recalls`).
-/

namespace GlyphTree.Tree

open Cells Patch Region

variable {t t' u : Tree} {p q x id : NodeId} {g : Char} {F : Fold} {a b c cs z : Cells}
  {S folds : List NodeId} {rs : List Region}

/-- A node that is listed somewhere shows a glyph: it is hidden behind it, or will be when it is
folded back. -/
inductive Shows (t : Tree) (x : NodeId) (g : Char) : Prop
  | hidden {p : NodeId} {cs : Cells} : Layout t p cs → ⟨g, some (.glyph x)⟩ ∈ cs → Shows t x g
  | unfolded {p : NodeId} {F : Fold} :
    x ∈ t.children p → (t.node x).fold = some F → F.glyph = g → Shows t x g

/-- No node is lost, and what an old node shows it has shown before. -/
structure Recalls (t t' : Tree) : Prop where
  size : t.size ≤ t'.size
  shows : ∀ {x g}, x < t.size → t'.Shows x g → t.Shows x g

theorem Recalls.refl (t : Tree) : Recalls t t := ⟨Nat.le_refl _, fun _ h => h⟩

theorem Recalls.trans (h : Recalls t u) (h' : Recalls u t') : Recalls t t' where
  size := Nat.le_trans h.size h'.size
  shows hx hg := h.shows hx (h'.shows (Nat.lt_of_lt_of_le hx h.size) hg)

/-! ## What is shown -/

theorem mem_starts_of_glyph (h : (⟨g, some (.glyph x)⟩ : Cell) ∈ cs) : x ∈ starts cs :=
  List.mem_filterMap.2 ⟨_, h, rfl⟩

/-- A node hidden behind a glyph stands on it. -/
theorem Layout.glyph_place (hl : Layout t p cs) (h : (⟨g, some (.glyph x)⟩ : Cell) ∈ cs) :
    (t.node x).fold = none ∧ ∃ s, (t.node x).place = some ⟨p, s⟩ ∧
      (t.node p).text.slice? s = some [g] := by
  obtain ⟨a, c, rfl⟩ : ∃ a c : Cells, cs = a ++ ⟨g, some (.glyph x)⟩ :: c := List.append_of_mem h
  obtain ⟨⟨hplace, hfold⟩, -⟩ := fits_some.1 (fits_append.1 hl.fits).2
  refine ⟨hfold, _, hplace, ?_⟩
  have hslice := Text.slice?_append a.text [g] c.text
  rw [hl.text]
  simpa [Cells.size] using hslice

theorem Shows.listed (h : t.Shows x g) : ∃ q, x ∈ t.children q := by
  cases h with
  | hidden hl hm => exact ⟨_, hl.children ▸ mem_starts_of_glyph hm⟩
  | unfolded hx => exact ⟨_, hx⟩

/-- A listed node shows a glyph. -/
theorem Shaped.exists_shows (hs : Shaped t) (hx : x ∈ t.children q) : ∃ g, t.Shows x g := by
  cases hf : (t.node x).fold with
  | some F => exact ⟨_, .unfolded hx hf rfl⟩
  | none =>
    obtain ⟨cs, hl⟩ := hs.exists_layout hx
    obtain ⟨a, g, c, rfl⟩ := hl.exists_folded hx hf
    exact ⟨g, .hidden hl (List.mem_append_right _ List.mem_cons_self)⟩

/-- The glyph that a node shows is in its fold, or it is all there is at the place of the node. -/
theorem Shows.cases (h : t.Shows x g) : (∃ F, (t.node x).fold = some F ∧ F.glyph = g) ∨
    (t.node x).fold = none ∧ ∃ p s, (t.node x).place = some ⟨p, s⟩ ∧
      (t.node p).text.slice? s = some [g] := by
  cases h with
  | hidden hl hm =>
    obtain ⟨hf, s, hplace, hslice⟩ := hl.glyph_place hm
    exact .inr ⟨hf, _, s, hplace, hslice⟩
  | unfolded _ hf hg => exact .inl ⟨_, hf, hg⟩

theorem Shows.glyphOf (h : t.Shows x g) : t.glyphOf (t.node x) = some g := by
  rw [Tree.glyphOf]
  cases h with
  | @hidden p cs hl hm =>
    obtain ⟨hf, s, hplace, hslice⟩ := hl.glyph_place hm
    rw [hf, hplace]
    dsimp only
    rw [node?_eq hl.lt, Option.bind_some, hslice]
    rfl
  | unfolded _ hf hg =>
    rw [hf]
    exact congrArg some hg

/-! ## Single changes -/

/-- Of a change of some nodes only those and the fresh nodes have to be looked at. -/
theorem Shaped.recalls (hs : Shaped t) (k : Kept S t t')
    (hcells : ∀ {q cs x g}, q ∈ S ∨ t.size ≤ q → Layout t' q cs →
      (⟨g, some (.glyph x)⟩ : Cell) ∈ cs → x < t.size → t.Shows x g)
    (hfold : ∀ {x F}, x < t.size → (t'.node x).fold = some F →
      (t.node x).fold = some F ∨ t.Shows x F.glyph) : Recalls t t' where
  size := k.size
  shows {x g} hx h := by
    cases h with
    | @hidden p cs hl hm =>
      by_cases hp : p ∈ S ∨ t.size ≤ p
      · exact hcells hp hl hm hx
      · rw [not_or] at hp
        obtain ⟨ds, hds⟩ := hs.layout p (Nat.not_le.1 hp.2)
        obtain rfl := hl.unique (k.layout hs hds hp.1)
        exact .hidden hds hm
    | unfolded hq hF hg =>
      obtain ⟨s, hs⟩ := k.listed hq hx
      rcases hfold hx hF with hF | hshow
      · exact .unfolded hs hF hg
      · exact hg ▸ hshow

/-- Cells in which glyphs stand only where they stood show nothing new. -/
theorem Shaped.recalls_of_cells (hs : Shaped t) (k : Kept S t t')
    (hcells : ∀ {q cs x g}, q ∈ S ∨ t.size ≤ q → Layout t' q cs →
      (⟨g, some (.glyph x)⟩ : Cell) ∈ cs → x < t.size →
        ∃ p ds, Layout t p ds ∧ (⟨g, some (.glyph x)⟩ : Cell) ∈ ds)
    (hfold : ∀ {x}, x < t.size → (t'.node x).fold = (t.node x).fold) : Recalls t t' :=
  hs.recalls k (fun hq hl hm hx => by
    obtain ⟨p, ds, hds, hm⟩ := hcells hq hl hm hx
    exact .hidden hds hm) fun hx hF => .inl ((hfold hx).symm.trans hF)

theorem Alike.recalls (h : Alike t t') (hs : Shaped t) : Recalls t t' :=
  hs.recalls_of_cells h.kept (fun hq hl => absurd hl.lt
    (Nat.not_lt.2 (h.size ▸ hq.resolve_left List.not_mem_nil))) fun _ => h.fold _

theorem Shaped.recalls_beside (hs : Shaped t) (hn : t'.nodes = t.nodes) : Recalls t t' := by
  have hnode : ∀ x, t'.node x = t.node x := fun x => by rw [node, hn]; rfl
  exact Alike.recalls ⟨by rw [size, hn]; rfl, fun x => ⟨_, _, hnode x⟩⟩ hs

theorem not_mem_plain {text : Text} : (⟨g, some (.glyph x)⟩ : Cell) ∉ plain text := by
  simp [plain]

theorem Shaped.recalls_detached (hs : Shaped t) (text : Text) : Recalls t (t.detached text).2 := by
  have hk := kept_detached t text
  refine hs.recalls_of_cells hk (fun hq hl hm hx => ?_) fun hx => ?_
  · -- the fresh node has no children
    obtain ⟨s, hs, -⟩ := hk.kids _ hq _ (hl.children ▸ mem_starts_of_glyph hm) hx
    cases hs
  · rw [detached, node_alloc_of_ne (Nat.ne_of_lt hx)]

/-! ### Hiding -/

/-- Where a glyph stands among cells with the glyphs of fresh nodes. -/
theorem mem_marked {n : NodeId} (h : (⟨g, some (.glyph x)⟩ : Cell) ∈ marked n rs z) :
    (⟨g, some (.glyph x)⟩ : Cell) ∈ cells rs z ∨ n ≤ x ∧ ∃ r ∈ rs, r.glyph = g := by
  induction rs generalizing n with
  | nil => exact .inl h
  | cons r rs ih =>
    rw [marked, List.mem_append, List.mem_cons] at h
    rw [cells_cons, List.mem_append, List.mem_append]
    rcases h with h | h | h
    · exact .inl (.inl (.inl h))
    · obtain ⟨hg, hm⟩ := Cell.mk.inj h
      obtain rfl := CellMark.glyph.inj (Option.some.inj hm)
      exact .inr ⟨Nat.le_refl _, r, List.mem_cons_self, hg.symm⟩
    · rcases ih h with h | ⟨hn, r', hr', hg⟩
      · exact .inl (.inr h)
      · exact .inr ⟨Nat.le_of_succ_le hn, r', List.mem_cons_of_mem _ hr', hg⟩

theorem map_glyph_cuts (o : Nat) (rs : List Region) :
    (cuts o rs).map Cut.glyph = rs.map Region.glyph := by
  induction rs generalizing o with
  | nil => rfl
  | cons r rs ih => rw [cuts, List.map_cons, List.map_cons, ih]

theorem mem_cells_of_gone {r : Region} {c : Cell} (hr : r ∈ rs) (hc : c ∈ r.gone) :
    c ∈ cells rs z := by
  obtain ⟨a, b, -, -, he, -⟩ := exists_cut (o := 0) z hr
  rw [he]
  exact List.mem_append_left _ (List.mem_append_right _ hc)

section
variable (s : Spliced t t' p rs z) (h : Layout t p (cells rs z))
include s h

theorem Spliced.fold_eq (hx : x < t.size) : (t'.node x).fold = (t.node x).fold := by
  by_cases hxp : x = p
  · rw [hxp, s.parent]
    rfl
  · exact (s.content h hx hxp).2.2.2

/-- A glyph in the text that was cut, or in that of a fresh node, stood in the text before, or it is
that of a region and stands for a fresh node. -/
theorem Spliced.glyph_cases (hq : q ∈ [p] ∨ t.size ≤ q) (hl : Layout t' q cs)
    (hm : (⟨g, some (.glyph x)⟩ : Cell) ∈ cs) :
    (⟨g, some (.glyph x)⟩ : Cell) ∈ cells rs z ∨ t.size ≤ x ∧ ∃ r ∈ rs, r.glyph = g := by
  rcases hq with hq | hq
  · obtain rfl := List.mem_singleton.1 hq
    obtain rfl := hl.unique s.layout
    exact mem_marked hm
  · obtain ⟨r, hr, sub, ht⟩ := s.fresh hq hl.lt
    obtain rfl := hl.unique ht.layout
    exact .inl (mem_cells_of_gone hr hm)

theorem Spliced.recalls (hs : Shaped t) : Recalls t t' :=
  hs.recalls_of_cells (s.kept h) (fun hq hl hm hx => ⟨p, _, h,
    (s.glyph_cases h hq hl hm).resolve_right fun hfresh => Nat.not_le.2 hx hfresh.1⟩)
    (s.fold_eq h)

/-- A fresh node shows the glyph of a region. -/
theorem Spliced.glyph_fresh (hs : Shaped t) (hx : t.size ≤ x) (hg : t'.Shows x g) :
    ∃ r ∈ rs, r.glyph = g := by
  have hold : ∀ {q}, x ∉ t.children q := fun hq =>
    Nat.not_lt.2 hx (hs.below_lt _ _ (List.mem_append_left _ hq)).2
  cases hg with
  | @hidden q cs hl hm =>
    by_cases hq : q ∈ [p] ∨ t.size ≤ q
    · rcases s.glyph_cases h hq hl hm with hm | ⟨-, hr⟩
      · exact absurd (h.children ▸ mem_starts_of_glyph hm) hold
      · exact hr
    · rw [not_or, List.mem_singleton] at hq
      have hkids := (s.content h (Nat.not_le.1 hq.2) hq.1).2.1
      exact absurd (hkids ▸ hl.children ▸ mem_starts_of_glyph hm) hold
  | unfolded hq hF =>
    have hu := s.isUnfolded h x
    rw [Node.isUnfolded_of_some hF, node_eq_default hx] at hu
    cases hu

end

/-- What the fresh nodes of a plan show are glyphs of its cuts. -/
theorem WellFormed.applyPlan_glyphs {plan : Plan} (hw : WellFormed t) (hp : Feasible t plan) :
    Recalls t (t.applyPlan plan) ∧ ∀ x g, t.size ≤ x → (t.applyPlan plan).Shows x g →
      ∃ y ∈ plan, ∃ cut ∈ y.2, cut.glyph = g := by
  refine (hw.applyPlan_induct (P := fun rest u => (∀ y ∈ rest, y ∈ plan) ∧ Recalls t u ∧
    ∀ x g, t.size ≤ x → u.Shows x g → ∃ y ∈ plan, ∃ cut ∈ y.2, cut.glyph = g) hp.nodup hp.fitting
    ?_ ?_ ⟨fun _ hy => hy, .refl t, ?_⟩).2
  · exact fun h => ⟨(List.forall_mem_cons.1 h.1).2, h.2⟩
  · rintro u p l rest rs z ⟨hrest, hr, hg⟩ hu hl rfl - - hs -
    obtain ⟨hp, hrest⟩ := List.forall_mem_cons.1 hrest
    refine ⟨hrest, hr.trans (hs.recalls hl hu.shaped), fun x g hx hshow => ?_⟩
    rcases Nat.lt_or_ge x u.size with hlt | hge
    · exact hg x g hx ((hs.recalls hl hu.shaped).shows hlt hshow)
    · obtain ⟨r, hr, rfl⟩ := hs.glyph_fresh hl hu.shaped hge hshow
      have hmem := List.mem_map_of_mem (f := Region.glyph) hr
      rw [← map_glyph_cuts 0] at hmem
      obtain ⟨cut, hcut, he⟩ := List.mem_map.1 hmem
      exact ⟨_, hp, cut, hcut, he⟩
  · intro x g hx hshow
    obtain ⟨q, hq⟩ := hshow.listed
    exact absurd (hw.shaped.below_lt q x (List.mem_append_left _ hq)).2 (Nat.not_lt.2 hx)

/-! ### Folding and unfolding -/

section
variable {u f : Tree} (h : Folding u f p id a b c F)
include h

/-- A node that is folded back goes behind the glyph it has kept. -/
theorem Folding.recalls_fold (hu : Shaped u) : Recalls u f := by
  have hid : id ∈ u.children p := by
    rw [h.children_around]
    simp
  refine hu.recalls h.kept_fold (fun {q cs x g} hq hl hm hx => ?_) fun {x F'} hx hF => ?_
  · rcases hq with hq | hq
    · rcases List.mem_cons.1 hq with rfl | hq
      · obtain rfl := hl.unique h.place
        rcases List.mem_append.1 hm with hm | hm
        · exact .hidden h.around (by simp [unfoldedCells, hm])
        · rcases List.mem_cons.1 hm with hm | hm
          · obtain ⟨rfl, hmark⟩ := Cell.mk.inj hm
            obtain rfl := CellMark.glyph.inj (Option.some.inj hmark)
            exact .unfolded hid h.unfolded rfl
          · exact .hidden h.around (by simp [unfoldedCells, hm])
      · obtain rfl := List.mem_singleton.1 hq
        obtain rfl := hl.unique h.body
        exact .hidden h.around (by simp [unfoldedCells, hm])
    · exact absurd hl.lt (Nat.not_lt.2 (h.size ▸ hq))
  · by_cases hne : x = id
    · rw [hne, h.folded] at hF
      cases hF
    · exact .inl ((h.fold x hne).symm.trans hF)

/-- A node that is unfolded keeps the glyph it was hidden behind. -/
theorem Folding.recalls_unfold (hf : Shaped f) : Recalls f u := by
  have hshow : f.Shows id F.glyph := .hidden h.place (by simp [foldedCells])
  refine hf.recalls h.kept_unfold (fun {q cs x g} hq hl hm hx => ?_) fun {x F'} hx hF => ?_
  · rcases hq with hq | hq
    · rcases List.mem_cons.1 hq with rfl | hq
      · obtain rfl := hl.unique h.around
        simp only [unfoldedCells, List.mem_append, List.mem_cons, Cell.mk.injEq, Option.some.injEq,
          reduceCtorEq, and_false, false_or] at hm
        rcases hm with (hm | hm) | hm
        · exact .hidden h.place (by simp [foldedCells, hm])
        · exact .hidden h.body hm
        · exact .hidden h.place (by simp [foldedCells, hm])
      · obtain rfl := List.mem_singleton.1 hq
        obtain rfl := hl.unique h.hollow
        cases hm
    · exact absurd hl.lt (Nat.not_lt.2 (h.size ▸ hq))
  · by_cases hne : x = id
    · subst hne
      obtain rfl := Option.some.inj (h.unfolded.symm.trans hF)
      exact .inr hshow
    · exact .inl ((h.fold x hne).trans hF)

end

theorem Folds.recalls (h : Folds t folds t') (hs : Shaped t) : Recalls t t' := by
  induction h with
  | done => exact .refl _
  | skip _ _ ih => exact ih hs
  | back hF _ ih => exact (hF.recalls_fold hs).trans (ih (hF.shaped_fold hs))

theorem WellFormed.recalls_foldAll (hw : WellFormed t) : Recalls t t.foldAll.tree :=
  have hr : Recalls t { t with folds := [] } := hw.shaped.recalls_beside rfl
  hr.trans (hw.folds_foldAll.1.recalls (hw.shaped.alike (alike_folds t [])))

theorem Shaped.recalls_unfold (hs : Shaped t) (id : NodeId) (openLabel closeLabel : Text) :
    Recalls t (t.unfold id openLabel closeLabel).tree := by
  rcases hs.unfold_cases id openLabel closeLabel with ⟨he, -⟩ | ⟨-, -, p, a, b, c, F, hh, he⟩
  · rw [he]
    exact .refl t
  · rw [he]
    exact hh.folding.recalls_unfold hs

/-- A node whose children are expanded shows nothing any more. -/
theorem Layout.recalls_expandChildren (hl : Layout t q cs) (hs : Shaped t)
    (hf : ∀ c ∈ t.children q, (t.node c).fold = none) : Recalls t (t.expandChildren q) := by
  have he := hl.expanded hf
  refine hs.recalls_of_cells he.kept (fun hq hl' hm hx => ?_) fun {x} _ => ?_
  · have hmem := mem_starts_of_glyph hm
    rw [← hl'.children] at hmem
    rcases hq with hq | hq
    · rw [List.mem_singleton.1 hq, he.children] at hmem
      cases hmem
    · exact absurd hl'.lt (Nat.not_lt.2 (he.size ▸ hq))
  · by_cases hxq : x = q
    · rw [hxq, he.fold]
    · rw [he.other x hxq]

theorem WellFormed.recalls_unhideAll (hw : WellFormed t) : Recalls t t.unhideAll.tree := by
  have hf := hw.faithful_foldAll.wellFormed
  have hst := hw.folds_foldAll.2 ▸ hf.stacked
  rw [unhideAll_tree]
  exact hf.shaped.expand_induct (P := Recalls t) hst
    (fun hr hs _ hl hc => hr.trans (hl.recalls_expandChildren hs fun c hm => (hc c hm).1))
    hw.recalls_foldAll

/-! ### Edits and moves of content -/

theorem mem_before_of_after {ps : List Patch} (hlit : ∀ y ∈ ps, y.Literal)
    (h : (⟨g, some (.glyph x)⟩ : Cell) ∈ Patch.after ps z) :
    (⟨g, some (.glyph x)⟩ : Cell) ∈ before ps z := by
  induction ps with
  | nil => exact h
  | cons y ps ih =>
    obtain ⟨hy, hlit⟩ := List.forall_mem_cons.1 hlit
    rw [Patch.after, List.mem_append, List.mem_append] at h
    rw [before, List.mem_append, List.mem_append]
    rcases h with (h | h) | h
    · exact .inl (.inl h)
    · rw [hy.new] at h
      exact absurd h not_mem_plain
    · exact .inr (ih hlit h)

theorem Layout.recalls_edit {ps : List Patch} (hl : Layout t q (before ps z)) (hs : Shaped t)
    (hps : ps ≠ []) (hlit : ∀ y ∈ ps, y.Literal) : Recalls t (t.rewrite q (edits 0 ps)) := by
  refine hs.recalls_of_cells (hl.kept_edit hps) (fun hq hl' hm hx => ?_) fun _ =>
    (hl.content_edit hps _).1
  rcases hq with hq | hq
  · obtain rfl := List.mem_singleton.1 hq
    obtain rfl := hl'.unique (hl.edit_literal hps hlit)
    exact ⟨_, _, hl, mem_before_of_after hlit hm⟩
  · exact absurd hl'.lt (Nat.not_lt.2 (size_rewrite t q _ ▸ hq))

theorem WellFormed.recalls_replaceEach {ids : List NodeId} (hw : WellFormed t)
    (hids : ∀ x ∈ ids, x < t.size) {old : Text} (hold : old ≠ []) (new : Text) :
    Recalls t (Tree.replaceEach old new ids t).2 := by
  induction ids generalizing t with
  | nil => exact .refl t
  | cons x ids ih =>
    obtain ⟨hx, hids⟩ := List.forall_mem_cons.1 hids
    have hw' := hw.rewrite_replacingEdits hx hold new
    have hrest := ih hw' fun y hy => by
      rw [size_rewrite]
      exact hids y hy
    refine Recalls.trans ?_ hrest
    obtain ⟨ps, z, hl, he, hlit⟩ := hw.shaped.exists_replacing hx hold new
    rw [← he]
    by_cases hps : ps = []
    · subst hps
      exact .refl t
    · exact hl.recalls_edit hw.shaped hps hlit

theorem WellFormed.recalls_replaceAll (hw : WellFormed t) (old new target : Text) :
    Recalls t (t.replaceAll old new target).tree := by
  unfold Tree.replaceAll
  split
  · exact .refl t
  · rename_i hold
    exact hw.recalls_replaceEach (fun x hx => hw.shaped.mem_targets hx) (by simpa using hold) new

/-- Glyphs go with the text they stand in. -/
theorem Shaped.recalls_replaceContent {target source : NodeId} (hs : Shaped t)
    (hs' : Shaped (t.replaceContent target source)) (htarget : target < t.size)
    (hsource : source < t.size) : Recalls t (t.replaceContent target source) := by
  by_cases hne : target = source
  · rw [Tree.replaceContent, if_pos hne]
    exact .refl t
  obtain ⟨cs, hl⟩ := hs.layout source hsource
  have hkids := fun j => Tree.children_replaceContent hne htarget hl j
  have hself : target ∉ t.children source := fun hm => hs'.not_below_self target
    (List.mem_append_left _ (by rw [(hkids target).1, if_pos rfl]; exact hm))
  refine hs.recalls_of_cells (kept_replaceContent hne htarget hl) (fun hq hl' hm hx => ?_)
    fun _ => (hkids _).2.2
  rcases hq with hq | hq
  · rcases List.mem_cons.1 hq with rfl | hq
    · obtain rfl := hl'.unique (layout_replaceContent_target hne htarget hl hself)
      exact ⟨_, _, hl, hm⟩
    · obtain rfl := List.mem_singleton.1 hq
      obtain rfl := hl'.unique (layout_replaceContent_source hne htarget hl)
      exact absurd hm not_mem_plain
  · exact absurd hl'.lt (Nat.not_lt.2 ((size_replaceContent hne).symm ▸ hq))

theorem WellFormed.recalls_swap {a b : NodeId} (hw : WellFormed t)
    (ha : t.Admits (.swap a b)) : Recalls t (t.swap a b).tree := by
  by_cases hla : a < t.size
  · by_cases hlb : b < t.size
    · obtain ⟨hw₁, hw₂, hw₃⟩ := hw.swap_stages hla hlb ha.1 ha.2.1 ha.2.2
      have hw₀ := (hw.faithful_detached []).wellFormed
      have hsize₀ : (t.detached []).2.size = t.size + 1 := size_alloc t _
      have h₀ : Recalls t (t.detached []).2 := hw.shaped.recalls_detached []
      have h₁ := hw₀.shaped.recalls_replaceContent hw₁.shaped (hsize₀ ▸ Nat.lt_succ_self _)
        (Nat.lt_of_lt_of_le hla h₀.size)
      have hle₁ := h₀.trans h₁
      have h₂ := hw₁.shaped.recalls_replaceContent hw₂.shaped (Nat.lt_of_lt_of_le hla hle₁.size)
        (Nat.lt_of_lt_of_le hlb hle₁.size)
      have hle₂ := hle₁.trans h₂
      have h₃ := hw₂.shaped.recalls_replaceContent hw₃.shaped (Nat.lt_of_lt_of_le hlb hle₂.size)
        (Nat.lt_of_lt_of_le (hsize₀ ▸ Nat.lt_succ_self _) (h₁.trans h₂).size)
      rw [swap_tree hla hlb]
      exact hle₂.trans h₃
    · rw [Tree.swap, if_pos hla, if_neg hlb]
      exact .refl t
  · rw [Tree.swap, if_neg hla]
    exact .refl t

theorem WellFormed.recalls_replaceNode {target source : NodeId} (hw : WellFormed t)
    (ha : t.Admits (.replaceNode target source)) : Recalls t (t.replaceNode target source).tree := by
  have hs := (hw.replaceNode ha.1 ha.2.1 ha.2.2).shaped
  unfold Tree.replaceNode at hs ⊢
  split at hs
  · rename_i hsource
    rw [if_pos hsource]
    split at hs
    · rename_i htarget
      rw [if_pos htarget]
      exact hw.shaped.recalls_replaceContent hs htarget hsource
    · rename_i htarget
      rw [if_neg htarget]
      exact .refl t
  · rename_i hsource
    rw [if_neg hsource]
    exact .refl t

/-! ## Histories -/

/-- No operation gives a node another glyph. -/
theorem invariant_recalls (t₀ : Tree) : Invariant fun t => WellFormed t ∧ Recalls t₀ t where
  beside h hn hf := ⟨invariant_wellFormed.beside h.1 hn hf, h.2.trans (h.1.shaped.recalls_beside hn)⟩
  rename id name h := ⟨invariant_wellFormed.rename id name h.1,
    h.2.trans ((alike_rename _ id name).recalls h.1.shaped)⟩
  hideMatches {t name pattern label target} h hs := by
    have hf := h.1.shaped.feasible_planOf (c := .hideAll name pattern label target) hs
    refine ⟨invariant_wellFormed.hideMatches h.1 hs, ?_⟩
    rw [hideMatches_tree]
    exact h.2.trans (h.1.applyPlan_glyphs hf).1
  hideGroup {t name label group scope source} h hs := by
    have hf := h.1.shaped.feasible_planOf (c := .hideGroup name label group scope source) hs
    refine ⟨invariant_wellFormed.hideGroup h.1 hs, ?_⟩
    rw [hideGroup_tree]
    exact h.2.trans (h.1.applyPlan_glyphs hf).1
  hideRest {t} name label target h := by
    have hf := h.1.shaped.feasible_planOf (c := .hideRest name label target) trivial
    refine ⟨invariant_wellFormed.hideRest name label target h.1, ?_⟩
    rw [hideRest_tree]
    exact h.2.trans (h.1.applyPlan_glyphs hf).1
  unfold id openLabel closeLabel h := ⟨invariant_wellFormed.unfold id openLabel closeLabel h.1,
    h.2.trans (h.1.shaped.recalls_unfold id openLabel closeLabel)⟩
  foldAll h := ⟨invariant_wellFormed.foldAll h.1, h.2.trans h.1.recalls_foldAll⟩
  unhideAll h := ⟨invariant_wellFormed.unhideAll h.1, h.2.trans h.1.recalls_unhideAll⟩
  replaceAll old new target h := ⟨invariant_wellFormed.replaceAll old new target h.1,
    h.2.trans (h.1.recalls_replaceAll old new target)⟩
  replaceNode h ha := ⟨invariant_wellFormed.replaceNode h.1 ha, h.2.trans (h.1.recalls_replaceNode ha)⟩
  swap h ha := ⟨invariant_wellFormed.swap h.1 ha, h.2.trans (h.1.recalls_swap ha)⟩
  detached text h := ⟨invariant_wellFormed.detached text h.1,
    h.2.trans (h.1.shaped.recalls_detached text)⟩

/-- Whatever an admitted history does, what a node shows in the end it has shown all along. -/
theorem WellFormed.recalls_after (hw : WellFormed t) {history : List Command}
    (ha : AdmitsAll t history) : WellFormed (t.after history) ∧ Recalls t (t.after history) := by
  have hall : ∀ {u : Tree}, WellFormed u ∧ Recalls t u → AdmitsAll u history →
      WellFormed (u.after history) ∧ Recalls t (u.after history) := by
    clear ha
    induction history with
    | nil => exact fun h _ => h
    | cons c history ih =>
      exact fun h ha => ih ((invariant_recalls t).perform h ha.1) ha.2
  exact hall ⟨hw, .refl t⟩ ha

end GlyphTree.Tree
