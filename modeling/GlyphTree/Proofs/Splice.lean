import GlyphTree.Proofs.Relayout

/-!
# Collapsing regions

What `Tree.splice` makes of a node that is laid out, when every cut is that of a fresh node and
holds both markers of an unfolded child or none. The glyphs of the fresh nodes stand where the
regions were, and each fresh node is laid out as the cells of its region (`Spliced`).
-/

namespace GlyphTree

open Cells Patch

/-- A region of a text that a fresh node is to stand for, with the cells that stay before it. -/
structure Region where
  kept : Cells
  gone : Cells
  glyph : Char
  name : Text
  groups : Groups

namespace Region

/-- The region gives way to a character that is not marked yet. -/
def patch (r : Region) : Patch := ⟨r.kept, r.gone, [⟨r.glyph, none⟩]⟩

/-- All cells, before anything is collapsed. -/
def cells (rs : List Region) (z : Cells) : Cells := before (rs.map patch) z

/-- All cells with a bare character for each region. -/
def bare (rs : List Region) (z : Cells) : Cells := after (rs.map patch) z

/-- All cells with a glyph for each region; `n` is the number of the first fresh node. -/
def marked (n : NodeId) : List Region → Cells → Cells
  | [], z => z
  | r :: rs, z => r.kept ++ ⟨r.glyph, some (.glyph n)⟩ :: marked (n + 1) rs z

/-- The children inside the regions. -/
def inside (rs : List Region) : List NodeId := rs.flatMap fun r => starts r.gone

/-- The cuts of the regions of a text that starts at byte `o`. -/
def cuts (o : Nat) : List Region → List Cut
  | [] => []
  | r :: rs =>
    ⟨⟨o + r.kept.size, o + r.kept.size + r.gone.size⟩, r.glyph, .fresh r.name r.groups⟩ ::
      cuts (o + r.kept.size + r.gone.size) rs

section
variable {o : Nat} {r : Region} {rs : List Region} {z : Cells}

theorem edits_patch (o : Nat) (rs : List Region) :
    (cuts o rs).map Cut.edit = edits o (rs.map patch) := by
  induction rs generalizing o with
  | nil => rfl
  | cons r rs ih => simp [cuts, edits, patch, Cut.edit, ih]

theorem patch_new_plain {x : Patch} (hx : x ∈ rs.map patch) : x.new = plain x.new.text := by
  obtain ⟨r, -, rfl⟩ := List.mem_map.1 hx
  rfl

theorem flatMap_patch (rs : List Region) :
    (rs.map patch).flatMap (fun x => starts x.gone) = inside rs := by
  simp [inside, List.flatMap_map, patch]

/-- The children listed behind the cuts and those inside the regions are all there were. -/
theorem starts_cells_perm (rs : List Region) (z : Cells) :
    (starts (cells rs z)).Perm (starts (bare rs z) ++ inside rs) := by
  have h := starts_before_perm (z := z) fun x (hx : x ∈ rs.map patch) => patch_new_plain hx
  rwa [flatMap_patch] at h

theorem cells_cons (z : Cells) : cells (r :: rs) z = r.kept ++ r.gone ++ cells rs z := rfl

theorem inside_cons : inside (r :: rs) = starts r.gone ++ inside rs := rfl

theorem bare_cons (z : Cells) :
    bare (r :: rs) z = r.kept ++ ⟨r.glyph, none⟩ :: bare rs z := by
  simp [bare, after, patch]

/-- Cuts of fresh nodes that cut pieces out of the text of cells are the cuts of regions of these
cells. -/
theorem exists_cuts_eq {cs : Cells} {l : List Cut} (h : Pieces o cs.text (l.map Cut.range))
    (hf : ∀ c ∈ l, ∃ name groups, c.origin = .fresh name groups) :
    ∃ rs z, cells rs z = cs ∧ cuts o rs = l := by
  induction l generalizing o cs with
  | nil => exact ⟨[], cs, rfl, rfl⟩
  | cons c l ih =>
    obtain ⟨range, glyph, origin⟩ := c
    obtain ⟨name, groups, ho⟩ := hf _ List.mem_cons_self
    simp only at ho
    subst ho
    generalize ht : cs.text = t at h
    rw [List.map_cons] at h
    cases h with
    | cons a b h =>
      obtain ⟨ab, c, rfl, hab, rfl⟩ := exists_of_text_eq_append ht
      obtain ⟨a, b, rfl, rfl, rfl⟩ := exists_of_text_eq_append hab
      obtain ⟨rs, z, rfl, rfl⟩ := ih h fun c hc => hf c (List.mem_cons_of_mem _ hc)
      exact ⟨⟨a, b, glyph, name, groups⟩ :: rs, z, rfl, rfl⟩

/-- The cut of a region among all cells. -/
theorem exists_cut {r : Region} (z : Cells) (hr : r ∈ rs) : ∃ a b : Cells, ∃ c ∈ cuts o rs,
    cells rs z = a ++ r.gone ++ b ∧ c.range = ⟨o + a.size, o + a.size + r.gone.size⟩ := by
  obtain ⟨a, b, e, he, hb, hrange⟩ := exists_edit z (List.mem_map_of_mem hr) (o := o)
  rw [← edits_patch] at he
  obtain ⟨c, hc, rfl⟩ := List.mem_map.1 he
  exact ⟨a, b, c, hc, hb, hrange⟩

end

end Region

namespace Tree

open Region

variable {t : Tree} {p : NodeId} {o : Nat} {d z : Cells} {r : Region} {rs : List Region}

/-! ## Which children go with which cut -/

/-- Each cut takes just the children inside its region, when those taken before are gone. -/
def Takes : List (NodeId × Span) → List Cut → List Region → Prop
  | kids, c :: cs, r :: rs =>
    (kids.filter fun k => c.range.encloses k.2).map Prod.fst = starts r.gone ∧
      Takes (kids.filter fun k => !c.range.encloses k.2) cs rs
  | _, [], [] => True
  | _, _, _ => False

/-- A child with its span. -/
def withSpan (t : Tree) (i : NodeId) : NodeId × Span := (i, (t.node i).span.getD ⟨0, 0⟩)

theorem filter_withSpan_of_true {f : Span → Bool} {l : List NodeId}
    (h : ∀ i ∈ l, f (t.withSpan i).2 = true) :
    (l.map t.withSpan).filter (fun k => f k.2) = l.map t.withSpan :=
  List.filter_eq_self.2 fun k hk => by
    obtain ⟨i, hi, rfl⟩ := List.mem_map.1 hk
    exact h i hi

theorem filter_withSpan_of_false {f : Span → Bool} {l : List NodeId}
    (h : ∀ i ∈ l, f (t.withSpan i).2 = false) :
    (l.map t.withSpan).filter (fun k => f k.2) = [] :=
  List.filter_eq_nil_iff.2 fun k hk => by
    obtain ⟨i, hi, rfl⟩ := List.mem_map.1 hk
    simp [h i hi]

/-- A test that only the children `m` in the middle pass parts them from those around. -/
theorem filter_withSpan (f : Span → Bool) {l m r : List NodeId}
    (hf : ∀ i ∈ l ++ m ++ r, f (t.withSpan i).2 = true ↔ i ∈ m) (hlr : ∀ i ∈ l ++ r, i ∉ m) :
    ((l ++ m ++ r).map t.withSpan).filter (fun k => f k.2) = m.map t.withSpan ∧
      ((l ++ m ++ r).map t.withSpan).filter (fun k => !f k.2) = (l ++ r).map t.withSpan := by
  have hm : ∀ i ∈ m, f (t.withSpan i).2 = true := fun i hi => (hf i (by simp [hi])).2 hi
  have hl : ∀ i ∈ l, f (t.withSpan i).2 = false := by
    intro i hi
    rw [Bool.eq_false_iff, ne_eq, hf i (by simp [hi])]
    exact hlr i (by simp [hi])
  have hr : ∀ i ∈ r, f (t.withSpan i).2 = false := by
    intro i hi
    rw [Bool.eq_false_iff, ne_eq, hf i (by simp [hi])]
    exact hlr i (by simp [hi])
  simp only [List.map_append, List.filter_append]
  constructor
  · rw [filter_withSpan_of_false hl, filter_withSpan_of_true hm, filter_withSpan_of_false hr,
      List.nil_append, List.append_nil]
  · rw [filter_withSpan_of_true (f := fun s => !f s) fun i hi => by simp [hl i hi],
      filter_withSpan_of_false (f := fun s => !f s) fun i hi => by simp [hm i hi],
      filter_withSpan_of_true (f := fun s => !f s) fun i hi => by simp [hr i hi],
      List.append_nil]

/-- A closed region encloses just the children inside. Of the children before it some may be gone
already. -/
theorem Layout.filter_region {a s c : Cells} {l : List NodeId} (h : Layout t p (a ++ s ++ c))
    (hs : Closed s) (hl : l.Sublist (starts a)) :
    ((l ++ starts s ++ starts c).map t.withSpan).filter
        (fun k => Span.encloses ⟨a.size, a.size + s.size⟩ k.2) = (starts s).map t.withSpan ∧
      ((l ++ starts s ++ starts c).map t.withSpan).filter
        (fun k => !Span.encloses ⟨a.size, a.size + s.size⟩ k.2) =
          (l ++ starts c).map t.withSpan := by
  have hnd := h.nested.nodup
  have hch := h.children
  simp only [starts_append, List.append_assoc] at hnd hch
  obtain ⟨-, hsc, hasc⟩ := List.nodup_append.1 hnd
  refine filter_withSpan _ (fun i hi => h.encloses_iff hs ?_) fun i hi his => ?_
  · rw [hch]
    simp only [List.mem_append] at hi ⊢
    exact hi.elim (fun hi => hi.elim (fun hi => .inl (hl.subset hi)) fun hi => .inr (.inl hi))
      fun hi => .inr (.inr hi)
  · rcases List.mem_append.1 hi with hi | hi
    · exact hasc i (hl.subset hi) i (by simp [his]) rfl
    · exact (List.nodup_append.1 hsc).2.2 i his i hi rfl

/-- Children `l` come from cells before the regions. Each cut takes its own children; in the end
those outside all regions are left. -/
theorem Layout.takes {l : List NodeId} (h : Layout t p (d ++ cells rs z))
    (hc : ∀ r ∈ rs, Closed r.gone) (hl : l.Sublist (starts d)) :
    Takes ((l ++ starts (cells rs z)).map t.withSpan) (cuts d.size rs) rs ∧
      ((l ++ starts (cells rs z)).map t.withSpan).filter
          (fun k => !(cuts d.size rs).any fun c => c.range.encloses k.2) =
        (l ++ starts (bare rs z)).map t.withSpan := by
  induction rs generalizing d l with
  | nil => exact ⟨trivial, by simp [cuts, cells, bare, before, after]⟩
  | cons r rs ih =>
    rw [cells_cons] at h
    have hr : Layout t p ((d ++ r.kept) ++ r.gone ++ cells rs z) := by simpa using h
    have hrs : Layout t p ((d ++ r.kept ++ r.gone) ++ cells rs z) := by simpa using h
    -- the children of the region stand between those before and those behind it
    have hkept : (l ++ starts r.kept).Sublist (starts (d ++ r.kept)) := by
      rw [starts_append]
      exact hl.append (List.Sublist.refl _)
    have hsub : (l ++ starts r.kept).Sublist (starts (d ++ r.kept ++ r.gone)) := by
      rw [starts_append (d ++ r.kept)]
      exact hkept.trans (List.sublist_append_left _ _)
    obtain ⟨hf1, hf2⟩ := hr.filter_region (hc r List.mem_cons_self) hkept
    obtain ⟨ih1, ih2⟩ := ih hrs (fun r hr => hc r (List.mem_cons_of_mem _ hr)) hsub
    rw [size_append] at hf1 hf2
    have hsplit : l ++ starts (cells (r :: rs) z) =
        (l ++ starts r.kept) ++ starts r.gone ++ starts (cells rs z) := by
      simp [cells_cons]
    rw [hsplit]
    refine ⟨⟨?_, ?_⟩, ?_⟩
    · rw [hf1, List.map_map]
      exact List.map_id _
    · rw [hf2]
      simpa only [size_append, Nat.add_assoc] using ih1
    · have hany : (fun k : NodeId × Span => !(cuts d.size (r :: rs)).any fun c =>
          c.range.encloses k.2) = fun k =>
          (!(cuts (d ++ r.kept ++ r.gone).size rs).any fun c => c.range.encloses k.2) &&
            !Span.encloses ⟨d.size + r.kept.size, d.size + r.kept.size + r.gone.size⟩ k.2 := by
        funext k
        simp [cuts, Nat.add_assoc, Bool.and_comm]
      rw [hany, ← List.filter_filter, hf2, ih2]
      simp [bare_cons]

/-! ## Settling -/

/-- The children inside the regions stand where they stood in the text cut, which starts at byte
`o`. -/
def Standing (t : Tree) (p : NodeId) : Nat → List Region → Prop
  | _, [] => True
  | o, r :: rs =>
    t.Fits p (o + r.kept.size) r.gone ∧ t.Standing p (o + r.kept.size + r.gone.size) rs

theorem Fits.standing (h : t.Fits p o (cells rs z)) : t.Standing p o rs := by
  induction rs generalizing o with
  | nil => trivial
  | cons r rs ih =>
    obtain ⟨hg, hr⟩ := fits_append.1 (cells_cons z ▸ h)
    rw [size_append, ← Nat.add_assoc] at hr
    exact ⟨(fits_append.1 hg).2, ih hr⟩

theorem Standing.congr {t' : Tree} (h : t.Standing p o rs) (hn : ∀ r ∈ rs, Nested r.gone)
    (he : ∀ i ∈ inside rs, (t'.node i).place = (t.node i).place ∧
      (t'.node i).fold = (t.node i).fold) : t'.Standing p o rs := by
  induction rs generalizing o with
  | nil => trivial
  | cons r rs ih =>
    refine ⟨h.1.congr fun i hi => he i ?_, ih h.2 (fun x hx => hn x (List.mem_cons_of_mem _ hx))
      fun i hi => he i ?_⟩
    · have := (hn r List.mem_cons_self).mem_ids.1 hi
      simp [inside_cons, this]
    · simp [inside_cons, hi]

theorem Standing.lt_size (h : t.Standing p o rs) (hn : ∀ r ∈ rs, Nested r.gone) :
    ∀ i ∈ inside rs, i < t.size := by
  induction rs generalizing o with
  | nil => intro i hi; cases hi
  | cons r rs ih =>
    intro i hi
    rw [inside_cons, List.mem_append] at hi
    rcases hi with hi | hi
    · exact lt_size_of_parent (h.1.parent ((hn r List.mem_cons_self).mem_ids.2 hi))
    · exact ih h.2 (fun x hx => hn x (List.mem_cons_of_mem _ hx)) i hi

/-- Some cuts of `text` are settled and those of `rs` are not: `old` are the cells before them as
they were, `new` as they are now. -/
structure Pending (t : Tree) (p : NodeId) (text : Text) (es : List Edit) (old new : Cells)
    (rs : List Region) (z : Cells) : Prop where
  layout : Layout t p (new ++ bare rs z)
  text : text = (old ++ cells rs z).text
  remap : ∀ i, old.size ≤ i → remapStart i es =
    remapStartFrom i ((new.size : Int) - old.size) (edits old.size (rs.map patch))
  standing : t.Standing p old.size rs
  nested : ∀ r ∈ rs, Nested r.gone
  pos : ∀ r ∈ rs, 0 < r.gone.size
  nodup : (starts (new ++ bare rs z) ++ inside rs).Nodup
  irrefl : p ∉ inside rs

/-- The fresh node of a region. -/
def freshNode (r : Region) : Node := ⟨r.name, r.gone.text, none, r.groups, none, [], []⟩

section
variable {text : Text} {es : List Edit} {old new : Cells}

theorem Pending.lt_size (h : Pending t p text es old new rs z) {i : NodeId}
    (hi : i ∈ starts (new ++ bare rs z) ++ inside rs) : i < t.size := by
  rcases List.mem_append.1 hi with hi | hi
  · exact h.layout.lt_size (h.layout.children ▸ hi)
  · exact h.standing.lt_size h.nested i hi

/-- The node of the first region is ready to take over the children inside. -/
theorem Pending.ready (h : Pending t p text es old new (r :: rs) z) :
    Ready (t.alloc (freshNode r)) p t.size (old.size + r.kept.size) (new ++ r.kept) r.gone r.glyph
      (bare rs z) := by
  have hnd := h.nodup
  have hlt := fun i hi => h.lt_size (i := i) hi
  have hirr := h.irrefl
  simp only [bare_cons, starts_append, starts_none, inside_cons, List.append_assoc]
    at hnd hlt hirr
  have hnode : ∀ j, j < t.size → (t.alloc (freshNode r)).node j = t.node j := by
    intro j hj
    rw [node_alloc, if_neg (Nat.ne_of_lt hj)]
  have hself : (t.alloc (freshNode r)).node t.size = freshNode r := by
    rw [node_alloc, if_pos rfl]
  have hp := hnode p h.layout.lt
  have hkids : ∀ i ∈ t.children p, (t.alloc (freshNode r)).node i = t.node i := fun i hi =>
    hnode i (h.layout.lt_size hi)
  have hgone : ∀ i ∈ starts r.gone, i < t.size := fun i hi => hlt i (by simp [hi])
  refine ⟨?_, ⟨?_, ?_, ?_, fits_plain _, nested_plain _, by simp⟩, ?_, ?_, ?_, ?_, ?_, ?_⟩
  · have hlt' : p < (t.alloc (freshNode r)).size := by
      rw [size_alloc]
      exact Nat.lt_succ_of_lt h.layout.lt
    have := h.layout.frame hlt' (by rw [hp]) (by rw [children, hp]; rfl) fun i hi => by
      rw [hkids i hi]
      exact ⟨rfl, rfl⟩
    simpa [bare_cons] using this
  · simp
  · rw [hself]
    simp [freshNode]
  · rw [children, hself]
    simp [freshNode]
  · rw [hself]
    rfl
  · exact Nat.ne_of_gt h.layout.lt
  · rw [children, hp]
    exact fun hm => Nat.lt_irrefl _ (h.layout.lt_size hm)
  · apply h.standing.1.congr
    intro i hi
    rw [hnode i (hgone i ((h.nested r List.mem_cons_self).mem_ids.1 hi))]
    exact ⟨rfl, rfl⟩
  · exact h.nested r List.mem_cons_self
  · intro i hi
    refine ⟨Nat.ne_of_lt (hgone i hi), ?_, ?_, ?_⟩
    · rintro rfl
      exact hirr (by simp [hi])
    · intro hm
      rw [← List.append_assoc] at hnd
      exact (List.nodup_append.1 hnd).2.2 i (starts_append _ _ ▸ hm) i (by simp [hi]) rfl
    · intro hm
      have hnd := (List.nodup_append.1 (List.nodup_append.1 hnd).2.1).2.1
      exact (List.nodup_append.1 hnd).2.2 i hm i (by simp [hi]) rfl

/-- The tree in which the cut of a region is settled: its fresh node has taken over the children
inside. -/
def collect (t : Tree) (p : NodeId) (old new : Cells) (r : Region) : Tree :=
  (t.alloc (freshNode r)).takeOver p t.size (old.size + r.kept.size) r.gone
    ⟨(new ++ r.kept).size, (new ++ r.kept).size + r.glyph.utf8Size⟩

theorem size_collect (t : Tree) (p : NodeId) (old new : Cells) (r : Region) :
    (t.collect p old new r).size = t.size + 1 := by simp [collect, takeOver]

theorem aside_collect (t : Tree) (p : NodeId) (old new : Cells) (r : Region) :
    (t.collect p old new r).aside = t.aside := by
  rw [collect, takeOver, aside_putChild, aside_foldl_moveChild]
  rfl

theorem Pending.settle_eq (h : Pending t p text es old new (r :: rs) z) {c : Cut} {cs : List Cut}
    (hc : cuts old.size (r :: rs) = c :: cs) :
    t.settle p text es c (starts r.gone) = t.collect p old new r := by
  rw [cuts] at hc
  obtain ⟨rfl, -⟩ := List.cons.inj hc
  have hslice : text.slice ⟨old.size + r.kept.size, old.size + r.kept.size + r.gone.size⟩ =
      r.gone.text := by
    rw [h.text, cells_cons, show (old ++ (r.kept ++ r.gone ++ cells rs z)).text =
      (old ++ r.kept).text ++ r.gone.text ++ (cells rs z).text by simp, ← size_append]
    exact Text.slice_middle _ _ _
  have hland : remapStart (old.size + r.kept.size) es = (new ++ r.kept).size := by
    rw [h.remap _ (Nat.le_add_right _ _), size_append]
    exact remapStartFrom_gone (p := r.patch) (h.pos r List.mem_cons_self)
  simp only [settle, prepare, hslice, Cut.body, Cut.landing, hland]
  rfl

theorem Pending.node_collect (h : Pending t p text es old new (r :: rs) z) (j : NodeId) :
    (t.collect p old new r).node j =
      if j = t.size then { freshNode r with
        place := some ⟨p, ⟨(new ++ r.kept).size, (new ++ r.kept).size + r.glyph.utf8Size⟩⟩
        children := starts r.gone }
      else if j = p then { t.node p with
        children := starts (new ++ r.kept) ++ t.size :: starts (bare rs z) }
      else if j ∈ starts r.gone then moved t.size (old.size + r.kept.size) 0 (t.node j)
      else t.node j := by
  rw [collect, h.ready.node_takeOver, node_alloc, node_alloc, node_alloc, if_pos rfl,
    if_neg (Nat.ne_of_lt h.layout.lt)]
  by_cases hj : j = t.size
  · rw [if_pos hj, if_pos hj]
  · rw [if_neg hj, if_neg hj, if_neg hj]

theorem Pending.next (h : Pending t p text es old new (r :: rs) z) :
    Pending (t.collect p old new r) p text es (old ++ r.kept ++ r.gone)
      (new ++ r.kept ++ [⟨r.glyph, some (.glyph t.size)⟩]) rs z := by
  have hready := h.ready
  have hlt := fun i hi => h.lt_size (i := i) hi
  have hnd := h.nodup
  have hirr := h.irrefl
  simp only [bare_cons, starts_append, starts_none, inside_cons, List.append_assoc]
    at hnd hlt hirr
  refine ⟨?_, ?_, ?_, ?_, fun x hx => h.nested x (List.mem_cons_of_mem _ hx),
    fun x hx => h.pos x (List.mem_cons_of_mem _ hx), ?_, ?_⟩
  · simpa [collect] using hready.layout_takeOver
  · simpa [cells_cons] using h.text
  · intro i hi
    simp only [size_append] at hi
    rw [h.remap i (by omega), List.map_cons, remapStartFrom_skip (p := r.patch) hi]
    simp [patch, Nat.add_assoc]
  · have hs := h.standing.2
    simp only [size_append]
    apply hs.congr (fun x hx => h.nested x (List.mem_cons_of_mem _ hx))
    intro i hi
    have hne : i ≠ t.size := Nat.ne_of_lt (hlt i (by simp [hi]))
    have hip : i ≠ p := fun e => hirr (e ▸ List.mem_append_right _ hi)
    have hig : i ∉ starts r.gone := by
      intro hg
      have hnd := (List.nodup_append.1 (List.nodup_append.1 (List.nodup_append.1 hnd).2.1).2.1).2.1
      exact (List.nodup_append.1 hnd).2.2 i hg i hi rfl
    rw [h.node_collect, if_neg hne, if_neg hip, if_neg hig]
    exact ⟨rfl, rfl⟩
  · have hmid : (starts (new ++ r.kept ++ [⟨r.glyph, some (.glyph t.size)⟩] ++ bare rs z) ++
        inside rs).Perm (t.size :: (starts new ++ (starts r.kept ++ (starts (bare rs z) ++
          inside rs)))) := by
      simp only [starts_append, starts_glyph, List.append_assoc, List.cons_append,
        List.nil_append]
      rw [← List.append_assoc, ← List.append_assoc (starts new)]
      exact List.perm_middle
    refine hmid.nodup_iff.2 (List.nodup_cons.2 ⟨fun hm => Nat.lt_irrefl _ (hlt t.size ?_), ?_⟩)
    · simp only [List.mem_append] at hm ⊢
      tauto
    · exact hnd.sublist (.append_left (.append_left (.append_left (List.sublist_append_right _ _) _)
        _) _)
  · exact fun hm => hirr (List.mem_append_right _ hm)

end

/-- What has become of a region: node `n` is laid out as its cells, and its children have moved
there from offset `sub` of the text cut. -/
structure Taken (t t' : Tree) (n : NodeId) (sub : Nat) (r : Region) : Prop where
  layout : Layout t' n r.gone
  name : (t'.node n).name = r.name
  groups : (t'.node n).groups = r.groups
  fold : (t'.node n).fold = none
  expanded : (t'.node n).expanded = []
  moved : ∀ j ∈ starts r.gone, t'.node j = moved n sub 0 (t.node j)

/-- What has become of regions of a text from byte `o` on; the first fresh node is `n`. -/
def Landed (t t' : Tree) : NodeId → Nat → List Region → Prop
  | _, _, [] => True
  | n, o, r :: rs =>
    Taken t t' n (o + r.kept.size) r ∧ Landed t t' (n + 1) (o + r.kept.size + r.gone.size) rs

theorem Landed.congr {t₁ t' : Tree} {n : NodeId} (h : Landed t₁ t' n o rs)
    (he : ∀ j ∈ inside rs, t₁.node j = t.node j) : Landed t t' n o rs := by
  induction rs generalizing n o with
  | nil => trivial
  | cons r rs ih =>
    obtain ⟨⟨h1, h2, h3, h4, h5, h6⟩, h7⟩ := h
    refine ⟨⟨h1, h2, h3, h4, h5, fun j hj => ?_⟩, ih h7 fun j hj => he j ?_⟩
    · rw [h6 j hj, he j (by simp [inside_cons, hj])]
    · simp [inside_cons, hj]

/-- A tree in which the fresh node and its children are as they were has it still. -/
theorem Taken.frame {t₁ t' : Tree} {n : NodeId} {sub : Nat} (h : Taken t t₁ n sub r)
    (hlt : n < t'.size) (hn : t'.node n = t₁.node n)
    (hk : ∀ j ∈ starts r.gone, t'.node j = t₁.node j) : Taken t t' n sub r where
  layout := by
    apply h.layout.frame hlt (by rw [hn]) (by rw [children, hn]; rfl)
    intro i hi
    rw [hk i (h.layout.children ▸ hi)]
    exact ⟨rfl, rfl⟩
  name := hn ▸ h.name
  groups := hn ▸ h.groups
  fold := hn ▸ h.fold
  expanded := hn ▸ h.expanded
  moved j hj := (hk j hj).trans (h.moved j hj)

theorem Pending.taken {text : Text} {es : List Edit} {old new : Cells}
    (h : Pending t p text es old new (r :: rs) z) :
    Taken t (t.collect p old new r) t.size (old.size + r.kept.size) r := by
  have hself := h.node_collect t.size
  rw [if_pos rfl] at hself
  refine ⟨h.ready.layout_taken, by rw [hself]; rfl, by rw [hself]; rfl, by rw [hself]; rfl,
    by rw [hself]; rfl, fun j hj => ?_⟩
  have hm : j ∈ inside (r :: rs) := by simp [inside_cons, hj]
  have hlt := h.lt_size (List.mem_append_right _ hm)
  have hjp : j ≠ p := fun e => h.irrefl (e ▸ hm)
  rw [h.node_collect, if_neg (Nat.ne_of_lt hlt), if_neg hjp, if_pos hj]

/-- A tree after its pending cuts have been settled. -/
structure Settled (t t' : Tree) (p : NodeId) (o : Nat) (rs : List Region) (cs : Cells) : Prop where
  size : t'.size = t.size + rs.length
  aside : t'.aside = t.aside
  layout : Layout t' p cs
  landed : Landed t t' t.size o rs
  parent : t'.node p = { t.node p with children := starts cs }
  other : ∀ j, j < t.size → j ≠ p → j ∉ inside rs → t'.node j = t.node j

/-- What is inside the first region is inside no other. -/
theorem Pending.gone_not_inside {text : Text} {es : List Edit} {old new : Cells} {j : NodeId}
    (h : Pending t p text es old new (r :: rs) z) (hj : j ∈ starts r.gone) : j ∉ inside rs :=
  fun hj' => by
    have hnd := (List.nodup_append.1 h.nodup).2.1
    rw [inside_cons] at hnd
    exact (List.nodup_append.1 hnd).2.2 j hj j hj' rfl

/-- The cuts behind the first one leave its fresh node and the children of that alone. -/
theorem Pending.settled_cons {text : Text} {es : List Edit} {old new cs : Cells} {t' : Tree}
    (h : Pending t p text es old new (r :: rs) z)
    (hs : Settled (t.collect p old new r) t' p (old.size + r.kept.size + r.gone.size) rs cs) :
    Settled t t' p old.size (r :: rs) cs := by
  have hnode := h.node_collect
  have htaken := h.taken
  have hsize := size_collect t p old new r
  have haside := aside_collect t p old new r
  generalize t.collect p old new r = t₁ at *
  have hlt₁ : ∀ j, j < t.size → j < t₁.size := fun j hj => hsize ▸ Nat.lt_succ_of_lt hj
  have hin : ∀ j ∈ inside (r :: rs), j < t.size ∧ j ≠ p := fun j hj =>
    ⟨h.lt_size (List.mem_append_right _ hj), fun e => h.irrefl (e ▸ hj)⟩
  have hmem : ∀ j ∈ starts r.gone, j ∈ inside (r :: rs) := fun j hj => by simp [inside_cons, hj]
  have hmem' : ∀ j ∈ inside rs, j ∈ inside (r :: rs) := fun j hj => by simp [inside_cons, hj]
  have hother : ∀ j, j < t.size → j ≠ p → j ∉ starts r.gone → t₁.node j = t.node j := by
    intro j hj hjp hjg
    rw [hnode, if_neg (Nat.ne_of_lt hj), if_neg hjp, if_neg hjg]
  refine ⟨by rw [hs.size, hsize, List.length_cons]; omega, hs.aside.trans haside, hs.layout,
    ⟨htaken.frame ?_ ?_ fun j hj => ?_, ?_⟩, ?_, fun j hj hjp hji => ?_⟩
  · rw [hs.size, hsize]
    exact Nat.lt_of_lt_of_le (Nat.lt_succ_self _) (Nat.le_add_right _ _)
  · apply hs.other _ (hsize ▸ Nat.lt_succ_self _) (Nat.ne_of_gt h.layout.lt)
    exact fun hm => Nat.lt_irrefl _ (hin _ (hmem' _ hm)).1
  · obtain ⟨hlt, hjp⟩ := hin j (hmem j hj)
    exact hs.other j (hlt₁ j hlt) hjp (h.gone_not_inside hj)
  · refine (hsize ▸ hs.landed).congr fun j hj => ?_
    obtain ⟨hlt, hjp⟩ := hin j (hmem' j hj)
    exact hother j hlt hjp fun hg => h.gone_not_inside hg hj
  · rw [hs.parent, hnode, if_neg (Nat.ne_of_lt h.layout.lt), if_pos rfl]
  · rw [inside_cons, List.mem_append, not_or] at hji
    rw [hs.other j (hlt₁ j hj) hjp hji.2, hother j hj hjp hji.1]

theorem Pending.settled {text : Text} {es : List Edit} {old new : Cells}
    {kids : List (NodeId × Span)} (h : Pending t p text es old new rs z)
    (hk : Takes kids (cuts old.size rs) rs) :
    Settled t (settleAll p text es (cuts old.size rs) kids t) p old.size rs
      (new ++ marked t.size rs z) := by
  induction rs generalizing t old new kids with
  | nil =>
    have hl : Layout t p (new ++ z) := h.layout
    refine ⟨rfl, rfl, hl, trivial, ?_, fun _ _ _ _ => rfl⟩
    simp only [cuts, settleAll, marked, ← hl.children, children]
  | cons r rs ih =>
    obtain ⟨hk1, hk2⟩ := hk
    have hold : (old ++ r.kept ++ r.gone).size = old.size + r.kept.size + r.gone.size := by
      simp [Nat.add_assoc]
    have hs := ih h.next (hold ▸ hk2)
    rw [hold, size_collect] at hs
    simp only [cuts, settleAll]
    rw [hk1, h.settle_eq rfl]
    refine h.settled_cons ?_
    simpa [marked] using hs

/-! ## Splicing -/

/-- A tree after regions of the text of `p` have been collapsed. -/
structure Spliced (t t' : Tree) (p : NodeId) (rs : List Region) (z : Cells) : Prop where
  size : t'.size = t.size + rs.length
  aside : t'.aside = t.aside
  layout : Layout t' p (marked t.size rs z)
  landed : Landed t t' t.size 0 rs
  parent : t'.node p =
    { edited (edits 0 (rs.map patch)) (t.node p) with children := starts (marked t.size rs z) }
  stays : ∀ j ∈ starts (bare rs z),
    t'.node j = followEdits (edits 0 (rs.map patch)) (t.node j)
  other : ∀ j, j < t.size → j ≠ p → j ∉ t.children p → t'.node j = t.node j

theorem Layout.mem_children_cells {c : NodeId} (h : Layout t p (cells rs z)) :
    c ∈ t.children p ↔ c ∈ starts (bare rs z) ∨ c ∈ inside rs := by
  rw [h.children, ← List.mem_append]
  exact (starts_cells_perm rs z).mem_iff

theorem Layout.nodup_cells (h : Layout t p (cells rs z)) :
    (starts (bare rs z) ++ inside rs).Nodup :=
  (starts_cells_perm rs z).nodup_iff.1 h.nested.nodup

theorem Layout.not_mem_cells (h : Layout t p (cells rs z)) :
    p ∉ starts (bare rs z) ∧ p ∉ inside rs := by
  have hp := h.irrefl
  rwa [← h.children, h.mem_children_cells, not_or] at hp

theorem closed_patches (hc : ∀ r ∈ rs, Closed r.gone) : ∀ x ∈ rs.map patch, Closed x.gone := by
  intro x hx
  obtain ⟨r, hr, rfl⟩ := List.mem_map.1 hx
  exact hc r hr

/-- The tree in which the text is rewritten for the children outside all regions. -/
def collapsed (t : Tree) (p : NodeId) (rs : List Region) (z : Cells) : Tree :=
  (t.setChildren p (starts (bare rs z))).rewrite p (edits 0 (rs.map patch))

@[simp] theorem size_collapsed : (t.collapsed p rs z).size = t.size := by simp [collapsed]

@[simp] theorem aside_collapsed : (t.collapsed p rs z).aside = t.aside := by simp [collapsed]

section
variable (h : Layout t p (cells rs z)) (hrs : rs ≠ []) (hc : ∀ r ∈ rs, Closed r.gone)
include h hc

/-- Splicing rewrites the text for the children outside all regions, and then settles the cuts. -/
theorem Layout.splice_eq :
    Takes ((t.children p).map t.withSpan) (cuts 0 rs) rs ∧
      t.splice p (cuts 0 rs) =
        settleAll p (cells rs z).text (edits 0 (rs.map patch)) (cuts 0 rs)
          ((t.children p).map t.withSpan) (t.collapsed p rs z) := by
  obtain ⟨htakes, hstays⟩ := Layout.takes (d := []) (l := []) h hc (List.Sublist.refl _)
  simp only [List.nil_append, size_nil] at htakes hstays
  rw [← h.children] at htakes hstays
  refine ⟨htakes, ?_⟩
  have hks : (((t.children p).map t.withSpan).filter
      fun k => !(cuts 0 rs).any fun c => c.range.encloses k.2).map Prod.fst =
      starts (bare rs z) := by
    rw [hstays, List.map_map]
    exact List.map_id _
  simp only [Tree.splice, edits_patch, h.text, collapsed]
  rw [← hks]
  rfl

theorem Layout.nested_gone : ∀ r ∈ rs, Nested r.gone := fun r hr =>
  (nested_after (d := []) h.nested (closed_patches hc) fun _ hx => patch_new_plain hx).2 r.patch
    (List.mem_map_of_mem hr)

include hrs

theorem Layout.layout_collapsed : Layout (t.collapsed p rs z) p (bare rs z) :=
  h.collapse (by simpa using hrs) (closed_patches hc) fun _ hx => patch_new_plain hx

theorem Layout.node_collapsed (j : NodeId) : (t.collapsed p rs z).node j =
    if j = p then edited (edits 0 (rs.map patch)) { t.node p with children := starts (bare rs z) }
    else if j ∈ starts (bare rs z) then followEdits (edits 0 (rs.map patch)) (t.node j)
    else t.node j :=
  h.node_patched (by simpa using hrs) (closed_patches hc) (fun _ hx => patch_new_plain hx) j

/-- What is inside the regions is not touched yet. -/
theorem Layout.node_collapsed_inside {j : NodeId} (hj : j ∈ inside rs) :
    (t.collapsed p rs z).node j = t.node j := by
  rw [h.node_collapsed hrs hc, if_neg (fun e : j = p => h.not_mem_cells.2 (e ▸ hj)),
    if_neg fun hb => (List.nodup_append.1 h.nodup_cells).2.2 j hb j hj rfl]

theorem Layout.standing_collapsed : (t.collapsed p rs z).Standing p 0 rs :=
  h.fits.standing.congr (h.nested_gone hc) fun i hi => by
    rw [h.node_collapsed_inside hrs hc hi]
    exact ⟨rfl, rfl⟩

theorem Layout.pending (hpos : ∀ r ∈ rs, 0 < r.gone.size) :
    Pending (t.collapsed p rs z) p (cells rs z).text (edits 0 (rs.map patch)) [] [] rs z where
  layout := h.layout_collapsed hrs hc
  text := rfl
  remap i _ := by simp [remapStart]
  standing := h.standing_collapsed hrs hc
  nested := h.nested_gone hc
  pos := hpos
  nodup := h.nodup_cells
  irrefl := h.not_mem_cells.2

/-- Splicing whole cuts of fresh nodes. -/
theorem Layout.splice (hpos : ∀ r ∈ rs, 0 < r.gone.size) :
    Spliced t (t.splice p (cuts 0 rs)) p rs z := by
  obtain ⟨htakes, heq⟩ := h.splice_eq hc
  have hs := (h.pending hrs hc hpos).settled htakes
  have hnode := h.node_collapsed hrs hc
  obtain ⟨hself, -⟩ := h.not_mem_cells
  have hsize : (t.collapsed p rs z).size = t.size := size_collapsed
  rw [size_nil, List.nil_append, hsize] at hs
  rw [heq]
  refine ⟨hs.size.trans (by rw [hsize]), hs.aside.trans aside_collapsed, hs.layout, ?_, ?_,
    fun j hj => ?_, fun j hj hjp hjc => ?_⟩
  · have hlanded := hs.landed.congr (t := t) fun j hj => h.node_collapsed_inside hrs hc hj
    rwa [hsize] at hlanded
  · rw [hs.parent, hnode, if_pos rfl]
    rfl
  · have hjp : j ≠ p := fun e => hself (e ▸ hj)
    rw [hs.other j (hsize ▸ h.lt_size (h.mem_children_cells.2 (.inl hj))) hjp
      (fun hi => (List.nodup_append.1 h.nodup_cells).2.2 j hj j hi rfl), hnode, if_neg hjp, if_pos hj]
  · rw [h.mem_children_cells, not_or] at hjc
    rw [hs.other j (hsize ▸ hj) hjp hjc.2, hnode, if_neg hjp, if_neg hjc.1]

end

end Tree

end GlyphTree
