import GlyphTree.Proofs.Histories

/-!
# How children are arranged

What a layout says about the spans of children, without cells: siblings stand in order, each hidden
one on a single character and each unfolded one between its two markers, and the regions of unfolded
siblings are nested or apart. In a reachable tree every node is arranged so, however many nodes are
unfolded (`Reachable.siblings_arranged`).
-/

namespace GlyphTree

namespace Tree

open Cells

variable {t : Tree} {p c u : NodeId} {cs : Cells} {F G : Fold} {s r : Span}

/-- The span lies between the markers of an unfolded node with the span `region`. -/
def Between (s : Span) (F : Fold) (region : Span) : Prop :=
  region.start + F.opening.utf8Size ≤ s.start ∧ s.stop + F.closing.utf8Size ≤ region.stop

/-- The span lies wholly outside a region. -/
def Outside (s region : Span) : Prop := s.stop ≤ region.start ∨ region.stop ≤ s.start

/-- How the children of a node stand in its text. -/
structure Arranged (t : Tree) (p : NodeId) : Prop where
  sorted : (t.children p).Pairwise fun c d => t.startOf c < t.startOf d
  placed : ∀ c ∈ t.children p, ∃ s, (t.node c).place = some ⟨p, s⟩ ∧
    s.start ≤ s.stop ∧ s.stop ≤ (t.node p).text.byteSize ∧
    (t.node p).text.isBoundary s.start = true ∧ (t.node p).text.isBoundary s.stop = true
  hidden : ∀ c ∈ t.children p, (t.node c).fold = none → ∀ s, (t.node c).span = some s →
    ∃ g, (t.node p).text.slice? s = some [g]
  unfolded : ∀ c ∈ t.children p, ∀ F, (t.node c).fold = some F → ∀ s, (t.node c).span = some s →
    ∃ body, (t.node p).text.slice? s = some (F.opening :: body ++ [F.closing])
  disjoint : ((t.children p).flatMap fun c => (t.node c).atoms).Pairwise fun a b =>
    a.overlaps b = false
  laminar : ∀ u ∈ t.children p, ∀ F, (t.node u).fold = some F → ∀ c ∈ t.children p, c ≠ u →
    ∀ r s, (t.node u).span = some r → (t.node c).span = some s →
      Between s F r ∨ Outside s r ∨ ∃ G, (t.node c).fold = some G ∧ Between r G s

/-! ## Spans and slices -/

theorem slice?_cells (a b c : Cells) :
    (a ++ b ++ c).text.slice? ⟨a.size, a.size + b.size⟩ = some b.text := by
  rw [text_append, text_append]
  exact Text.slice?_append a.text b.text c.text

theorem Layout.slice?_hidden (h : Layout t p cs) (hc : c ∈ t.children p)
    (hf : (t.node c).fold = none) (hs : (t.node c).span = some s) :
    ∃ g, (t.node p).text.slice? s = some [g] := by
  obtain ⟨a, g, b, rfl⟩ := h.exists_folded hc hf
  obtain ⟨⟨hp, -⟩, -⟩ := fits_some.1 (fits_append.1 h.fits).2
  rw [Node.span, hp, Option.map_some] at hs
  obtain rfl := Option.some.inj hs
  refine ⟨g, ?_⟩
  rw [h.text]
  simpa using slice?_cells a [⟨g, some (.glyph c)⟩] b

theorem Layout.slice?_unfolded (h : Layout t p cs) (hc : c ∈ t.children p)
    (hf : (t.node c).fold = some F) (hs : (t.node c).span = some s) :
    ∃ body, (t.node p).text.slice? s = some (F.opening :: body ++ [F.closing]) := by
  obtain ⟨a, b, d, rfl⟩ := h.exists_unfolded hc hf
  have hp := h.place_of_unfolded
  rw [Node.span, hp, Option.map_some] at hs
  obtain rfl := Option.some.inj hs
  refine ⟨b.text, ?_⟩
  have := slice?_cells a (⟨F.opening, some (.opening c)⟩ :: b ++
    [⟨F.closing, some (.closing c)⟩]) d
  rw [h.text]
  simpa [unfoldedCells, Nat.add_assoc] using this

/-- The span of a child cuts a slice out of the text. -/
theorem Layout.placed (h : Layout t p cs) (hc : c ∈ t.children p) :
    ∃ s, (t.node c).place = some ⟨p, s⟩ ∧ s.start ≤ s.stop ∧
      s.stop ≤ (t.node p).text.byteSize ∧
      (t.node p).text.isBoundary s.start = true ∧ (t.node p).text.isBoundary s.stop = true := by
  have hpar := h.parent hc
  cases hpl : (t.node c).place with
  | none => simp [Node.parent, hpl] at hpar
  | some pl =>
    obtain ⟨q, s⟩ := pl
    simp only [Node.parent, hpl, Option.map_some, Option.some.injEq] at hpar
    subst hpar
    have hs : (t.node c).span = some s := by rw [Node.span, hpl]; rfl
    have hslice : ∃ b, (t.node q).text.slice? s = some b := by
      cases hf : (t.node c).fold with
      | none => exact (h.slice?_hidden hc hf hs).imp' _ fun _ hg => hg
      | some F => exact (h.slice?_unfolded hc hf hs).imp' _ fun _ hg => hg
    obtain ⟨b, hb⟩ := hslice
    obtain ⟨x, y, ht, rfl⟩ := Text.slice?_eq_some_iff.1 hb
    refine ⟨_, rfl, Nat.le_add_right _ _, ?_, ?_, ?_⟩
    · rw [ht, Text.byteSize_append, Text.byteSize_append]
      exact Nat.le_add_right _ _
    · exact Text.isBoundary_iff.2 ⟨x, b ++ y, by rw [ht, List.append_assoc], rfl⟩
    · exact Text.isBoundary_iff.2 ⟨x ++ b, y, ht, Text.byteSize_append x b⟩

/-! ## Siblings -/

/-- No two stretches of the text that are not literal share a byte. -/
theorem Layout.disjoint (h : Layout t p cs) :
    ((t.children p).flatMap fun c => (t.node c).atoms).Pairwise fun a b =>
      a.overlaps b = false := by
  have hperm : (t.atoms p).Perm ((t.children p).flatMap fun c => (t.node c).atoms) :=
    sortByKey_perm _ _
  have hsymm : ∀ {a b : Span}, a.overlaps b = false → b.overlaps a = false := by
    intro a b hab
    rw [← hab, Span.overlaps, Span.overlaps, Bool.and_comm]
  refine (hperm.pairwise_iff hsymm).1 ?_
  rw [h.atoms, List.pairwise_map]
  refine (marks_pairwise 0 cs).imp fun {x y} hxy => ?_
  simp only [Span.overlaps, Bool.and_eq_false_iff, decide_eq_false_iff_not]
  omega

section
variable {a b d : Cells}

/-- The parts of the cells around and between the markers of an unfolded child. -/
theorem Layout.fits_unfolded (h : Layout t p (unfoldedCells u F a b d)) :
    t.Fits p 0 a ∧ t.Fits p (a.size + F.opening.utf8Size) b ∧
      t.Fits p (a.size + F.opening.utf8Size + b.size + F.closing.utf8Size) d := by
  obtain ⟨hab, hd⟩ := fits_append.1 h.fits
  obtain ⟨ha, hb⟩ := fits_append.1 hab
  have hb := (fits_some.1 hb).2
  have hd := (fits_some.1 hd).2
  simp only [size_append, size_cons, Nat.zero_add, ← Nat.add_assoc] at hb hd
  exact ⟨ha, hb, hd⟩

/-- A sibling that starts before the region of an unfolded child and ends behind it has the region
between its own markers. -/
theorem Layout.between_of_around (h : Layout t p (unfoldedCells u F a b d))
    (ho : c ∈ openings a) (he : c ∈ closings d) (hr : (t.node u).span = some r)
    (hs : (t.node c).span = some s) : ∃ G, (t.node c).fold = some G ∧ Between r G s := by
  obtain ⟨ha, -, hd⟩ := h.fits_unfolded
  rw [Node.span, h.place_of_unfolded, Option.map_some] at hr
  obtain rfl := Option.some.inj hr
  obtain ⟨a₁, o, a₂, rfl⟩ := exists_of_mem_openings ho
  obtain ⟨d₁, e, d₂, rfl⟩ := exists_of_mem_closings he
  obtain ⟨⟨stop, G, hp, hG, rfl⟩, -⟩ := fits_some.1 (fits_append.1 ha).2
  obtain ⟨⟨start, H, hp', hH, rfl⟩, -⟩ := fits_some.1 (fits_append.1 hd).2
  obtain rfl := Option.some.inj (hG.symm.trans hH)
  rw [Node.span, hp, Option.map_some] at hs
  obtain rfl := Option.some.inj hs
  have hstop := congrArg Place.span (Option.some.inj (hp.symm.trans hp'))
  simp only [Span.mk.injEq] at hstop
  refine ⟨G, hG, ?_, ?_⟩
  · simp only [size_append, size_cons]
    omega
  · simp only
    omega

/-- Where a sibling of an unfolded child stands. -/
theorem Layout.laminar (h : Layout t p (unfoldedCells u F a b d)) (hc : c ∈ t.children p)
    (hne : c ≠ u) (hr : (t.node u).span = some r) (hs : (t.node c).span = some s) :
    Between s F r ∨ Outside s r ∨ ∃ G, (t.node c).fold = some G ∧ Between r G s := by
  obtain ⟨ha, hb, hd⟩ := h.fits_unfolded
  have haround := h.between_of_around (c := c) (r := r) (s := s)
  have hnest := h.nested
  have hnb : Nested b := (hnest.fold F.glyph).1
  have hspan : t.startOf c = s.start ∧ t.stopOf c = s.stop := by
    rw [Tree.startOf, Tree.stopOf, hs]
    exact ⟨rfl, rfl⟩
  have hr' := hr
  rw [Node.span, h.place_of_unfolded, Option.map_some] at hr'
  obtain rfl := Option.some.inj hr'
  simp only [Between, Outside]
  rw [h.children] at hc
  simp only [unfoldedCells, starts_append, starts_opening, starts_closing, List.mem_append,
    List.mem_cons, hne, false_or] at hc
  rcases hc with (hc | hc) | hc
  · rcases exists_of_mem_starts hc with ⟨a₁, g, a₂, rfl⟩ | ho
    · -- a hidden sibling before the region
      obtain ⟨⟨hp, -⟩, -⟩ := fits_some.1 (fits_append.1 ha).2
      rw [Node.span, hp, Option.map_some] at hs
      obtain rfl := Option.some.inj hs
      refine .inr (.inl (.inl ?_))
      simp only [size_append, size_cons]
      omega
    · have hclose := (closed_of_nest hnest.nest c).1 (by simp [unfoldedCells, ho])
      simp only [unfoldedCells, closings_append, closings_opening, closings_closing,
        List.mem_append, List.mem_cons, hne, false_or] at hclose
      rcases hclose with (hca | hcb) | hcd
      · have := (ha.stopOf hca).2
        exact .inr (.inl (.inl (by omega)))
      · -- the body closes only what it opens
        have hob := (openings_sublist b).subset ((closed_of_nest hnb.nest c).2 hcb)
        have hnd := hnest.nodup
        simp only [unfoldedCells, starts_append, starts_opening, List.append_assoc,
          List.cons_append] at hnd
        exact absurd rfl ((List.nodup_append.1 hnd).2.2 c hc c (by simp [hob]))
      · exact .inr (.inr (haround ho hcd hr hs))
  · have := hb.region hnb hc
    exact .inl ⟨by omega, by omega⟩
  · have := (hd.startOf hc).1
    exact .inr (.inl (.inr (by omega)))

end

/-! ## Reachable trees -/

/-- A node that is laid out is arranged. -/
theorem Layout.arranged (h : Layout t p cs) : Arranged t p where
  sorted := h.children ▸ h.fits.startOf_pairwise
  placed _ hc := h.placed hc
  hidden _ hc hf _ hs := h.slice?_hidden hc hf hs
  unfolded _ hc _ hf _ hs := h.slice?_unfolded hc hf hs
  disjoint := h.disjoint
  laminar u hu F hF c hc hne r s hr hs := by
    obtain ⟨a, b, d, rfl⟩ := h.exists_unfolded hu hF
    exact h.laminar hc hne hr hs

theorem WellFormed.arranged (hw : WellFormed t) (p : NodeId) : Arranged t p := by
  rcases Nat.lt_or_ge p t.size with hp | hp
  · obtain ⟨cs, hl⟩ := hw.shaped.layout p hp
    exact hl.arranged
  · -- a number that no node has lists nothing
    have hnil : t.children p = [] := by
      rw [children, node_eq_default hp]
      rfl
    constructor <;> simp [hnil]

theorem WellFormed.count_unfolded (hw : WellFormed t) (hc : c ∈ t.children p)
    (hu : (t.node c).isUnfolded = true) : t.unfolded.count c = 1 := by
  rw [Tree.unfolded, List.count_reverse]
  exact List.count_eq_one_of_mem hw.stacked.nodup (hw.stacked.listed p c hc hu)

/-- In every reachable tree the children of each node are arranged, and each unfolded one of them is
on the stack of unfolded nodes just once. -/
theorem Reachable.siblings_arranged (h : Reachable t) :
    (∀ p, Arranged t p) ∧
      ∀ p, ∀ c ∈ t.children p, (t.node c).isUnfolded = true → t.unfolded.count c = 1 :=
  ⟨h.wellFormed.arranged, fun _ _ hc hu => h.wellFormed.count_unfolded hc hu⟩

theorem siblings_arranged_unfoldedTwice :
    Reachable unfoldedTwice ∧ unfoldedTwice.unfolded = [1, 3] ∧
      (∀ p, Arranged unfoldedTwice p) ∧
        ∀ p, ∀ c ∈ unfoldedTwice.children p, (unfoldedTwice.node c).isUnfolded = true →
          unfoldedTwice.unfolded.count c = 1 :=
  ⟨reachable_unfoldedTwice, by cbv, Reachable.siblings_arranged reachable_unfoldedTwice⟩

/-- Around the region of an unfolded child another unfolded one can stand, which then is neither
between the markers of the first nor outside. -/
theorem not_between_or_outside :
    ¬ ∀ t, Reachable t → ∀ p, ∀ u ∈ t.children p, ∀ F, (t.node u).fold = some F →
      ∀ c ∈ t.children p, c ≠ u → ∀ r s, (t.node u).span = some r → (t.node c).span = some s →
        Between s F r ∨ Outside s r := by
  intro h
  have hkids : unfoldedTwice.children root = [2, 1, 3, 4] := by cbv
  have hfold : (unfoldedTwice.node 3).fold = some ⟨'*', '(', ')'⟩ := by cbv
  have hinner : (unfoldedTwice.node 3).span = some ⟨2, 7⟩ := by cbv
  have houter : (unfoldedTwice.node 1).span = some ⟨1, 8⟩ := by cbv
  have := h unfoldedTwice reachable_unfoldedTwice root 3 (by simp [hkids]) _ hfold 1
    (by simp [hkids]) (by decide) _ _ hinner houter
  simp only [Between, Outside] at this
  omega

end Tree

end GlyphTree
