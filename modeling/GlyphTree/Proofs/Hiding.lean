import GlyphTree.Proofs.Matches
import GlyphTree.Proofs.Reading
import GlyphTree.Tree.Hide

/-!
# Hiding

A plan whose cuts fit their nodes (`Fitting`) is carried out faithfully: each splice keeps the tree
well-formed and what its nodes stand for, and leaves the nodes still to be cut as they were. The
plans of all hides are of this kind if no region to be hidden is empty (`Plan.Solid`).
-/

namespace GlyphTree

namespace Tree

open Cells Region

variable {t t' : Tree} {p c : NodeId} {n o : Nat} {z : Cells} {rs : List Region}

/-! ## Splicing -/

theorem mem_starts_marked (h : c ∈ starts (marked n rs z)) :
    c ∈ starts (bare rs z) ∨ n ≤ c ∧ c < n + rs.length := by
  induction rs generalizing n with
  | nil => exact .inl h
  | cons r rs ih =>
    simp only [marked, starts_append, starts_glyph, List.mem_append, List.mem_cons] at h
    rw [bare_cons, starts_append, starts_none, List.mem_append, List.length_cons]
    rcases h with h | rfl | h
    · exact .inl (.inl h)
    · exact .inr ⟨Nat.le_refl _, Nat.lt_add_of_pos_right (Nat.succ_pos _)⟩
    · rcases ih h with h | ⟨h1, h2⟩
      · exact .inl (.inr h)
      · exact .inr ⟨Nat.le_of_succ_le h1, by rwa [Nat.add_comm rs.length, ← Nat.add_assoc]⟩

/-- Each fresh node has its region. -/
theorem Landed.exists_taken (h : Landed t t' n o rs) {q : NodeId} (h1 : n ≤ q)
    (h2 : q < n + rs.length) : ∃ r ∈ rs, ∃ sub, Taken t t' q sub r := by
  induction rs generalizing n o with
  | nil => exact absurd h1 (Nat.not_le.2 h2)
  | cons r rs ih =>
    rcases Nat.eq_or_lt_of_le h1 with rfl | h1
    · exact ⟨r, List.mem_cons_self, _, h.1⟩
    · rw [List.length_cons, Nat.add_comm rs.length, ← Nat.add_assoc] at h2
      obtain ⟨r', hr', sub, ht⟩ := ih h.2 h1 h2
      exact ⟨r', List.mem_cons_of_mem _ hr', sub, ht⟩

/-- Each child inside a region has moved. -/
theorem Landed.exists_moved (h : Landed t t' n o rs) {j : NodeId} (hj : j ∈ inside rs) :
    ∃ q sub, t'.node j = moved q sub 0 (t.node j) := by
  induction rs generalizing n o with
  | nil => cases hj
  | cons r rs ih =>
    rw [inside_cons, List.mem_append] at hj
    rcases hj with hj | hj
    · exact ⟨_, _, h.1.moved j hj⟩
    · exact ih h.2 hj

/-- The glyphs of the fresh nodes stand for their regions. -/
theorem Landed.fill_marked (hl : Landed t t' n o rs) (hs : Shaped t') :
    fill t'.reading (marked n rs z) = fill t'.reading (cells rs z) := by
  induction rs generalizing n o with
  | nil => rfl
  | cons r rs ih =>
    rw [marked, cells_cons, fill_append, fill_glyph, fill_append, fill_append,
      hs.reading_eq hl.1.layout, ih hl.2, List.append_assoc]

theorem Spliced.fresh (s : Spliced t t' p rs z) {q : NodeId} (h1 : t.size ≤ q)
    (h2 : q < t'.size) : ∃ r ∈ rs, ∃ sub, Taken t t' q sub r :=
  s.landed.exists_taken h1 (s.size ▸ h2)

section
variable (s : Spliced t t' p rs z) (h : Layout t p (cells rs z))
include s h

/-- An old node other than the one cut differs in where it stands and in its groups at most. -/
theorem Spliced.content {j : NodeId} (hj : j < t.size) (hjp : j ≠ p) :
    (t'.node j).text = (t.node j).text ∧ t'.children j = t.children j ∧
      t'.expandedChildren j = t.expandedChildren j ∧ (t'.node j).fold = (t.node j).fold := by
  rw [children, expandedChildren]
  by_cases hjc : j ∈ t.children p
  · rcases h.mem_children_cells.1 hjc with hj' | hj'
    · rw [s.stays j hj']
      simp [children, expandedChildren]
    · obtain ⟨q, sub, hm⟩ := s.landed.exists_moved hj'
      rw [hm]
      exact ⟨rfl, rfl, rfl, rfl⟩
  · rw [s.other j hj hjp hjc]
    exact ⟨rfl, rfl, rfl, rfl⟩

theorem Spliced.kept : Kept [p] t t' where
  size := s.size ▸ Nat.le_add_right _ _
  content j hj hjp := by
    obtain ⟨h1, h2, -, h4⟩ := s.content h hj (by simpa using hjp)
    exact ⟨h1, h2, h4⟩
  stands j hj hjc := by
    have hjc : j ∉ t.children p := hjc p (by simp)
    by_cases hjp : j = p
    · rw [hjp, s.parent]
      exact ⟨rfl, rfl⟩
    · rw [s.other j hj hjp hjc]
      exact ⟨rfl, rfl⟩
  kids q hq c hc hlt := by
    refine ⟨p, by simp, h.mem_children_cells.2 ?_⟩
    rcases hq with hq | hq
    · rw [List.mem_singleton.1 hq, s.layout.children] at hc
      rcases mem_starts_marked hc with hc | hc
      · exact .inl hc
      · exact absurd hlt (Nat.not_lt.2 hc.1)
    · rcases Nat.lt_or_ge q t'.size with hq' | hq'
      · obtain ⟨r, hr, sub, ht⟩ := s.fresh hq hq'
        rw [ht.layout.children] at hc
        exact .inr (List.mem_flatMap.2 ⟨r, hr, hc⟩)
      · rw [children, node_eq_default hq'] at hc
        cases hc

theorem Spliced.expanded (j : NodeId) : t'.expandedChildren j = t.expandedChildren j := by
  rcases Nat.lt_or_ge j t.size with hj | hj
  · by_cases hjp : j = p
    · rw [hjp, expandedChildren, s.parent]
      rfl
    · exact (s.content h hj hjp).2.2.1
  · rw [expandedChildren, expandedChildren, node_eq_default hj]
    rcases Nat.lt_or_ge j t'.size with hj' | hj'
    · obtain ⟨r, -, sub, ht⟩ := s.fresh hj hj'
      rw [ht.expanded]
      rfl
    · rw [node_eq_default hj']

theorem Spliced.isUnfolded (j : NodeId) :
    (t'.node j).isUnfolded = (t.node j).isUnfolded := by
  rcases Nat.lt_or_ge j t.size with hj | hj
  · by_cases hjp : j = p
    · rw [hjp, s.parent]
      rfl
    · exact Node.isUnfolded_congr (s.content h hj hjp).2.2.2
  · rw [node_eq_default hj]
    rcases Nat.lt_or_ge j t'.size with hj' | hj'
    · obtain ⟨r, -, sub, ht⟩ := s.fresh hj hj'
      exact Node.isUnfolded_of_none ht.fold
    · rw [node_eq_default hj']

/-- A fresh node ranks just below the node cut. -/
theorem Spliced.ranked (hs : Shaped t) : Ranked t'.below := by
  obtain ⟨rank, hr⟩ := hs.ranked
  have hk := s.kept h
  refine ⟨fun x => if x < t.size then 2 * rank x + 1 else 2 * rank p, fun q c hc => ?_⟩
  have hp : p < t.size := h.lt
  by_cases hq : q < t.size
  · simp only [if_pos hq]
    by_cases hcs : c < t.size
    · have hcq : c ∈ t.below q := by
        rcases List.mem_append.1 hc with hc | hc
        · by_cases hqp : q = p
          · obtain ⟨s, hs, hcs⟩ := hk.kids q (.inl (by simp [hqp])) c hc hcs
            obtain rfl := List.mem_singleton.1 hs
            exact hqp ▸ List.mem_append_left _ hcs
          · exact List.mem_append_left _ ((hk.content q hq (by simpa using hqp)).2.1 ▸ hc)
        · exact List.mem_append_right _ (s.expanded h q ▸ hc)
      have := hr q c hcq
      simp only [if_pos hcs]
      omega
    · -- a fresh node is listed at the node cut
      have hqp : q = p := by
        rcases List.mem_append.1 hc with hc | hc
        · by_contra hqp
          rw [(hk.content q hq (by simpa using hqp)).2.1] at hc
          exact hcs (hs.below_lt q c (List.mem_append_left _ hc)).2
        · rw [s.expanded h] at hc
          exact absurd (hs.below_lt q c (List.mem_append_right _ hc)).2 hcs
      simp only [if_neg hcs, hqp]
      omega
  · have hcp : c ∈ t.children p := by
      rcases List.mem_append.1 hc with hc | hc
      · obtain ⟨r, hr, sub, ht⟩ := s.fresh (Nat.not_lt.1 hq) (lt_size_of_mem_children hc)
        rw [ht.layout.children] at hc
        exact h.mem_children_cells.2 (.inr (List.mem_flatMap.2 ⟨r, hr, hc⟩))
      · rw [s.expanded h, expandedChildren, node_eq_default (Nat.not_lt.1 hq)] at hc
        cases hc
    have hlt := hr p c (List.mem_append_left _ hcp)
    simp only [if_neg hq, if_pos (h.lt_size hcp)]
    omega

theorem Spliced.shaped (hs : Shaped t) (hrs : rs ≠ []) (hpos : ∀ r ∈ rs, 0 < r.gone.size) :
    Shaped t' := by
  -- a text with regions in it is not the empty text of an unfolded node
  have hp : (t.node p).isUnfolded ≠ true := by
    intro hu
    have he : cells rs z = [] := h.unique (hs.hollow p hu)
    cases rs with
    | nil => exact hrs rfl
    | cons r rs =>
      have hz : r.gone.size = 0 := by
        have : (cells (r :: rs) z).size = 0 := by rw [he]; rfl
        rw [cells_cons, size_append, size_append] at this
        omega
      exact Nat.lt_irrefl 0 (hz ▸ hpos r List.mem_cons_self)
  refine hs.kept (s.kept h) (fun q hq hlt => ?_) (fun q hq hu => ?_) (s.expanded h)
    (s.ranked h hs)
  · rcases hq with hq | hq
    · exact List.mem_singleton.1 hq ▸ ⟨_, s.layout⟩
    · obtain ⟨r, -, sub, ht⟩ := s.fresh hq hlt
      exact ⟨_, ht.layout⟩
  · rw [s.isUnfolded h] at hu
    rcases hq with hq | hq
    · exact absurd (List.mem_singleton.1 hq ▸ hu) hp
    · rw [node_eq_default hq] at hu
      cases hu

theorem Spliced.wellFormed (hw : WellFormed t) (hrs : rs ≠ [])
    (hpos : ∀ r ∈ rs, 0 < r.gone.size) : WellFormed t' := by
  have hf : t'.folds = t.folds := folds_of_aside s.aside
  exact ⟨s.shaped h hw.shaped hrs hpos, hf ▸ hw.stacked.kept (s.kept h) (s.isUnfolded h)⟩

/-- No old node stands for anything else than before. -/
theorem Spliced.reading (hw : Shaped t) (hw' : Shaped t') {x : NodeId} (hx : x < t.size) :
    t'.reading x = t.reading x := by
  refine hw.reading_unique (fun x cs hl => ?_) hx
  by_cases hxp : x = p
  · subst hxp
    rw [hw'.reading_eq s.layout, s.landed.fill_marked hw', hl.unique h]
  · exact hw'.reading_eq ((s.kept h).layout hw hl (by simpa using hxp))

end

/-! ## Plans -/

/-- The cuts are those of regions of a node that hold both markers of an unfolded child or none. -/
def Cutting (t : Tree) (p : NodeId) (cuts : List Cut) : Prop :=
  ∃ rs z, Layout t p (cells rs z) ∧ Region.cuts 0 rs = cuts ∧ ∀ r ∈ rs, Closed r.gone

/-- The cuts are those of regions of a node that are not empty and hold both markers of an unfolded
child or none. -/
def Fitting (t : Tree) (p : NodeId) (cuts : List Cut) : Prop :=
  ∃ rs z, Layout t p (cells rs z) ∧ Region.cuts 0 rs = cuts ∧
    ∀ r ∈ rs, Closed r.gone ∧ 0 < r.gone.size

theorem Fitting.cutting {l : List Cut} (h : Fitting t p l) : Cutting t p l := by
  obtain ⟨rs, z, hl, hcuts, hr⟩ := h
  exact ⟨rs, z, hl, hcuts, fun r hm => (hr r hm).1⟩

/-- Regions are not empty if their cuts are not. -/
theorem Cutting.fitting {l : List Cut} (h : Cutting t p l)
    (hpos : ∀ c ∈ l, c.range.start < c.range.stop) : Fitting t p l := by
  obtain ⟨rs, z, hl, rfl, hr⟩ := h
  refine ⟨rs, z, hl, rfl, fun r hm => ⟨hr r hm, ?_⟩⟩
  obtain ⟨a, b, c, hmem, -, hrange⟩ := exists_cut z hm (o := 0)
  have := hpos c hmem
  rw [hrange] at this
  exact Nat.lt_add_right_iff_pos.1 this

/-- Cuts of fresh nodes are cuts of regions if they cut pieces out of the text, each closed. -/
theorem Layout.cutting {cs : Cells} {l : List Cut} (h : Layout t p cs)
    (hp : Pieces 0 cs.text (l.map Cut.range))
    (hf : ∀ c ∈ l, ∃ name groups, c.origin = .fresh name groups)
    (hc : ∀ c ∈ l, ∀ a s b : Cells, cs = a ++ s ++ b → c.range = ⟨a.size, a.size + s.size⟩ →
      Closed s) : Cutting t p l := by
  obtain ⟨rs, z, rfl, rfl⟩ := exists_cuts_eq hp hf
  refine ⟨rs, z, h, rfl, fun r hr => ?_⟩
  obtain ⟨a, b, c, hmem, he, hrange⟩ := exists_cut z hr (o := 0)
  rw [Nat.zero_add] at hrange
  exact hc c hmem a r.gone b he hrange

theorem Fitting.kept {S : List NodeId} {q : NodeId} {l : List Cut} (h : Fitting t q l)
    (hs : Shaped t) (k : Kept S t t') (hq : q ∉ S) : Fitting t' q l := by
  obtain ⟨rs, z, hl, hcuts, hr⟩ := h
  exact ⟨rs, z, k.layout hs hl hq, hcuts, hr⟩

/-- Fitting cuts are those of regions that are spliced. -/
theorem Fitting.spliced {l : List Cut} (h : Fitting t p l) (hl : l ≠ []) :
    ∃ rs z, Layout t p (cells rs z) ∧ Region.cuts 0 rs = l ∧ rs ≠ [] ∧
      (∀ r ∈ rs, 0 < r.gone.size) ∧ Spliced t (t.splice p l) p rs z := by
  obtain ⟨rs, z, hlay, rfl, hr⟩ := h
  have hrs : rs ≠ [] := by
    rintro rfl
    exact hl rfl
  have hpos : ∀ r ∈ rs, 0 < r.gone.size := fun r hm => (hr r hm).2
  exact ⟨rs, z, hlay, rfl, hrs, hpos, hlay.splice hrs (fun r hm => (hr r hm).1) hpos⟩

/-- What holds of a plan still to be carried out and of the tree, and holds of the rest and the tree
after each node that is cut, holds of the tree in the end. -/
theorem WellFormed.applyPlan_induct {P : Plan → Tree → Prop} {plan : Plan} (hw : WellFormed t)
    (hnd : (plan.map Prod.fst).Nodup) (hf : ∀ x ∈ plan, Fitting t x.1 x.2)
    (hskip : ∀ {t p rest}, P ((p, []) :: rest) t → P rest t)
    (hcut : ∀ {t p l rest rs z}, P ((p, l) :: rest) t → WellFormed t → Layout t p (cells rs z) →
      Region.cuts 0 rs = l → rs ≠ [] → (∀ r ∈ rs, 0 < r.gone.size) →
      Spliced t (t.splice p l) p rs z → (∀ x ∈ rest, x.1 ≠ p ∧ Fitting t x.1 x.2) →
      P rest (t.splice p l))
    (h : P plan t) : P [] (t.applyPlan plan) := by
  induction plan generalizing t with
  | nil => exact h
  | cons x plan ih =>
    obtain ⟨p, l⟩ := x
    obtain ⟨hp, hnd'⟩ := List.nodup_cons.1 hnd
    obtain ⟨hfit, hf'⟩ := List.forall_mem_cons.1 hf
    rw [applyPlan, List.foldl_cons]
    dsimp only
    cases l with
    | nil => exact ih hw hnd' hf' (hskip h)
    | cons c l =>
      obtain ⟨rs, z, hl, hcuts, hrs, hpos, hs⟩ := hfit.spliced (by simp)
      have hne : ∀ x ∈ plan, x.1 ≠ p := fun x hx hxp => hp (List.mem_map.2 ⟨x, hx, hxp⟩)
      rw [List.isEmpty_cons, if_neg Bool.false_ne_true]
      exact ih (hs.wellFormed hl hw hrs hpos) hnd'
        (fun x hx => (hf' x hx).kept hw.shaped (hs.kept hl) (by simpa using hne x hx))
        (hcut h hw hl hcuts hrs hpos hs fun x hx => ⟨hne x hx, hf' x hx⟩)

/-- Fitting cuts of distinct nodes are made faithfully, in any order of the nodes. -/
theorem WellFormed.faithful_applyPlan {plan : Plan} (hw : WellFormed t)
    (hnd : (plan.map Prod.fst).Nodup) (hf : ∀ x ∈ plan, Fitting t x.1 x.2) :
    Faithful t (t.applyPlan plan) := by
  refine hw.applyPlan_induct (P := fun _ u => Faithful t u) hnd hf id ?_ (.refl hw)
  intro u p l rest rs z h hu hl hcuts hrs hpos hs _
  have hw' := hs.wellFormed hl hu hrs hpos
  exact h.trans ⟨hw', hs.reading hl hu.shaped hw'.shaped hu.shaped.root⟩

/-! ## Solid plans -/

end Tree

/-- No region of a plan is empty. -/
def Plan.Solid (plan : Plan) : Prop := ∀ x ∈ plan, ∀ c ∈ x.2, c.range.isEmpty = false

instance (plan : Plan) : Decidable plan.Solid :=
  inferInstanceAs (Decidable (∀ x ∈ plan, ∀ c ∈ x.2, c.range.isEmpty = false))

namespace Tree

open Cells Region

variable {t : Tree} {p id : NodeId} {name : Text} {glyph : Char}

theorem lt_of_isEmpty_eq_false {s : Span} (h : s.isEmpty = false) : s.start < s.stop := by
  simpa [Span.isEmpty] using h

/-- What is left of cuts after those are dropped that would part an unfolded child. -/
theorem Layout.cutting_wholeCuts {cs : Cells} {l : List Cut} (h : Layout t p cs)
    (hp : Pieces 0 cs.text (l.map Cut.range))
    (hf : ∀ c ∈ l, ∃ name groups, c.origin = .fresh name groups) :
    Cutting t p (t.wholeCuts p l) := by
  have hsub : (t.wholeCuts p l).Sublist l := List.filter_sublist
  refine h.cutting (hp.of_sublist (hsub.map _)) (fun c hc => hf c (hsub.subset hc))
    fun c hc a s b he hr => ?_
  subst he
  exact h.closed_of_isWhole hr (List.mem_filter.1 hc).2

/-! ### Matches -/

/-- The plan that hides the matches of a program in the targets. -/
def matchPlan (t : Tree) (name : Text) (glyph : Char) (program : Program) (target : Text) : Plan :=
  (t.targets target).map fun id => (id, t.wholeCuts id (t.matchCuts name glyph program id))

theorem Layout.cutting_matchCuts {cs : Cells} (h : Layout t p cs) (program : Program) :
    Cutting t p (t.wholeCuts p (t.matchCuts name glyph program p)) := by
  refine h.cutting_wholeCuts ?_ fun c hc => ?_
  · have := program.pieces_matchesIn cs.text
    simpa [matchCuts, h.text, matchCut, Function.comp_def] using this
  · obtain ⟨m, -, rfl⟩ := List.mem_map.1 hc
    exact ⟨name, groupTable m, rfl⟩

theorem Shaped.mem_targets (hs : Shaped t) {filter : Text} (h : id ∈ t.targets filter) :
    id < t.size := hs.lt_of_mem_documentOrder (hs.live_subset (List.mem_filter.1 h).1)

theorem Shaped.nodup_targets (hs : Shaped t) (filter : Text) : (t.targets filter).Nodup :=
  hs.nodup_liveOrder.filter _

theorem Shaped.fitting_matchPlan (hs : Shaped t) {program : Program} {target : Text}
    (h : (t.matchPlan name glyph program target).Solid) :
    ((t.matchPlan name glyph program target).map Prod.fst).Nodup ∧
      ∀ x ∈ t.matchPlan name glyph program target, Fitting t x.1 x.2 := by
  refine ⟨?_, fun x hx => ?_⟩
  · simpa [matchPlan, Function.comp_def] using hs.nodup_targets target
  · obtain ⟨id, hid, rfl⟩ := List.mem_map.1 hx
    obtain ⟨cs, hl⟩ := hs.layout id (hs.mem_targets hid)
    exact (hl.cutting_matchCuts program).fitting fun c hc => lt_of_isEmpty_eq_false (h _ hx c hc)

/-! ### Capture groups -/

/-- A source is left out of the plan, or has the one cut of its group in it. -/
theorem planGroup_cons {group : Nat} {ids : List NodeId} {plan : Plan}
    (h : (t.planGroup name glyph group (id :: ids)).1 = .ok plan) :
    ∃ rest, (t.planGroup name glyph group ids).1 = .ok rest ∧
      (plan = rest ∨ ∃ range, (t.node id).isUnfolded = false ∧
        (t.node id).groupSpan? group = some range ∧
        ((t.node id).text.slice? range).isSome = true ∧
        plan = (id, t.wholeCuts id [⟨range, glyph, .fresh name none⟩]) :: rest) := by
  rw [planGroup] at h
  dsimp only at h
  split at h
  · cases h
  · generalize t.planGroup name glyph group ids = o at h
    obtain ⟨rest, events⟩ := o
    dsimp only at h
    split at h
    · exact ⟨plan, h, .inl rfl⟩
    · rename_i hun
      split at h
      · exact ⟨plan, h, .inl rfl⟩
      · rename_i range hrange
        split at h
        · exact ⟨plan, h, .inl rfl⟩
        · rename_i hslice
          cases rest with
          | error e => cases h
          | ok rest =>
            cases h
            refine ⟨rest, rfl, .inr ⟨range, by simpa using hun, hrange, ?_, rfl⟩⟩
            rwa [Option.isNone_iff_eq_none, ← ne_eq, Option.ne_none_iff_isSome] at hslice

/-- A plan for one capture group of sources is for some of them, in their order. -/
theorem planGroup_sublist {group : Nat} {ids : List NodeId} {plan : Plan}
    (h : (t.planGroup name glyph group ids).1 = .ok plan) : (plan.map Prod.fst).Sublist ids := by
  induction ids generalizing plan with
  | nil =>
    cases h
    exact .refl _
  | cons id ids ih =>
    obtain ⟨rest, hrest, rfl | ⟨range, -, -, -, rfl⟩⟩ := planGroup_cons h
    · exact (ih hrest).cons id
    · exact (ih hrest).cons_cons id

/-- Each cut of the plan is that of a group; what is hidden has no groups of its own. -/
theorem mem_planGroup {group : Nat} {ids : List NodeId} {plan : Plan}
    (h : (t.planGroup name glyph group ids).1 = .ok plan) : ∀ x ∈ plan,
      ∃ range, (t.node x.1).isUnfolded = false ∧ (t.node x.1).groupSpan? group = some range ∧
        ((t.node x.1).text.slice? range).isSome = true ∧
        x.2 = t.wholeCuts x.1 [⟨range, glyph, .fresh name none⟩] := by
  induction ids generalizing plan with
  | nil =>
    cases h
    simp
  | cons id ids ih =>
    obtain ⟨rest, hrest, rfl | ⟨range, hun, hrange, hslice, rfl⟩⟩ := planGroup_cons h
    · exact ih hrest
    · exact List.forall_mem_cons.2 ⟨⟨range, hun, hrange, hslice, rfl⟩, ih hrest⟩

theorem Layout.cutting_group {cs : Cells} {range : Span} (h : Layout t p cs)
    (hslice : ((t.node p).text.slice? range).isSome = true) :
    Cutting t p (t.wholeCuts p [⟨range, glyph, .fresh name none⟩]) := by
  obtain ⟨b, hb⟩ := Option.isSome_iff_exists.1 hslice
  refine h.cutting_wholeCuts ?_ fun c hc => ⟨name, none, by rw [List.mem_singleton.1 hc]⟩
  rw [← h.text, List.map_singleton]
  exact .of_slice? hb

theorem Shaped.mem_groupSources (hs : Shaped t) {scope source : Text}
    (h : id ∈ t.groupSources scope source) : id < t.size :=
  hs.lt_of_mem_documentOrder (List.mem_filter.1 (List.mem_filter.1 h).1).1

/-! ### What is left -/

theorem Layout.fitting_restCuts {cs : Cells} (h : Layout t p cs) :
    Fitting t p (t.restCuts name glyph p) := by
  have hmem : ∀ c ∈ t.restCuts name glyph p, c.range ∈ t.literalRuns p ∧
      c.origin = .fresh name none := by
    intro c hc
    obtain ⟨run, hrun, rfl⟩ := List.mem_map.1 hc
    exact ⟨hrun, rfl⟩
  have hfree := fun c hc => h.free_of_mem_literalRuns (hmem c hc).1
  refine (h.cutting ?_ (fun c hc => ⟨name, none, (hmem c hc).2⟩) fun c hc a s b he hr => ?_).fitting
    fun c hc => (hfree c hc).1
  · simpa [restCuts, Function.comp_def] using h.pieces_literalRuns
  · have hfree := (hfree c hc).2
    rw [hr, he] at hfree
    rw [hfree.eq_plain]
    exact closed_of_nest (nest_plain [] _)

/-- The plan that hides what is literal in the targets with children. -/
def restPlan (t : Tree) (name : Text) (glyph : Char) (target : Text) : Plan :=
  ((t.targets target).filter fun id => !(t.children id).isEmpty).map fun id =>
    (id, t.restCuts name glyph id)

theorem Shaped.fitting_restPlan (hs : Shaped t) (target : Text) :
    ((t.restPlan name glyph target).map Prod.fst).Nodup ∧
      ∀ x ∈ t.restPlan name glyph target, Fitting t x.1 x.2 ∧
        ∀ c ∈ x.2, c.origin = .fresh name none := by
  refine ⟨?_, fun x hx => ?_⟩
  · simpa [restPlan, Function.comp_def] using (hs.nodup_targets target).filter _
  · obtain ⟨id, hid, rfl⟩ := List.mem_map.1 hx
    obtain ⟨cs, hl⟩ := hs.layout id (hs.mem_targets (List.mem_filter.1 hid).1)
    refine ⟨hl.fitting_restCuts, fun c hc => ?_⟩
    obtain ⟨run, -, rfl⟩ := List.mem_map.1 hc
    rfl

end Tree

end GlyphTree
