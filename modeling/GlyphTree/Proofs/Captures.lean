import GlyphTree.Proofs.GroupTables
import GlyphTree.Proofs.Orders
import GlyphTree.Proofs.Resolved

/-!
# Captured text

The groups of a node index its body, and hides put glyphs there. What a group captures is told by
where its ends are in the text that the body stands for (`Captures`). A change that patches a text
with cells that stand for the same widens a group at most, and not even that if what goes is inside of
the group or apart from it (`Follows.keeps`). So no hide, unfold or fold takes from a group what it
captured when its node was made, and unhiding everything gives it back (`Reachable.groups_capture`).
-/

namespace GlyphTree

open Cells Patch

namespace Span

/-- The span lies within another one. -/
def Contains (outer inner : Span) : Prop := outer.start ≤ inner.start ∧ inner.stop ≤ outer.stop

/-- The spans share no byte; they may touch. -/
def Apart (r s : Span) : Prop := r.stop ≤ s.start ∨ s.stop ≤ r.start

instance (r s : Span) : Decidable (r.Contains s) := inferInstanceAs (Decidable (_ ∧ _))
instance (r s : Span) : Decidable (r.Apart s) := inferInstanceAs (Decidable (_ ∨ _))

end Span

namespace Node

variable {m n : Node} {k : Nat}

theorem groupSpan?_congr (h : m.groups = n.groups) : m.groupSpan? k = n.groupSpan? k := by
  unfold groupSpan?
  rw [h]

theorem groupSpan?_mapGroups (f : Span → Option Span) :
    (n.mapGroups f).groupSpan? k = (n.groupSpan? k).bind f := by
  cases k with
  | zero => rfl
  | succ i =>
    cases hg : n.groups with
    | none => simp [groupSpan?, mapGroups, hg]
    | some gs =>
      cases hi : gs[i]? <;> simp [groupSpan?, mapGroups, hg, hi]

theorem records_of_groupSpan? {g : Span} (h : n.groupSpan? k = some g) : n.Records g := by
  unfold groupSpan? at h
  split at h
  · rename_i i gs hgs
    exact ⟨gs, hgs, List.mem_of_getElem? (Option.join_eq_some_iff.1 h)⟩
  · cases h

end Node

namespace Tree

variable {t t' u : Tree} {p q x c id : NodeId} {k off off' s e s' e' : Nat} {b cs : Cells}
  {F : Fold} {M : Stretch} {whole : Text}

/-! ## Regions -/

/-- Where the body of a node is: its own text, or while it is unfolded what is between its markers in
the text of its parent. -/
def bodyPlace (t : Tree) (x : NodeId) : Place :=
  match (t.node x).place, (t.node x).fold with
  | some pl, some F =>
    ⟨pl.parent, ⟨pl.span.start + F.opening.utf8Size, pl.span.stop - F.closing.utf8Size⟩⟩
  | _, _ => ⟨x, ⟨0, (t.node x).text.byteSize⟩⟩

/-- If the region is in the body of `x`, it is inside of group `k` of `x` or apart from it. -/
def Spares (t : Tree) (x : NodeId) (k : Nat) (region : Place) : Prop :=
  region.parent = (t.bodyPlace x).parent → (t.bodyPlace x).span.Contains region.span →
    ∀ g ∈ (t.node x).groupSpan? k, g.Contains region.span ∨ g.Apart region.span

instance (t : Tree) (x : NodeId) (k : Nat) (region : Place) : Decidable (t.Spares x k region) :=
  inferInstanceAs (Decidable (_ → _ → _))

theorem Body.exists_layout (h : Body t x q off b) :
    ∃ l e, Layout t q (l ++ b ++ e) ∧ l.size = off := by
  cases h with
  | own _ hl => exact ⟨[], [], by simpa using hl, rfl⟩
  | lent hf hl => exact ⟨_, _, unfoldedCells_eq .. ▸ hl, size_append_opening ..⟩

theorem bodyPlace_of_folded (hf : (t.node x).fold = none) :
    t.bodyPlace x = ⟨x, ⟨0, (t.node x).text.byteSize⟩⟩ := by
  rw [bodyPlace, hf]
  cases (t.node x).place <;> rfl

theorem bodyPlace_parent (hf : (t.node x).fold = some F) (hp : (t.node x).parent = some q) :
    (t.bodyPlace x).parent = q := by
  obtain ⟨pl, hpl, rfl⟩ := Option.map_eq_some_iff.1 hp
  rw [bodyPlace, hf, hpl]

theorem Body.bodyPlace (h : Body t x q off b) : t.bodyPlace x = ⟨q, ⟨off, off + b.size⟩⟩ := by
  cases h with
  | own hf hl =>
    rw [bodyPlace_of_folded hf, hl.text, Nat.zero_add]
    rfl
  | lent hf hl =>
    rw [Tree.bodyPlace, hf, hl.place_of_unfolded]
    simp

/-! ## Captures -/

/-- Group `k` of `x` captures what is between the bytes `s` and `e` of the text `whole` for which the
body of `x` stands. -/
def Captures (t : Tree) (x : NodeId) (k : Nat) (whole : Text) (s e : Nat) : Prop :=
  ∃ q off u m v, Body t x q off (u ++ m ++ v) ∧
    (t.node x).groupSpan? k = some (Span.shiftUp ⟨u.size, (u ++ m).size⟩ off) ∧
    fill t.reading (u ++ m ++ v) = whole ∧ (fill t.reading u).byteSize = s ∧
    (fill t.reading (u ++ m)).byteSize = e

/-- Whatever group `k` of `x` captures in `t` it captures in `t'`; if `sharp` holds, it captures no
more. -/
def Keeps (t t' : Tree) (x : NodeId) (k : Nat) (sharp : Prop) : Prop :=
  ∀ ⦃whole s e⦄, Captures t x k whole s e → ∃ s' e', Captures t' x k whole s' e' ∧
    s' ≤ s ∧ e ≤ e' ∧ (sharp → s' = s ∧ e' = e)

section
variable {sharp sharp' : Prop}

theorem Keeps.refl (t : Tree) (x : NodeId) (k : Nat) : Keeps t t x k sharp := fun _ _ _ h =>
  ⟨_, _, h, Nat.le_refl _, Nat.le_refl _, fun _ => ⟨rfl, rfl⟩⟩

theorem Keeps.trans (h : Keeps t u x k sharp) (h' : Keeps u t' x k sharp') :
    Keeps t t' x k (sharp ∧ sharp') := by
  intro whole s e hc
  obtain ⟨s₁, e₁, hc, hs₁, he₁, hsharp⟩ := h hc
  obtain ⟨s₂, e₂, hc, hs₂, he₂, hsharp'⟩ := h' hc
  refine ⟨s₂, e₂, hc, hs₂.trans hs₁, he₁.trans he₂, fun hb => ?_⟩
  exact ⟨(hsharp' hb.2).1.trans (hsharp hb.1).1, (hsharp' hb.2).2.trans (hsharp hb.1).2⟩

theorem Keeps.of_imp (h : Keeps t t' x k sharp)
    (hi : ∀ ⦃whole s e⦄, Captures t x k whole s e → sharp' → sharp) : Keeps t t' x k sharp' := by
  intro whole s e hc
  obtain ⟨s', e', hc', hs, he, hsharp⟩ := h hc
  exact ⟨s', e', hc', hs, he, fun hb => hsharp (hi hc hb)⟩

end

/-! ## One change -/

/-- A change after which hidden nodes stand for what they stood for, and new cells for what was
there. -/
structure Restates (t t' : Tree) (M : Stretch) : Prop where
  hidden : ∀ c, c < t.size → (t.node c).fold = none → (t'.node c).fold = none →
    t'.reading c = t.reading c
  patched : ∀ y ∈ M.patches, fill t'.reading y.new = fill t.reading y.gone

theorem Layout.glyph {ch : Char} (h : Layout t p cs) (hm : ⟨ch, some (.glyph c)⟩ ∈ cs) :
    c < t.size ∧ (t.node c).fold = none := by
  obtain ⟨a, b, rfl⟩ := List.append_of_mem hm
  have hstands := (fits_some.1 (fits_append.1 h.fits).2).1
  exact ⟨h.lt_size (by rw [h.children]; simp), hstands.2⟩

theorem Body.glyph {ch : Char} (h : Body t x q off b) (hm : ⟨ch, some (.glyph c)⟩ ∈ b) :
    c < t.size ∧ (t.node c).fold = none := by
  obtain ⟨l, e, hl, -⟩ := h.exists_layout
  exact hl.glyph (List.mem_append_left _ (List.mem_append_right _ hm))

theorem Restates.refills {B : Stretch} (h : Restates t t' M) (hb : Body t x p off B.old)
    (hb' : Body t' x q off' B.new)
    (hB : ∀ y ∈ B.patches, fill t'.reading y.new = fill t.reading y.gone) :
    B.Refills t.reading t'.reading where
  kept y hy hy' := fill_cell fun ch c he => by
    obtain ⟨hlt, hf⟩ := hb.glyph (he ▸ hy)
    exact h.hidden c hlt hf (hb'.glyph (he ▸ hy')).2
  patched := hB

/-- No end of a group that is spared is inside of a region that goes. -/
theorem Body.clear {B : Stretch} {r : Span} (hb : Body t x q off B.old)
    (hB : B.patches = [] ∨ q = p ∧ M.Part off B)
    (hg : (t.node x).groupSpan? k = some (r.shiftUp off)) (hr : r.start ≤ r.stop)
    (hs : ∀ e ∈ M.edits 0, t.Spares x k ⟨p, e.range⟩) :
    Clear (B.edits 0) r.start ∧ Clear (B.edits 0) r.stop := by
  have hspared : ∀ e ∈ B.edits 0, (r.shiftUp off).Contains (e.range.shiftUp off) ∨
      (r.shiftUp off).Apart (e.range.shiftUp off) := by
    intro e he
    rcases hB with hnil | ⟨rfl, hpart⟩
    · rw [Stretch.edits, hnil] at he
      cases he
    · obtain ⟨y, -, a, d, ha, hrange⟩ := Stretch.exists_of_mem_edits he
      have hmem : e.shiftUp off ∈ B.edits off := by
        have := Patch.edits_add 0 off B.patches
        rw [Nat.zero_add] at this
        rw [Stretch.edits, this]
        exact List.mem_map_of_mem he
      refine hs _ (Stretch.mem_edits_of_part hpart hmem) ?_ ?_ _ hg
      · rw [hb.bodyPlace]
      · rw [hb.bodyPlace, ha]
        simp only [Edit.shiftUp, hrange, Span.shiftUp, Span.Contains, size_append]
        omega
  simp only [Span.Contains, Span.Apart, Span.shiftUp] at hspared
  refine ⟨fun e he => ?_, fun e he => ?_⟩
  · have := hspared e he
    omega
  · have := hspared e he
    omega

theorem Follows.keeps (hF : Follows t t' p M) (hR : Restates t t' M) (ht : Tabled t) :
    Keeps t t' x k (∀ e ∈ M.edits 0, t.Spares x k ⟨p, e.range⟩) := by
  rintro whole s e ⟨q, off, u, m, v, hb, hg, rfl, rfl, rfl⟩
  obtain ⟨B, q', off', hB, hc, hpart⟩ := hF.seated (ht.seated hb)
  have hr : B.Refills t.reading t'.reading := by
    refine hR.refills (hB ▸ hb) hc.body ?_
    rcases hpart with hnil | ⟨-, hpart⟩
    · rw [hnil]
      exact fun _ hy => absurd hy List.not_mem_nil
    · exact hpart.forall_patches (P := fun g n => fill t'.reading n = fill t.reading g) hR.patched
  obtain ⟨u', m', v', hnew, hspan, hle, hge, hsharp⟩ := hr.remapSpan hB
  refine ⟨_, _, ⟨q', off', u', m', v', hnew ▸ hc.body, ?_, ?_, rfl, rfl⟩, hle, hge, fun hs => ?_⟩
  · rw [Node.groupSpan?_congr hc.groups, Node.groupSpan?_mapGroups, hg, Option.bind_some,
      Span.shiftDown_shiftUp, hspan]
  · rw [← hnew, hr.fill, hB]
  · obtain ⟨hstart, hstop⟩ := Body.clear (r := ⟨u.size, (u ++ m).size⟩) (hB ▸ hb) hpart hg
      (by rw [size_append]; exact Nat.le_add_right ..) hs
    exact hsharp hstart hstop

/-! ### Regions of one character -/

/-- A region of one character is inside of a group or apart from it. -/
theorem Captures.spares {a d : Cells} {y : Cell} (h : Captures t x k whole s e)
    (hl : Layout t p (a ++ y :: d)) :
    t.Spares x k ⟨p, ⟨a.size, a.size + y.char.utf8Size⟩⟩ := by
  obtain ⟨q, off, u, m, v, hb, hg, -, -, -⟩ := h
  obtain ⟨l, r, hq, rfl⟩ := hb.exists_layout
  intro hparent _ g hg'
  obtain rfl : g = _ := Option.some.inj ((Option.mem_def.1 hg').symm.trans hg)
  obtain rfl : p = q := hparent.trans (by rw [hb.bodyPlace])
  have hcells := hl.unique hq
  have hbeside : ∀ w z : Cells, a ++ y :: d = w ++ z →
      w.size ≤ a.size ∨ a.size + y.char.utf8Size ≤ w.size := by
    intro w z hwz
    have hw : (a.text ++ y.char :: d.text).Boundary 0 w.size := by
      refine ⟨w.text, z.text, ?_, by simp [Cells.size]⟩
      rw [← text_cons, ← text_append, ← text_append, hwz]
    simpa [Cells.size] using hw.beside
  have h1 := hbeside (l ++ u) (m ++ v ++ r) (by simp [hcells])
  have h2 := hbeside (l ++ (u ++ m)) (v ++ r) (by simp [hcells])
  simp only [Span.Contains, Span.Apart, Span.shiftUp, size_append] at *
  omega

/-- Where all that goes is single characters nothing is captured more. -/
theorem Follows.keeps_sharp (hF : Follows t t' p M) (hR : Restates t t' M) (ht : Tabled t)
    (hg : ∀ g ∈ M.gone, ∃ y, g = [y]) : Keeps t t' x k True := by
  refine (hF.keeps hR ht).of_imp fun _ _ _ hc _ e he => ?_
  obtain ⟨y, hy, a, d, ha, hr⟩ := Stretch.exists_of_mem_edits he
  obtain ⟨z, hz⟩ := hg y.gone (List.mem_map_of_mem hy)
  have hl := hF.old
  rw [ha, hz, List.append_assoc] at hl
  have := hc.spares hl
  rwa [hr, hz, Nat.zero_add, size_cons, size_nil, Nat.add_zero]

/-! ## Operations -/

/-- The glyph of each fresh node stands for what is in its region. -/
theorem Landed.fill_patches {n o : Nat} {rs : List Region} (h : Landed t t' n o rs)
    (hs : Shaped t') : ∀ y ∈ Region.markedPatches n rs,
      fill t'.reading y.new = fill t'.reading y.gone := by
  induction rs generalizing n o with
  | nil => exact fun _ hy => absurd hy List.not_mem_nil
  | cons r rs ih =>
    refine List.forall_mem_cons.2 ⟨?_, ih h.2⟩
    rw [fill_glyph, fill_nil, List.append_nil, hs.reading_eq h.1.layout]

theorem Layout.fill_part {b : Cells} {r : NodeId → Text} (h : Layout t p cs) (hb : ∀ y ∈ b, y ∈ cs)
    (hr : ∀ c, c < t.size → (t.node c).fold = none → r c = t.reading c) :
    fill r b = fill t.reading b :=
  fill_congr_cells fun y hy => fill_cell fun ch c he => by
    obtain ⟨hlt, hf⟩ := h.glyph (he ▸ hb y hy)
    exact hr c hlt hf

section
variable {a d z : Cells} {rs : List Region}

theorem Spliced.restates (s : Spliced t t' p rs z) (h : Layout t p (Region.cells rs z))
    (hs : Shaped t) (hs' : Shaped t') : Restates t t' (Region.stretch t.size rs z) where
  hidden _ hlt _ _ := s.reading h hs hs' hlt
  patched y hy := by
    rw [s.landed.fill_patches hs' y hy]
    obtain ⟨r, hr, hgone⟩ : ∃ r ∈ rs, y.gone = r.gone := by
      have : y.gone ∈ (Region.stretch t.size rs z).gone := List.mem_map_of_mem hy
      rw [Region.gone_stretch] at this
      obtain ⟨r, hr, he⟩ := List.mem_map.1 this
      exact ⟨r, hr, he.symm⟩
    obtain ⟨l, e, -, -, hcells, -⟩ := Region.exists_cut (o := 0) z hr
    rw [hgone]
    exact h.fill_part (by simp +contextual [hcells]) fun c hlt _ => s.reading h hs hs' hlt

section
variable {f : Tree} (h : Folding u f p id a b d F) (hu : Shaped u) (hf : Shaped f)
include h hu hf

/-- The node stands for its body, hidden or not. -/
theorem Folding.fill_body : fill u.reading b = f.reading id := by
  rw [hf.reading_eq h.body]
  refine (h.around.fill_part (by simp +contextual [unfoldedCells]) fun c hlt hc =>
    h.reading hu hf hlt ?_).symm
  rintro rfl
  cases hc.symm.trans h.unfolded

theorem Folding.restates_fold : Restates u f (foldStretch id F a b d) where
  hidden c hlt hc _ := h.reading hu hf hlt fun e => by cases (e ▸ hc).symm.trans h.unfolded
  patched y hy := by
    obtain rfl := List.mem_singleton.1 hy
    simp [foldPatch, h.fill_body hu hf]

theorem Folding.restates_unfold : Restates f u (unfoldStretch id F a b d) where
  hidden c hlt _ hc := (h.reading hu hf (h.size ▸ hlt) fun e => by
    cases (e ▸ hc).symm.trans h.unfolded).symm
  patched y hy := by
    obtain rfl := List.mem_singleton.1 hy
    simp [h.fill_body hu hf]

end

theorem Layout.restates_expandChildren (h : Layout t p cs) (hs : Shaped t)
    (hs' : Shaped (t.expandChildren p))
    (hc : ∀ c ∈ t.children p, (t.node c).fold = none ∧ t.children c = []) :
    Restates t (t.expandChildren p) (t.expandStretch cs) where
  hidden c hlt _ _ := (h.expanded fun c hm => (hc c hm).1).reading hs hs' h
    (fun c hm => (hc c hm).2) hlt
  patched y hy := by
    obtain ⟨ch, m, hm, hgone, hnew⟩ := mem_patches_expansion hy
    have hid : m.id ∈ t.children p := by
      rw [h.children, ← h.nested.mem_ids]
      exact List.mem_filterMap.2 ⟨_, hm, rfl⟩
    obtain ⟨hf, hkids⟩ := hc _ hid
    rw [hgone, hnew, fill_plain, resolveId, Node.isUnfolded_of_none hf]
    obtain ⟨l, r, rfl⟩ := List.append_of_mem hm
    have hstands := (fits_some.1 (fits_append.1 h.fits).2).1
    cases m with
    | glyph c =>
      rw [fill_glyph, fill_nil, List.append_nil]
      exact (hs.reading_of_childless (h.lt_size hid) hkids).symm
    | opening c =>
      obtain ⟨_, F, -, hF, -⟩ := hstands
      cases hf.symm.trans hF
    | closing c =>
      obtain ⟨_, F, -, hF, -⟩ := hstands
      cases hf.symm.trans hF

end

section
variable (ht : Tabled t)
include ht

theorem Tabled.keeps_unfold (id : NodeId) (openLabel closeLabel : Text) :
    Keeps t (t.unfold id openLabel closeLabel).tree x k True := by
  rcases ht.shaped.unfold_cases id openLabel closeLabel with ⟨he, -⟩ | ⟨-, -, p, a, b, d, F, hh, he⟩
  · rw [he]
    exact Keeps.refl ..
  · rw [he]
    refine (hh.follows_unfoldAt ht.shaped).keeps_sharp
      (hh.folding.restates_unfold (ht.unfoldAt hh).tabled.shaped ht.shaped) ht fun g hg => ?_
    exact ⟨_, List.mem_singleton.1 hg⟩

theorem Tabled.keeps_expandChildren (hl : Layout t p cs) (hs : Shaped (t.expandChildren p))
    (hc : ∀ c ∈ t.children p, (t.node c).fold = none ∧ t.children c = []) :
    Keeps t (t.expandChildren p) x k True := by
  by_cases hne : t.children p = []
  · rw [expandChildren_of_childless hne]
    exact Keeps.refl ..
  · refine (hl.follows_expandChildren ht.shaped hne fun c hm => (hc c hm).1).keeps_sharp
      (hl.restates_expandChildren ht.shaped hs hc) ht fun g hg => ?_
    obtain ⟨y, hy, rfl⟩ := List.mem_map.1 hg
    obtain ⟨ch, m, -, hgone, -⟩ := mem_patches_expansion hy
    exact ⟨_, hgone⟩

theorem Tabled.keeps_foldBack {a b d : Cells}
    (h : Folding t (t.foldedBack p id F a b d) p id a b d F) :
    Keeps t (t.foldedBack p id F a b d) x k
      (∀ pl ∈ (t.node id).place, t.Spares x k pl) := by
  refine ((h.around.follows_foldBack ht.shaped h.unfolded).keeps
    (h.restates_fold ht.shaped (ht.foldBack h).tabled.shaped) ht).of_imp fun _ _ _ _ hs e he => ?_
  obtain rfl := List.mem_singleton.1 he
  have := hs _ h.around.place_of_unfolded
  simpa [foldPatch, Nat.add_assoc] using this

end

/-! ### Plans -/

section
variable {z : Cells} {rs : List Region} {region : Place}

/-- The bodies in the text of another node than the one cut stay where they are. -/
theorem Spliced.bodyPlace (s : Spliced t t' p rs z) (h : Layout t p (Region.cells rs z))
    (hs : Shaped t) (hrs : rs ≠ []) (hpos : ∀ r ∈ rs, 0 < r.gone.size)
    (hne : (t'.bodyPlace x).parent ≠ p) (hlt : (t'.bodyPlace x).parent < t.size) :
    t'.bodyPlace x = t.bodyPlace x ∧ (t'.node x).groupSpan? k = (t.node x).groupSpan? k := by
  cases hf : (t'.node x).fold with
  | none =>
    rw [bodyPlace_of_folded hf] at hne hlt ⊢
    obtain ⟨htext, -, -, hfold⟩ := s.content h hlt hne
    have hf' := hfold.symm.trans hf
    rw [bodyPlace_of_folded hf', htext]
    exact ⟨rfl, Node.groupSpan?_congr (s.groups h hlt hne (.inl (Node.isUnfolded_of_none hf')))⟩
  | some F =>
    have hu : (t.node x).isUnfolded = true := by
      rw [← s.isUnfolded h, Node.isUnfolded_of_some hf]
    have hx : x < t.size := by
      by_contra hge
      rw [node_eq_default (Nat.not_lt.1 hge)] at hu
      cases hu
    have hxp : x ≠ p := by
      rintro rfl
      obtain ⟨r, rs, rfl⟩ := List.exists_cons_of_ne_nil hrs
      have hcells := (hs.hollow _ hu).unique h
      have := hpos r (List.mem_cons_self ..)
      have hsize := congrArg Cells.size hcells
      rw [Region.cells_cons, size_append, size_append, size_nil] at hsize
      omega
    have hxc : x ∉ t.children p := by
      intro hx'
      rcases h.mem_children_cells.1 hx' with hb | hin
      · refine hne (bodyPlace_parent hf ?_)
        rw [s.stays x hb, ← h.parent hx', Node.parent, followEdits_place, Option.map_map]
        rfl
      · obtain ⟨l, r, e, m, -, htaken, hxr⟩ := s.landed.exists_region (z := z) hin
        have hxm : x ∈ t'.children m := htaken.layout.children ▸ hxr
        rw [bodyPlace_parent hf (htaken.layout.parent hxm)] at hne hlt
        rw [(s.content h hlt hne).2.1] at hxm
        exact hne (hs.parent_unique hxm hx')
    have hnode := s.other x hx hxp hxc
    exact ⟨by rw [Tree.bodyPlace, Tree.bodyPlace, hnode], by rw [hnode]⟩

/-- Cutting one node spares what it spared in the other ones. -/
theorem Spliced.spares (s : Spliced t t' p rs z) (h : Layout t p (Region.cells rs z))
    (hs : Shaped t) (hrs : rs ≠ []) (hpos : ∀ r ∈ rs, 0 < r.gone.size)
    (hne : region.parent ≠ p) (hlt : region.parent < t.size) (hr : t.Spares x k region) :
    t'.Spares x k region := by
  intro hparent hin g hg
  obtain ⟨hbody, hgroup⟩ := s.bodyPlace (k := k) h hs hrs hpos (hparent ▸ hne) (hparent ▸ hlt)
  exact hr (hbody ▸ hparent) (hbody ▸ hin) g (hgroup ▸ hg)

end

/-- All regions of the plan are inside of group `k` of `x` or apart from it, if they are in the body
of `x`. -/
def SparesPlan (t : Tree) (x : NodeId) (k : Nat) (plan : Plan) : Prop :=
  ∀ en ∈ plan, ∀ cut ∈ en.2, t.Spares x k ⟨en.1, cut.range⟩

theorem Tabled.keeps_applyPlan {plan : Plan} (ht : Tabled t) (hw : WellFormed t)
    (hp : Feasible t plan) : Keeps t (t.applyPlan plan) x k (t.SparesPlan x k plan) := by
  refine (ht.applyPlan_induct (P := fun rest u => Keeps t u x k (t.SparesPlan x k plan) ∧
    (t.SparesPlan x k plan → u.SparesPlan x k rest)) hw hp ?_ ?_ ⟨Keeps.refl .., id⟩).1
  · exact fun h => ⟨h.1, fun hs => (List.forall_mem_cons.1 (h.2 hs)).2⟩
  · rintro u p rest rs z ⟨hk, hsp⟩ hu hl hrs hpos hs hr hrest
    have hstep := (hs.follows hl hu.shaped hrs hpos).keeps (x := x) (k := k)
      (hs.restates hl hu.shaped hr.tabled.shaped) hu
    refine ⟨(hk.trans hstep).of_imp fun _ _ _ _ h => ⟨h, fun e he => ?_⟩, fun h en hen cut hcut => ?_⟩
    · rw [Region.edits_stretch, ← Region.edits_patch] at he
      obtain ⟨cut, hcut, rfl⟩ := List.mem_map.1 he
      exact hsp h _ (List.mem_cons_self ..) cut hcut
    · exact hs.spares hl hu.shaped hrs hpos (hrest en hen).1 (hrest en hen).2
        (hsp h en (List.mem_cons_of_mem _ hen) cut hcut)

/-! ### Folds -/

/-- All regions that are folded back when nodes are, in the given order, are inside of group `k` of
`x` or apart from it, if they are in the body of `x`. -/
def SparesFolds (x : NodeId) (k : Nat) : List NodeId → Tree → Prop
  | [], _ => True
  | id :: ids, t =>
    match t.foldBack id with
    | none => SparesFolds x k ids t
    | some (t', _) =>
      (∀ region ∈ (t.node id).place, t.Spares x k region) ∧ SparesFolds x k ids t'

theorem foldBack_of_unlisted (h : ∀ q, id ∉ t.children q) : t.foldBack id = none := by
  unfold foldBack
  split
  · exact if_neg (by simpa using h _)
  · rfl

theorem Folds.keeps {folds : List NodeId} (h : Folds t folds t') (ht : Tabled t) :
    Keeps t t' x k (SparesFolds x k folds t) := by
  induction h with
  | done => exact Keeps.refl ..
  | skip hno _ ih =>
    refine (ih ht).of_imp fun _ _ _ _ hs => ?_
    rwa [SparesFolds, foldBack_of_unlisted hno] at hs
  | back hF _ ih =>
    refine ((ht.keeps_foldBack hF).trans (ih (ht.foldBack hF).tabled)).of_imp fun _ _ _ _ hs => ?_
    obtain ⟨events, he⟩ := hF.around.foldBack_eq hF.unfolded
    rwa [SparesFolds, he] at hs

theorem Captures.alike (h : Captures t x k whole s e) (hs : Shaped t) (ha : Alike t t')
    (hg : (t'.node x).groups = (t.node x).groups) : Captures t' x k whole s e := by
  obtain ⟨q, off, u, m, v, hb, hspan, rfl, rfl, rfl⟩ := h
  obtain ⟨l, r, hl, -⟩ := hb.exists_layout
  have hfill : ∀ {b : Cells}, b ⊆ u ++ m ++ v → fill t'.reading b = fill t.reading b := fun hb =>
    hl.fill_part (fun y hy => List.mem_append_left _ (List.mem_append_right _ (hb hy)))
      fun c hlt _ => ha.reading hs hlt
  refine ⟨q, off, u, m, v, ha.kept.body hs hb (by simp) (ha.fold x),
    (Node.groupSpan?_congr hg).trans hspan, ?_, ?_, ?_⟩
  · rw [hfill (List.Subset.refl _)]
  · rw [hfill (by simp [List.append_assoc])]
  · rw [hfill (by simp)]

section
variable (ht : Tabled t) (hw : WellFormed t)
include ht hw

theorem Tabled.keeps_foldAll :
    Keeps t t.foldAll.tree x k (SparesFolds x k t.folds { t with folds := [] }) := by
  have hr : Retains [] t { t with folds := [] } := ht.beside rfl
  exact fun _ _ _ hc =>
    hw.folds_foldAll.1.keeps hr.tabled (hc.alike ht.shaped (alike_folds t []) rfl)

theorem Tabled.keeps_unhideAll :
    Keeps t t.unhideAll.tree x k (SparesFolds x k t.folds { t with folds := [] }) := by
  have hf := hw.faithful_foldAll.wellFormed
  have hst := hw.folds_foldAll.2 ▸ hf.stacked
  rw [unhideAll_tree]
  refine (hf.shaped.expand_induct (P := fun u => Tabled u ∧ Keeps t u x k _) hst ?_
    ⟨(ht.foldAll hw).tabled, ht.keeps_foldAll hw⟩).2
  rintro u y cs ⟨hu, hk⟩ - hs hl hc
  refine ⟨(hu.expandChildren hl hs fun c hm => (hc c hm).1).tabled, ?_⟩
  exact (hk.trans (hu.keeps_expandChildren hl hs hc)).of_imp fun _ _ _ _ h => ⟨h, trivial⟩

end

end Tree

/-! ## Histories -/

/-- Whether a command folds back what is unfolded. -/
def Command.foldsBack : Command → Bool
  | .foldAll | .unhideAll => true
  | _ => false

/-- Whether a command hides the matches of a pattern. -/
def Command.hidesMatches : Command → Bool
  | .hideAll .. | .hideAny .. => true
  | _ => false

namespace Tree

variable {t t' u : Tree} {x id : NodeId} {k s e : Nat} {cs : Cells} {whole : Text}
  {history : List Command} {g : Span}

/-- Each region in the body of `x` that the command hides or folds back is inside of group `k` of `x`
or apart from it. -/
def SparesCommand (t : Tree) (x : NodeId) (k : Nat) (c : Command) : Prop :=
  t.SparesPlan x k (t.planOf c) ∧
    (c.foldsBack = true → SparesFolds x k t.folds { t with folds := [] })

/-- Each region in the body of `x` that is hidden or folded back in the course of a history is inside
of group `k` of `x` or apart from it. -/
def SparesAll (x : NodeId) (k : Nat) : List Command → Tree → Prop
  | [], _ => True
  | c :: cs, t => t.SparesCommand x k c ∧ SparesAll x k cs (t.perform c).tree

instance (plan : Plan) : Decidable (t.SparesPlan x k plan) :=
  inferInstanceAs (Decidable (∀ en ∈ plan, ∀ cut ∈ en.2, t.Spares x k ⟨en.1, cut.range⟩))

instance decidableSparesFolds (x : NodeId) (k : Nat) :
    (ids : List NodeId) → (t : Tree) → Decidable (SparesFolds x k ids t)
  | [], _ => isTrue trivial
  | id :: ids, t =>
    match he : t.foldBack id with
    | none =>
      have := decidableSparesFolds x k ids t
      decidable_of_iff (SparesFolds x k ids t) (by rw [SparesFolds, he])
    | some (t', events) =>
      have := decidableSparesFolds x k ids t'
      decidable_of_iff ((∀ region ∈ (t.node id).place, t.Spares x k region) ∧ SparesFolds x k ids t')
        (by rw [SparesFolds, he])

instance (c : Command) : Decidable (t.SparesCommand x k c) :=
  inferInstanceAs (Decidable (_ ∧ (_ → _)))

instance decidableSparesAll (x : NodeId) (k : Nat) :
    (history : List Command) → (t : Tree) → Decidable (SparesAll x k history t)
  | [], _ => isTrue trivial
  | c :: cs, t =>
    have := decidableSparesAll x k cs (t.perform c).tree
    inferInstanceAs (Decidable (t.SparesCommand x k c ∧ SparesAll x k cs (t.perform c).tree))

theorem Tabled.keeps_perform (ht : Tabled t) (hw : WellFormed t) {c : Command} (ha : t.Admits c)
    (hc : c.movesNodes = true ∨ c = .unhideAll) :
    Keeps t (t.perform c).tree x k (t.SparesCommand x k c) := by
  have hplan : (t.perform c).tree = t.applyPlan (t.planOf c) →
      Keeps t (t.perform c).tree x k (t.SparesCommand x k c) := fun he => by
    rw [he]
    exact (ht.keeps_applyPlan hw (ht.shaped.feasible_planOf ha)).of_imp fun _ _ _ _ hs => hs.1
  cases c with
  | hideAll name pattern label target => exact hplan (hideMatches_tree t name pattern label target)
  | hideAny name pattern label target => exact hplan (hideMatches_tree t name pattern label target)
  | hideGroup name label group scope source =>
    exact hplan (hideGroup_tree t name label group scope source)
  | hideRest name label target => exact hplan (hideRest_tree t name label target)
  | unfold id openLabel closeLabel =>
    exact (ht.keeps_unfold id openLabel closeLabel).of_imp fun _ _ _ _ _ => trivial
  | foldAll => exact (ht.keeps_foldAll hw).of_imp fun _ _ _ _ hs => hs.2 rfl
  | unhideAll => exact (ht.keeps_unhideAll hw).of_imp fun _ _ _ _ hs => hs.2 rfl
  | _ => simp [Command.movesNodes] at hc

/-- No hide, unfold or fold, and no way to unhide everything, loses what a group has captured. -/
theorem Reachable.keeps_after (h : Reachable t) (ha : AdmitsAll t history)
    (hm : ∀ c ∈ history, c.movesNodes = true ∨ c = .unhideAll) :
    Keeps t (t.after history) x k (SparesAll x k history t) := by
  induction history generalizing t with
  | nil => exact Keeps.refl ..
  | cons c history ih =>
    obtain ⟨hc, hm⟩ := List.forall_mem_cons.1 hm
    exact (h.tabled.keeps_perform h.wellFormed ha.1 hc).trans (ih (h.step ha.1) ha.2 hm)

/-! ### Live nodes -/

theorem KeepsOrder.live (h : KeepsOrder t t') (hx : x ∈ t.liveOrder) : x ∈ t'.liveOrder := by
  rw [← h] at hx
  exact List.mem_of_mem_filter hx

theorem Reachable.live_after (h : Reachable t) (ha : AdmitsAll t history)
    (hm : ∀ c ∈ history, c.movesNodes = true) (hx : x ∈ t.liveOrder) :
    x ∈ (t.after history).liveOrder := by
  induction history generalizing t with
  | nil => exact hx
  | cons c history ih =>
    obtain ⟨hc, hm⟩ := List.forall_mem_cons.1 hm
    have hk : KeepsOrder t (t.perform c).tree := (h.liveOrder_perform hc).2
    exact ih (h.step ha.1) ha.2 hm (hk.live hx)

theorem mem_starts_marked_of_fresh {n : NodeId} {rs : List Region} {z : Cells} (h1 : n ≤ x)
    (h2 : x < n + rs.length) : x ∈ starts (Region.marked n rs z) := by
  induction rs generalizing n with
  | nil => exact absurd (Nat.lt_of_le_of_lt h1 h2) (Nat.lt_irrefl _)
  | cons r rs ih =>
    rw [Region.marked, starts_append, starts_glyph]
    refine List.mem_append_right _ (List.mem_cons.2 ?_)
    rcases Nat.eq_or_lt_of_le h1 with rfl | h1
    · exact .inl rfl
    · exact .inr (ih h1 (h2.trans_eq (Nat.add_right_comm n rs.length 1)))

/-- The nodes that a plan makes are live and hidden. -/
theorem WellFormed.live_fresh {plan : Plan} (hw : WellFormed t) (hp : Feasible t plan)
    (hx : t.size ≤ x) (hlt : x < (t.applyPlan plan).size) :
    x ∈ (t.applyPlan plan).liveOrder ∧ ((t.applyPlan plan).node x).isUnfolded = false := by
  refine (hw.applyPlan_induct (P := fun rest u => (∀ en ∈ rest, en.1 ∈ u.liveOrder) ∧
    ∀ x, t.size ≤ x → x < u.size → x ∈ u.liveOrder ∧ (u.node x).isUnfolded = false)
    hp.nodup hp.fitting ?_ ?_ ⟨hp.live, fun _ h1 h2 => ?_⟩).2 x hx hlt
  · exact fun h => ⟨(List.forall_mem_cons.1 h.1).2, h.2⟩
  · rintro u p l rest rs z ⟨hlive, hfresh⟩ hu hl rfl hrs hpos hs -
    obtain ⟨hp, hlive⟩ := List.forall_mem_cons.1 hlive
    have hi := hl.inserted hrs fun r hr => closed_of_nest (hs.landed.nested r hr).nest
    have hk : KeepsOrder u (u.splice p (Region.cuts 0 rs)) :=
      hi.walk hu.shaped.listed hl.lt hu.shaped.root
    have hs' := hs.shaped hl hu.shaped hrs hpos
    refine ⟨fun en hen => hk.live (hlive en hen), fun y h1 h2 => ?_⟩
    rw [hs.isUnfolded hl]
    by_cases hy : y < u.size
    · exact ⟨hk.live (hfresh y h1 hy).1, (hfresh y h1 hy).2⟩
    · rw [node_eq_default (Nat.not_lt.1 hy)]
      have hyp : y ∈ (u.splice p (Region.cuts 0 rs)).children p := by
        rw [hs.layout.children]
        exact mem_starts_marked_of_fresh (Nat.not_lt.1 hy) (hs.size ▸ h2)
      exact ⟨hs'.mem_liveOrder.2 ((hs'.mem_liveOrder.1 (hk.live hp)).tail hyp), rfl⟩
  · exact absurd (Nat.lt_of_le_of_lt h1 h2) (Nat.lt_irrefl _)

/-! ### From the start to the end -/

/-- The offset in what `x` stands for at which byte `pos` of its text is. -/
def resolvedOffset (t : Tree) (x : NodeId) (pos : Nat) : Nat :=
  (applyEdits ((t.node x).text.takeBytes pos)
    ((t.resolvingEdits t.reading x).filter (·.range.stop ≤ pos))).byteSize

theorem Layout.resolvedOffset {a b : Cells} (h : Layout t x (a ++ b)) :
    t.resolvedOffset x a.size = (fill t.reading a).byteSize := by
  have htake : (t.node x).text.takeBytes a.size = a.text := by
    rw [h.text, text_append]
    exact Text.takeBytes_byteSize_append ..
  have hfilter : (t.resolvingEdits t.reading x).filter (·.range.stop ≤ a.size) =
      (marks 0 a).map fun x => ⟨x.1, t.resolveId t.reading x.2⟩ := by
    rw [h.resolvingEdits, marks_append, List.map_append, List.filter_append,
      List.filter_eq_self.2, List.filter_eq_nil_iff.2, List.append_nil]
    · intro e he
      obtain ⟨y, hy, rfl⟩ := List.mem_map.1 he
      have := mem_marks hy
      simp only [decide_eq_true_eq]
      omega
    · intro e he
      obtain ⟨y, hy, rfl⟩ := List.mem_map.1 he
      have := mem_marks hy
      simp only [decide_eq_true_eq]
      omega
  rw [Tree.resolvedOffset, htake, hfilter]
  exact congrArg Text.byteSize
    (Fits.applyEditsFrom (o := 0) (u := []) (by simpa using (fits_append.1 h.fits).1) _)

/-- A group that lies in the text of its node. -/
theorem Shaped.captures (hs : Shaped t) (hx : x < t.size) (hf : (t.node x).fold = none)
    (hg : (t.node x).groupSpan? k = some g) (hh : (t.node x).text.Holds g) :
    Captures t x k (t.reading x) (t.resolvedOffset x g.start) (t.resolvedOffset x g.stop) := by
  obtain ⟨cs, hl⟩ := hs.layout x hx
  obtain ⟨hle, ⟨a, a', ha, hstart⟩, ⟨b, b', hb, hstop⟩⟩ := hh
  rw [hl.text] at ha hb
  obtain ⟨u, u', rfl, rfl, rfl⟩ := exists_of_text_eq_append ha
  obtain ⟨w, v, hw, rfl, rfl⟩ := exists_of_text_eq_append hb
  obtain ⟨m, rfl, rfl⟩ := exists_of_append_eq hw (by simp only [Cells.size]; omega)
  obtain ⟨start, stop⟩ := g
  obtain rfl : start = u.size := hstart.trans (Nat.zero_add _)
  obtain rfl : stop = (u ++ m).size := hstop.trans (Nat.zero_add _)
  rw [hl.resolvedOffset, Layout.resolvedOffset (b := v) (hw ▸ hl)]
  exact ⟨x, 0, u, m, v, .own hf (hw ▸ hl), hg, (hs.reading_eq (hw ▸ hl)).symm, rfl, rfl⟩

/-- Where no glyph is left a group indexes what it captures. -/
theorem Captures.of_childless (h : Captures t x k whole s e) (hf : (t.node x).fold = none)
    (hc : t.children x = []) :
    (t.node x).text = whole ∧ (t.node x).groupSpan? k = some ⟨s, e⟩ := by
  obtain ⟨q, off, u, m, v, hb, hg, rfl, rfl, rfl⟩ := h
  cases hb with
  | lent hF => cases hf.symm.trans hF
  | own _ hl =>
    have hplain := hl.nested.eq_plain (hl.children.symm.trans hc)
    have hpart : ∀ {a b : Cells}, u ++ m ++ v = a ++ b → fill t.reading a = a.text := by
      intro a b he
      have hids : ids (u ++ m ++ v) = [] := by
        rw [hplain]
        exact ids_plain _
      rw [he, ids_append, List.append_eq_nil_iff] at hids
      rw [eq_plain_of_ids hids.1, fill_plain, text_plain]
    rw [hg, hpart (b := []) (by simp), hpart (b := m ++ v) (by simp),
      hpart (b := v) rfl, hl.text]
    exact ⟨rfl, rfl⟩

theorem WellFormed.childless_unhideAll (hw : WellFormed t) (hx : x ∈ t.liveOrder) :
    (t.unhideAll.tree.node x).fold = none ∧ t.unhideAll.tree.children x = [] := by
  have hf := hw.faithful_foldAll.wellFormed
  have hst := hw.folds_foldAll.2 ▸ hf.stacked
  have hx' : x ∈ t.foldAll.tree.liveOrder := (hw.keepsOrder_foldAll).live hx
  exact ⟨(hw.flattened_unhideAll.fold x).trans (hf.shaped.fold_of_live hst hx'),
    hw.flattened_unhideAll.childless x hx'⟩

/-- A group of a live node that is hidden, in any reachable tree: whatever is hidden, unfolded and
folded after that, once all is unhidden the node's text is what the node stood for, and the group
captures in it at least what it captured before, and no more if all that was hidden or folded in the
body of the node was inside of the group or apart from it. -/
theorem Reachable.unhideAll_captures (h : Reachable t) (hx : x ∈ t.liveOrder)
    (hun : (t.node x).isUnfolded = false) (hg : (t.node x).groupSpan? k = some g)
    (hm : ∀ c ∈ history, c.movesNodes = true) (ha : AdmitsAll t history) :
    let flat := t.after (history ++ [.unhideAll])
    (flat.node x).text = t.reading x ∧ ∃ last, (flat.node x).groupSpan? k = some last ∧
      last.start ≤ t.resolvedOffset x g.start ∧ t.resolvedOffset x g.stop ≤ last.stop ∧
      (SparesAll x k (history ++ [.unhideAll]) t →
        last = ⟨t.resolvedOffset x g.start, t.resolvedOffset x g.stop⟩) := by
  intro flat
  have hs := h.wellFormed.shaped
  have hcap := hs.captures (hs.listed.live_lt hx)
    (Option.isSome_eq_false_iff.1 hun |> Option.isNone_iff_eq_none.1) hg
    (h.tabled.grounded x hun g (Node.records_of_groupSpan? hg))
  have ha' : AdmitsAll t (history ++ [.unhideAll]) := ha.snoc trivial
  have hm' : ∀ c ∈ history ++ [.unhideAll], c.movesNodes = true ∨ c = .unhideAll := fun c hc =>
    (List.mem_append.1 hc).imp (hm c) List.mem_singleton.1
  obtain ⟨s, e, hcap', hle, hge, hsharp⟩ := h.keeps_after ha' hm' hcap
  have hflat : flat = (t.after history).unhideAll.tree := List.foldl_append ..
  obtain ⟨hf, hc⟩ := (h.after ha).wellFormed.childless_unhideAll (h.live_after ha hm hx)
  rw [← hflat] at hf hc
  obtain ⟨htext, hgroup⟩ := hcap'.of_childless hf hc
  exact ⟨htext, _, hgroup, hle, hge, fun hsp => by rw [(hsharp hsp).1, (hsharp hsp).2]⟩

/-- A node made by a hide of matches, and a group of it that took part in the match: whatever is
hidden, unfolded and folded after that, once all is unhidden the node's text is what it stood for when
it was made, and the group captures there at least what it captured then. It captures no more if all
that was hidden or folded in the body of the node was inside of the group or apart from it. -/
theorem Reachable.groups_keep_captured (h : Reachable t) {c : Command} (hc : c.hidesMatches = true)
    (ha : t.Admits c) (hm : ∀ c ∈ history, c.movesNodes = true) :
    let made := (t.perform c).tree
    ∀ x, t.size ≤ x → x < made.size → ∀ k g, (made.node x).groupSpan? k = some g →
      AdmitsAll made history →
        let flat := made.after (history ++ [.unhideAll])
        let s := made.resolvedOffset x g.start
        let e := made.resolvedOffset x g.stop
        made.expandedText x = some (flat.node x).text ∧
          ∃ last, (flat.node x).groupSpan? k = some last ∧ last.start ≤ s ∧ e ≤ last.stop ∧
            (SparesAll x k (history ++ [.unhideAll]) made → last = ⟨s, e⟩) := by
  intro made x hx hlt k g hg ha' flat s e
  have hplan : made = t.applyPlan (t.planOf c) := by
    cases c with
    | hideAll name pattern label target => exact hideMatches_tree t name pattern label target
    | hideAny name pattern label target => exact hideMatches_tree t name pattern label target
    | _ => cases hc
  obtain ⟨hlive, hun⟩ := h.wellFormed.live_fresh (h.wellFormed.shaped.feasible_planOf ha) hx
    (hplan ▸ hlt)
  rw [← hplan] at hlive hun
  obtain ⟨htext, last, hlast⟩ := (h.step ha).unhideAll_captures hlive hun hg hm ha'
  exact ⟨(expandedText_eq hlt).trans (congrArg some htext.symm), last, hlast⟩

/-- What the group has captured is hidden and unfolded, and then the node itself is unfolded. -/
theorem groups_keep_captured_hideTwice :
    let t := ofText ['a', 'x', 'y', 'z', 'b']
    let c : Command := .hideAll ['k'] ['x', '(', 'y', ')', 'z'] ['#'] ['*']
    let history : List Command :=
      [.hideAll ['m'] ['y'] ['#'] ['k'], .unfold 2 ['<'] ['>'], .unfold 1 ['('] [')']]
    let made := (t.perform c).tree
    let flat := made.after (history ++ [.unhideAll])
    (made.node 1).groupSpan? 1 = some ⟨1, 2⟩ ∧
      (made.after history |>.node 1).groupSpan? 1 = some ⟨3, 6⟩ ∧
      SparesAll 1 1 (history ++ [.unhideAll]) made ∧
      made.expandedText 1 = some (flat.node 1).text ∧
      ∃ last, (flat.node 1).groupSpan? 1 = some last ∧ last.start ≤ made.resolvedOffset 1 1 ∧
        made.resolvedOffset 1 2 ≤ last.stop ∧
        (SparesAll 1 1 (history ++ [.unhideAll]) made →
          last = ⟨made.resolvedOffset 1 1, made.resolvedOffset 1 2⟩) :=
  have hg : (((ofText ['a', 'x', 'y', 'z', 'b']).perform
      (.hideAll ['k'] ['x', '(', 'y', ')', 'z'] ['#'] ['*'])).tree.node 1).groupSpan? 1 =
        some ⟨1, 2⟩ := by cbv
  have ha := admitsAll_hideTwice
  ⟨hg, by cbv, of_decide_eq_true (by cbv),
    Reachable.groups_keep_captured (.initial (.ofText _ _)) rfl ha.1 (by decide) 1 (by decide)
      (by cbv) 1 _ hg ⟨ha.2.1, trivial, trivial, trivial⟩⟩

end Tree

end GlyphTree
