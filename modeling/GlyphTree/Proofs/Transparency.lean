import GlyphTree.Proofs.Bodies
import GlyphTree.Proofs.Orders

/-!
# Editing through an unfold

A node that stands unfolded is edited through the text of its parent. The markers end literal runs
just as the glyph did, so the edits of the parent are its own together with those of the node, and
to replace a text after an unfold comes to the same as to unfold after the replacement
(`Detour.eq_unfoldAt`). Folding back then leaves what the replacement alone would have left
(`Reachable.replaceAll_unfolded`). It does not if children were moved to a node while it was
unfolded, since they stay with it when it is folded back (`not_replaceAll_unfolded`).
-/

namespace GlyphTree

open Cells Patch

namespace Patch

theorem across_max {y : Patch} {m n : Nat} (hn : y.Beside n) (hmax : y.Beside (max m n)) :
    y.across (max m n) = max (y.across m) (y.across n) := by
  rcases Nat.le_total m n with h | h
  · rw [Nat.max_eq_right h, Nat.max_eq_right (across_le hn h)]
  · rw [Nat.max_eq_left h] at hmax ⊢
    rw [Nat.max_eq_left (across_le hmax h)]

end Patch

/-! ## Offsets -/

namespace Stretch

variable {id : NodeId} {F : Fold} {A B C : Stretch} {s : Span}

/-- The text of a node one of whose children is hidden, in two parts. -/
def folded (id : NodeId) (F : Fold) (A C : Stretch) : Stretch :=
  A.join ⟨F.glyph, some (.glyph id)⟩ C

@[simp] theorem old_folded : (folded id F A C).old = Tree.foldedCells id F A.old C.old := old_join

@[simp] theorem new_folded : (folded id F A C).new = Tree.foldedCells id F A.new C.new := new_join

/-- An offset beside the glyph goes the same way whether the region comes before the other edits
or after them. -/
theorem remap_unfolded {pos : Nat}
    (h : (Tree.foldedCells id F A.old C.old).text.Boundary 0 pos) :
    remapStart ((Tree.unfoldPatch id F A.old B.old).across pos) ((unfolded id F A B C).edits 0) =
        (Tree.unfoldPatch id F A.new B.new).across (remapStart pos ((folded id F A C).edits 0)) ∧
      remapEnd ((Tree.unfoldPatch id F A.old B.old).across pos) ((unfolded id F A B C).edits 0) =
        (Tree.unfoldPatch id F A.new B.new).across (remapEnd pos ((folded id F A C).edits 0)) := by
  have hglyph := F.glyph.utf8Size_pos
  have hbeside := Tree.beside_unfoldPatch h B.old
  have hsize : ∀ (a b : Cells) (n : Nat), (Tree.unfoldPatch id F a b).across n =
      if n ≤ a.size then n else
        n - F.glyph.utf8Size + (F.opening.utf8Size + b.size + F.closing.utf8Size) := by
    intro a b n
    rw [across, Tree.unfoldPatch]
    simp [Nat.add_assoc]
    rfl
  rcases hbeside with hleft | hright
  · -- before the glyph only the edits there matter
    have hleft : pos ≤ A.old.size := hleft
    have hbound : A.old.text.Boundary 0 pos := by
      rw [Tree.foldedCells, text_append] at h
      exact h.first (by rwa [Nat.zero_add])
    obtain ⟨hstart, hstop⟩ := remap_le hbound
    have hinner : pos ≤ (A.join ⟨F.opening, some (.opening id)⟩ B).old.size := by
      rw [old_join, size_append]
      omega
    obtain ⟨h1, h2⟩ := remap_left ⟨F.closing, some (.closing id)⟩ C hinner
    obtain ⟨h3, h4⟩ := remap_left ⟨F.opening, some (.opening id)⟩ B hleft
    obtain ⟨h5, h6⟩ := remap_left ⟨F.glyph, some (.glyph id)⟩ C hleft
    rw [hsize, if_pos hleft, unfolded, folded, h1, h2, h3, h4, h5, h6, hsize, hsize, if_pos hstart,
      if_pos hstop]
    exact ⟨rfl, rfl⟩
  · have hright : A.old.size + F.glyph.utf8Size ≤ pos := by
      simpa [Tree.unfoldPatch] using hright
    obtain ⟨k, rfl⟩ := Nat.exists_eq_add_of_le hright
    have hinner : A.old.size + F.glyph.utf8Size + k - F.glyph.utf8Size +
        (F.opening.utf8Size + B.old.size + F.closing.utf8Size) =
        (A.join ⟨F.opening, some (.opening id)⟩ B).old.size + F.closing.utf8Size + k := by
      rw [old_join, size_append, size_cons]
      dsimp only
      omega
    obtain ⟨h1, h2⟩ := remap_right (A.join ⟨F.opening, some (.opening id)⟩ B)
      ⟨F.closing, some (.closing id)⟩ C k
    obtain ⟨h3, h4⟩ := remap_right A ⟨F.glyph, some (.glyph id)⟩ C k
    dsimp only at h1 h2 h3 h4
    rw [hsize, if_neg (by omega), hinner, unfolded, folded, h1, h2, h3, h4, hsize, hsize,
      if_neg (by omega), if_neg (by omega), new_join, size_append, size_cons]
    dsimp only
    omega

/-- A span of the parent's text, likewise. -/
theorem remapSpan_unfolded (h : (Tree.foldedCells id F A.old C.old).text.Holds s) (B : Stretch) :
    remapSpan (remapSpan s (Patch.edits 0 [Tree.unfoldPatch id F A.old B.old]))
        ((unfolded id F A B C).edits 0) =
      remapSpan (remapSpan s ((folded id F A C).edits 0))
        (Patch.edits 0 [Tree.unfoldPatch id F A.new B.new]) := by
  have hpos : ∀ a b : Cells, 0 < (Tree.unfoldPatch id F a b).gone.size := fun a b => by
    simpa [Tree.unfoldPatch] using F.glyph.utf8Size_pos
  have hheld : (Tree.foldedCells id F A.new C.new).text.Holds
      (remapSpan s ((folded id F A C).edits 0)) := by
    rw [← old_folded] at h
    rw [← new_folded]
    exact holds_remapSpan h
  have hstart := Tree.beside_unfoldPatch hheld.2.1 B.new
  have hstop := Tree.beside_unfoldPatch hheld.2.2 B.new
  rw [remapSpan_beside (hpos _ _) h.1 (Tree.beside_unfoldPatch h.2.1 B.old)
    (Tree.beside_unfoldPatch h.2.2 B.old), remapSpan_beside (hpos _ _) hheld.1 hstart hstop]
  simp only [remapSpan, (remap_unfolded h.2.1).1, (remap_unfolded h.2.2).2]
  exact congrArg (Span.mk _) (across_max hstart hstop).symm

end Stretch

namespace Tree

variable {t t' v : Tree} {p q id j x : NodeId} {a b c : Cells} {A B C : Stretch} {F : Fold}
  {n : Node} {own around : List Edit} {es es' : NodeId → List Edit} {ids : List NodeId}
  {old new target : Text}

/-! ## Nodes -/

/-- A span in order follows all edits alike, be they none. -/
theorem place_carried {s : Span} (h : n.place = some ⟨q, s⟩) (hs : s.start ≤ s.stop)
    (own around : List Edit) : (carried own around n).place = some ⟨q, remapSpan s around⟩ := by
  rw [carried_place, h]
  by_cases ha : around = []
  · rw [if_pos ha, ha, remapSpan_nil hs]
  · rw [if_neg ha, Option.map_some]

section
variable (hn : n.isUnfolded = false)
include hn

/-- What happens around a node does not matter to its groups unless it is unfolded. -/
theorem groups_carried_congr {m : Node} (hm : m.isUnfolded = false) (he : m.groups = n.groups)
    (own around around' : List Edit) :
    (carried own around m).groups = (carried own around' n).groups := by
  rw [groups_carried hm, groups_carried hn, Node.mapGroups, Node.mapGroups, he]

end

/-- So do groups in order. -/
theorem groups_carried_of_folded (hn : n.isUnfolded = false)
    (h : ∀ s, n.Records s → s.start ≤ s.stop) (own around : List Edit) :
    (carried own around n).groups = (n.mapGroups (some <| remapSpan · own)).groups := by
  rw [groups_carried hn]
  by_cases ho : own = []
  · rw [if_pos ho, ho, Node.mapGroups_id fun s hs => congrArg some (remapSpan_nil (h s hs))]
  · rw [if_neg ho]

theorem groups_carried_of_unfolded (hn : n.isUnfolded = true)
    (h : ∀ s, n.Records s → s.start ≤ s.stop) (around : List Edit) :
    (carried [] around n).groups = (n.mapGroups (some <| remapSpan · around)).groups := by
  by_cases ha : around = []
  · rw [ha, carried_nil, Node.mapGroups_id fun s hs => congrArg some (remapSpan_nil (h s hs))]
  · rw [carried, if_pos rfl, if_neg ha, followEdits_eq]
    simp only [hn, if_true]

theorem Hidden.name_unfoldAt (h : Hidden t p id a b c F) (j : NodeId) :
    ((t.unfoldAt id ⟨p, ⟨a.size, a.size + F.glyph.utf8Size⟩⟩ F).node j).name =
      (t.node j).name := by
  rw [h.node_unfoldAt]
  split_ifs with hi hp
  · rw [hi]
    rfl
  · rw [hp]
    rfl
  · rfl
  · exact followEdits_name _ _
  · rfl

/-! ## One unfold -/

/-- Two ways to edit literal text of a tree: `t'` directly, and `v` after a node has been
unfolded. -/
structure Detour (t t' v : Tree) (p id : NodeId) (A B C : Stretch) (F : Fold)
    (es es' : NodeId → List Edit) : Prop where
  shaped : Shaped t
  grounded : t.Grounded
  folded : ∀ q, ∀ c ∈ t.children q, (t.node c).fold = none
  hidden : Hidden t p id A.old B.old C.old F
  literal : A.Literal ∧ B.Literal ∧ C.Literal
  direct : Replaced t t' es
  through : Replaced (t.unfoldAt id ⟨p, ⟨A.old.size, A.old.size + F.glyph.utf8Size⟩⟩ F) v es'
  parent : es p = (Stretch.folded id F A C).edits 0
  self : es id = B.edits 0
  around : es' p = (Stretch.unfolded id F A B C).edits 0
  hollow : es' id = []
  same : ∀ q, q ≠ p → q ≠ id → es' q = es q

section
variable (h : Detour t t' v p id A B C F es es')
include h

/-- A node that is hidden still is after the edits. -/
theorem Detour.hidden_direct : Hidden t' p id A.new B.new C.new F := by
  obtain ⟨hA, hB, hC⟩ := h.literal
  have hbody := h.direct.layout h.hidden.body h.self hB
  refine ⟨?_, hbody, ?_, (h.direct.fold id).trans h.hidden.folded⟩
  · rw [← Stretch.new_folded]
    refine h.direct.layout ?_ h.parent (hA.join _ hC)
    exact Stretch.old_folded ▸ h.hidden.place
  · rw [← hbody.children, h.direct.children, h.hidden.body.children]
    exact h.hidden.apart

/-- A node that is unfolded still is after the edits. -/
theorem Detour.layout_through :
    Layout v p (unfoldedCells id F A.new B.new C.new) ∧ Layout v id [] := by
  obtain ⟨hA, hB, hC⟩ := h.literal
  have hF := h.hidden.folding
  constructor
  · rw [← Stretch.new_unfolded]
    refine h.through.layout ?_ h.around ((hA.join _ hB).join _ hC)
    exact Stretch.old_unfolded ▸ hF.around
  · exact h.through.layout (A := ⟨[], []⟩) hF.hollow h.hollow (Stretch.literal_nil [])

/-- A node that is not in the text unfolded follows the same edits either way. -/
theorem Detour.exists_around
    (hj : j ∉ (t.unfoldAt id ⟨p, ⟨A.old.size, A.old.size + F.glyph.utf8Size⟩⟩ F).children p) :
    ∃ around, t'.node j = carried (es j) around (t.node j) ∧ v.node j = carried (es' j) around
      ((t.unfoldAt id ⟨p, ⟨A.old.size, A.old.size + F.glyph.utf8Size⟩⟩ F).node j) := by
  have hF := h.hidden.folding
  have hthrough := h.through
  generalize t.unfoldAt id ⟨p, ⟨A.old.size, A.old.size + F.glyph.utf8Size⟩⟩ F = u at *
  have hb : j ∉ starts B.old := fun hm => hj (by simp [hF.children_around, hm])
  by_cases hq : ∃ q, j ∈ t.children q
  · obtain ⟨q, hq⟩ := hq
    have hqu := (hF.mem_children_iff hb).1 hq
    have hqp : q ≠ p := fun e => hj (e ▸ hqu)
    have hqi : q ≠ id := fun e => hb (h.hidden.body.children ▸ e ▸ hq)
    refine ⟨es q, h.direct.listed q j hq, ?_⟩
    rw [hthrough.listed q j hqu, h.same q hqp hqi]
  · have hq := not_exists.1 hq
    exact ⟨[], h.direct.unlisted j hq,
      hthrough.unlisted j fun q hm => hq q ((hF.mem_children_iff hb).2 hm)⟩

/-! ### Everything but places and groups -/

theorem Detour.name (j : NodeId) : (v.node j).name =
    ((t'.unfoldAt id ⟨p, ⟨A.new.size, A.new.size + F.glyph.utf8Size⟩⟩ F).node j).name := by
  rw [h.through.name, h.hidden.name_unfoldAt, h.hidden_direct.name_unfoldAt, h.direct.name]

theorem Detour.expanded (j : NodeId) : (v.node j).expanded =
    ((t'.unfoldAt id ⟨p, ⟨A.new.size, A.new.size + F.glyph.utf8Size⟩⟩ F).node j).expanded := by
  rw [h.through.expanded]
  exact (h.hidden.folding.expanded j).symm.trans
    ((h.direct.expanded j).symm.trans (h.hidden_direct.folding.expanded j))

theorem Detour.fold (j : NodeId) : (v.node j).fold =
    ((t'.unfoldAt id ⟨p, ⟨A.new.size, A.new.size + F.glyph.utf8Size⟩⟩ F).node j).fold := by
  have hF := h.hidden.folding
  have hF' := h.hidden_direct.folding
  rw [h.through.fold]
  by_cases hj : j = id
  · rw [hj, hF.unfolded, hF'.unfolded]
  · rw [← hF.fold j hj, ← hF'.fold j hj, h.direct.fold]

theorem Detour.content (j : NodeId) :
    (v.node j).text =
        ((t'.unfoldAt id ⟨p, ⟨A.new.size, A.new.size + F.glyph.utf8Size⟩⟩ F).node j).text ∧
      v.children j =
        (t'.unfoldAt id ⟨p, ⟨A.new.size, A.new.size + F.glyph.utf8Size⟩⟩ F).children j := by
  have hF := h.hidden.folding
  have hF' := h.hidden_direct.folding
  obtain ⟨haround, hhollow⟩ := h.layout_through
  by_cases hjp : j = p
  · rw [hjp]
    exact ⟨haround.text.trans hF'.around.text.symm, haround.children.trans hF'.around.children.symm⟩
  · by_cases hji : j = id
    · rw [hji]
      exact ⟨hhollow.text.trans hF'.hollow.text.symm,
        hhollow.children.trans hF'.hollow.children.symm⟩
    · obtain ⟨h1, h2⟩ := hF.content j hjp hji
      obtain ⟨h3, h4⟩ := hF'.content j hjp hji
      rw [h.through.text, h.through.children, ← h1, ← h2, ← h3, ← h4, h.direct.text,
        h.direct.children, h.same j hjp hji]
      exact ⟨rfl, rfl⟩

/-! ### Places and groups -/

theorem Detour.starts_new : starts A.new = starts A.old ∧ starts B.new = starts B.old ∧
    starts C.new = starts C.old := by
  obtain ⟨hA, hB, hC⟩ := h.literal
  exact ⟨starts_after_of_literal hA, starts_after_of_literal hB, starts_after_of_literal hC⟩

/-- The children of the body move out with the region. -/
theorem Detour.body (hj : j ∈ starts B.old) :
    (v.node j).place =
        ((t'.unfoldAt id ⟨p, ⟨A.new.size, A.new.size + F.glyph.utf8Size⟩⟩ F).node j).place ∧
      (v.node j).groups =
        ((t'.unfoldAt id ⟨p, ⟨A.new.size, A.new.size + F.glyph.utf8Size⟩⟩ F).node j).groups := by
  have hF := h.hidden.folding
  obtain ⟨-, -, hdisjoint⟩ := hF.around.unfolded_disjoint
  obtain ⟨hji, hjp, -⟩ := hdisjoint j hj
  have hjid : j ∈ t.children id := h.hidden.body.children ▸ hj
  have hun : (t.node j).fold = none := h.folded id j hjid
  have hv := h.through.listed p j (by simp [hF.children_around, hj])
  have hw := h.hidden_direct.node_unfoldAt j
  rw [h.hidden.node_unfoldAt, if_neg hji, if_neg hjp, if_pos hj, h.around] at hv
  rw [if_neg hji, if_neg hjp, if_pos (h.starts_new.2.1 ▸ hj), h.direct.listed id j hjid,
    h.self] at hw
  obtain ⟨s, hs, hheld⟩ := h.hidden.body.exists_span hjid
  rw [h.hidden.body.text] at hheld
  constructor
  · rw [hv, hw, place_carried (place_moved hs _) (Nat.add_le_add_right hheld.1 _),
      place_moved (place_carried hs hheld.1 _ _), Stretch.remapSpan_body _ _ _ _ hheld]
  · have hun := Node.isUnfolded_of_none hun
    have hcarried : (carried (es j) (B.edits 0) (t.node j)).isUnfolded = false :=
      (Node.isUnfolded_congr (carried_fold _ _ _)).trans hun
    rw [hv, hw, groups_moved hcarried, h.same j hjp hji]
    exact groups_carried_congr hun (m := moved p 0 _ (t.node j)) hun (groups_moved hun _ _) _ _ _

/-- The children beside the node follow the region that comes for the glyph. -/
theorem Detour.beside (hj : j ∈ starts (A.old ++ C.old)) :
    (v.node j).place =
        ((t'.unfoldAt id ⟨p, ⟨A.new.size, A.new.size + F.glyph.utf8Size⟩⟩ F).node j).place ∧
      (v.node j).groups =
        ((t'.unfoldAt id ⟨p, ⟨A.new.size, A.new.size + F.glyph.utf8Size⟩⟩ F).node j).groups := by
  have hF := h.hidden.folding
  obtain ⟨hnA, hnB, hnC⟩ := h.starts_new
  obtain ⟨hne, hac, hks⟩ := h.hidden.place.folded_disjoint
  have hji : j ≠ id := fun e => hac (e ▸ hj)
  have hmem : j ∈ t.children p := (List.mem_filter.1 (hks ▸ hj)).1
  have hjp : j ≠ p := fun e => h.hidden.place.irrefl (h.hidden.place.children ▸ e ▸ hmem)
  have hjb : j ∉ starts B.old := fun hm => hne
    (h.shaped.parent_unique (h.hidden.body.children ▸ hm : j ∈ t.children id) hmem)
  have hun : (t.node j).fold = none := h.folded p j hmem
  have hv := h.through.listed p j ((hF.mem_children_iff hjb).1 hmem)
  have hw := h.hidden_direct.node_unfoldAt j
  rw [h.hidden.node_unfoldAt, if_neg hji, if_neg hjp, if_neg hjb, if_pos hj, h.around] at hv
  rw [if_neg hji, if_neg hjp, hnB, if_neg hjb, starts_append, hnA, hnC, ← starts_append,
    if_pos hj, h.direct.listed p j hmem, h.parent] at hw
  obtain ⟨s, hs, hheld⟩ := h.hidden.place.exists_span hmem
  rw [h.hidden.place.text] at hheld
  constructor
  · rw [hv, hw, place_carried (q := p) (s := remapSpan s (edits 0 [unfoldPatch id F A.old B.old]))
      (by rw [followEdits_place, hs]; rfl) (remapSpan_ordered _ _), followEdits_place,
      place_carried hs hheld.1, Stretch.remapSpan_unfolded hheld]
    rfl
  · have hun := Node.isUnfolded_of_none hun
    have hcarried : ∀ own around, (carried own around (t.node j)).isUnfolded = false :=
      fun own around => (Node.isUnfolded_congr (carried_fold _ _ _)).trans hun
    rw [hv, hw, groups_followEdits (hcarried _ _), h.same j hjp hji]
    exact groups_carried_congr hun
      ((Node.isUnfolded_congr (followEdits_fold _ _)).trans hun) (groups_followEdits hun _) _ _ _

/-- The node itself, whose groups lie in the region while it is unfolded. -/
theorem Detour.itself :
    (v.node id).place =
        ((t'.unfoldAt id ⟨p, ⟨A.new.size, A.new.size + F.glyph.utf8Size⟩⟩ F).node id).place ∧
      (v.node id).groups =
        ((t'.unfoldAt id ⟨p, ⟨A.new.size, A.new.size + F.glyph.utf8Size⟩⟩ F).node id).groups := by
  have hF := h.hidden.folding
  have hun : (t.node id).isUnfolded = false := Node.isUnfolded_of_none h.hidden.folded
  have hheld : ∀ s, (t.node id).Records s → B.old.text.Holds s := fun s hs =>
    h.hidden.body.text ▸ h.grounded id hun s hs
  constructor
  · exact h.layout_through.1.place_of_unfolded.trans
      h.hidden_direct.folding.around.place_of_unfolded.symm
  · have hv := h.through.listed p id (by simp [hF.children_around])
    have hw := h.hidden_direct.node_unfoldAt id
    have hd := h.direct.listed p id hF.mem_children_place
    rw [h.hidden.node_unfoldAt, if_pos rfl, h.hollow, h.around,
      moveGroups_of_unfolded (n := { t.node id with text := [], children := [], fold := some F })
        rfl] at hv
    rw [if_pos rfl, moveGroups_of_unfolded
      (n := { t'.node id with text := [], children := [], fold := some F }) rfl] at hw
    have hgroups : (t'.node id).groups =
        ((t.node id).mapGroups (some <| remapSpan · (B.edits 0))).groups := by
      rw [hd, h.self]
      exact groups_carried_of_folded hun (fun s hs => (hheld s hs).1) _ _
    rw [hv, hw]
    refine (groups_carried_of_unfolded (by rfl) (fun s hs => ?_) _).trans
      (Node.mapGroups_congr (n := t.node id) (f := movedSpan 0 (A.old.size + F.opening.utf8Size))
        (by rfl) hgroups fun s hs => ?_)
    · obtain ⟨r, hr, hmove⟩ := Node.records_mapGroups.1
        (show ((t.node id).mapGroups (movedSpan 0 (A.old.size + F.opening.utf8Size))).Records s
          from hs)
      have hle := (hheld r hr).1
      simp only [movedSpan, Nat.zero_le, and_self, if_true, Nat.sub_zero, Option.some.injEq] at hmove
      subst hmove
      exact Nat.add_le_add_right hle _
    · have hbody := Stretch.remapSpan_body id F A C (hheld s hs)
      simpa [movedSpan, Span.shiftUp] using hbody

/-- The parent of the node. -/
theorem Detour.itself_parent :
    (v.node p).place =
        ((t'.unfoldAt id ⟨p, ⟨A.new.size, A.new.size + F.glyph.utf8Size⟩⟩ F).node p).place ∧
      (v.node p).groups =
        ((t'.unfoldAt id ⟨p, ⟨A.new.size, A.new.size + F.glyph.utf8Size⟩⟩ F).node p).groups := by
  have hF := h.hidden.folding
  have hne := Ne.symm hF.ne
  have hun := h.hidden.parent_folded h.shaped
  have hheld : ∀ s, (t.node p).Records s → (foldedCells id F A.old C.old).text.Holds s :=
    fun s hs => h.hidden.place.text ▸ h.grounded p hun s hs
  obtain ⟨around, hd, hv⟩ := h.exists_around fun hm => hF.around.irrefl (hF.around.children ▸ hm)
  have hw := h.hidden_direct.node_unfoldAt p
  rw [h.hidden.node_unfoldAt, if_neg hne, if_pos rfl, h.around] at hv
  rw [if_neg hne, if_pos rfl] at hw
  have hgroups : (t'.node p).groups = ((t.node p).mapGroups
      (some <| remapSpan · ((Stretch.folded id F A C).edits 0))).groups := by
    rw [hd, h.parent]
    exact groups_carried_of_folded hun (fun s hs => (hheld s hs).1) _ _
  constructor
  · have hplace := carried_place (es p) around (t.node p)
    rw [← hd] at hplace
    rw [hv, hw, carried_place]
    exact hplace.symm
  · rw [hv, hw]
    refine (groups_carried_of_folded (by exact hun) (fun s hs => ?_) _ _).trans
      (Node.mapGroups_congr (n := t.node p)
        (f := (some <| remapSpan · (edits 0 [unfoldPatch id F A.old B.old])))
        (by rfl) hgroups fun s hs => congrArg some (Stretch.remapSpan_unfolded (hheld s hs) B))
    obtain ⟨r, -, rfl⟩ : ∃ r, (t.node p).Records r ∧
        s = remapSpan r (edits 0 [unfoldPatch id F A.old B.old]) := by
      obtain ⟨r, hr, hmap⟩ := Node.records_mapGroups.1 (show ((t.node p).mapGroups
        (some <| remapSpan · (edits 0 [unfoldPatch id F A.old B.old]))).Records s from hs)
      exact ⟨r, hr, (Option.some.inj hmap).symm⟩
    exact remapSpan_ordered _ _

/-- All other nodes. -/
theorem Detour.elsewhere (hji : j ≠ id) (hjp : j ≠ p) (hjb : j ∉ starts B.old)
    (hjac : j ∉ starts (A.old ++ C.old)) : v.node j =
      (t'.unfoldAt id ⟨p, ⟨A.new.size, A.new.size + F.glyph.utf8Size⟩⟩ F).node j := by
  have hF := h.hidden.folding
  obtain ⟨hnA, hnB, hnC⟩ := h.starts_new
  rw [starts_append] at hjac
  obtain ⟨around, hd, hv⟩ := h.exists_around fun hm => by
    rw [hF.children_around] at hm
    simp only [List.mem_append, List.mem_cons] at hjac hm
    tauto
  rw [h.hidden.node_unfoldAt, if_neg hji, if_neg hjp, if_neg hjb, starts_append, if_neg hjac,
    h.same j hjp hji] at hv
  rw [h.hidden_direct.node_unfoldAt, if_neg hji, if_neg hjp, hnB, if_neg hjb, starts_append, hnA,
    hnC, if_neg hjac, hv, hd]

/-- To edit after an unfold is to unfold after the edits. -/
theorem Detour.eq_unfoldAt :
    v = t'.unfoldAt id ⟨p, ⟨A.new.size, A.new.size + F.glyph.utf8Size⟩⟩ F := by
  have hplaces : ∀ j, (v.node j).place =
      ((t'.unfoldAt id ⟨p, ⟨A.new.size, A.new.size + F.glyph.utf8Size⟩⟩ F).node j).place ∧
        (v.node j).groups =
      ((t'.unfoldAt id ⟨p, ⟨A.new.size, A.new.size + F.glyph.utf8Size⟩⟩ F).node j).groups := by
    intro j
    by_cases hji : j = id
    · exact hji ▸ h.itself
    · by_cases hjp : j = p
      · exact hjp ▸ h.itself_parent
      · by_cases hjb : j ∈ starts B.old
        · exact h.body hjb
        · by_cases hjac : j ∈ starts (A.old ++ C.old)
          · exact h.beside hjac
          · rw [h.elsewhere hji hjp hjb hjac]
            exact ⟨rfl, rfl⟩
  refine eq_of_stripped ?_ ?_ fun j => ?_
  · rw [h.through.stripped, h.hidden.stripped_unfoldAt, h.hidden_direct.stripped_unfoldAt,
      h.direct.stripped]
  · rw [h.through.size, ← h.hidden.folding.size, ← h.hidden_direct.folding.size, h.direct.size]
  · exact Node.ext (h.name j) (h.content j).1 (hplaces j).1 (hplaces j).2 (h.fold j)
      (h.content j).2 (h.expanded j)

end

/-! ## Replacing through an unfold -/

theorem Hidden.targets_unfoldAt (h : Hidden t p id a b c F) (hs : Shaped t) (target : Text) :
    (t.unfoldAt id ⟨p, ⟨a.size, a.size + F.glyph.utf8Size⟩⟩ F).targets target =
      t.targets target := by
  have hF := h.folding
  have hname := h.name_unfoldAt
  have hstripped := h.stripped_unfoldAt
  generalize t.unfoldAt id ⟨p, ⟨a.size, a.size + F.glyph.utf8Size⟩⟩ F = u at *
  have hconfig : u.config = t.config := by
    change u.stripped.config = _
    rw [hstripped]
    rfl
  have hignored : u.ignored = t.ignored := by
    change u.stripped.ignored = _
    rw [hstripped]
    rfl
  have htarget : u.isTarget target = t.isTarget target := by
    funext j
    rw [isTarget, isTarget, isIgnored, isIgnored, hconfig, hignored, hname]
  rw [targets, targets, htarget, hF.liveOrder (hF.shaped_unfold hs) hs]

theorem Shaped.exists_parent (hs : Shaped t) (hlive : t.isLive x = true) (hroot : x ≠ Tree.root) :
    ∃ q, x ∈ t.children q ∧ q ∈ t.liveOrder := by
  rcases (hs.mem_liveOrder.1 (hs.mem_liveOrder_of_isLive hlive)).cases_tail with
    hx | ⟨q, hq, hx⟩
  · exact absurd hx hroot
  · exact ⟨q, hx, hs.mem_liveOrder.2 hq⟩

/-- The targets and one more node are in the arena. -/
theorem Shaped.lt_of_chosen (hs : Shaped t) (hx : x < t.size)
    (hids : ∀ y, y ∈ ids ↔ y = x ∨ y ∈ t.targets target) : ∀ y ∈ ids, y < t.size := by
  intro y hy
  rcases (hids y).1 hy with rfl | hy
  · exact hx
  · exact hs.mem_targets hy

/-- A sum over some nodes in which one of them counts for two. -/
theorem sum_of_moved {f g : NodeId → Nat} {l m : List NodeId} (hl : l.Nodup) (hm : m.Nodup)
    (hmem : ∀ y, y ∈ m ↔ y = id ∨ y ∈ l) (hp : p ∈ l) (hne : id ≠ p) (hgp : g p = f p + f id)
    (hgi : g id = 0) (hsame : ∀ y, y ≠ p → y ≠ id → g y = f y) :
    (l.map g).sum = (m.map f).sum := by
  have hsum : ∀ {k : NodeId} {l : List NodeId} (f : NodeId → Nat), k ∈ l →
      (l.map f).sum = f k + ((l.erase k).map f).sum := fun f hk =>
    ((List.perm_cons_erase hk).map f).sum_eq
  have hperm : m.Perm (id :: l.erase id) := by
    refine (List.perm_ext_iff_of_nodup hm (List.nodup_cons.2 ⟨hl.not_mem_erase, hl.erase id⟩)).2
      fun y => ?_
    rw [hmem, List.mem_cons, hl.mem_erase_iff]
    tauto
  have hg : (l.map g).sum = ((l.erase id).map g).sum := by
    by_cases hid : id ∈ l
    · rw [hsum g hid, hgi, Nat.zero_add]
    · rw [List.erase_of_not_mem hid]
  have hp' : p ∈ l.erase id := hl.mem_erase_iff.2 ⟨Ne.symm hne, hp⟩
  have hrest : ((l.erase id).erase p).map g = ((l.erase id).erase p).map f := by
    refine List.map_congr_left fun y hy => ?_
    obtain ⟨hyp, hy⟩ := (hl.erase id).mem_erase_iff.1 hy
    exact hsame y hyp (hl.mem_erase_iff.1 hy).1
  rw [hg, (hperm.map f).sum_eq, List.map_cons, List.sum_cons, hsum g hp', hsum f hp', hrest, hgp]
  omega

section
variable (hw : WellFormed t) (hf : t.folds = []) (hg : t.Grounded)
  (h : Hidden t p id A.old B.old C.old F) (hold : old ≠ []) (hnd : ids.Nodup)
  (hids : ∀ y, y ∈ ids ↔ y = id ∨ y ∈ t.targets target) (hp : p ∈ t.targets target)
include hw hf hg h hold hnd hids hp

/-- A replacement in the targets of a tree with a node unfolded is a detour to the replacement in
the targets and that node. -/
theorem WellFormed.detour (hA : A.Replaces old new) (hB : B.Replaces old new)
    (hC : C.Replaces old new) :
    let u := t.unfoldAt id ⟨p, ⟨A.old.size, A.old.size + F.glyph.utf8Size⟩⟩ F
    Detour t (Tree.replaceEach old new ids t).2
      (Tree.replaceEach old new (u.targets target) u).2 p id A B C F
      (t.editsIn old new ids) (u.editsIn old new (u.targets target)) := by
  intro u
  have hF := h.folding
  have hwu : WellFormed u := hw.unfoldAt h
  have htargets : u.targets target = t.targets target := h.targets_unfoldAt hw.shaped target
  have hlt := hw.shaped.lt_of_chosen h.body.lt hids
  refine ⟨hw.shaped, hg, fun q c hc => ?_, h, ⟨hA.literal, hB.literal, hC.literal⟩,
    (hw.replaced hold hlt hnd).1, (hwu.replaced hold (fun y hy => hwu.shaped.mem_targets hy)
      (hwu.shaped.nodup_targets target)).1, ?_, ?_, ?_, ?_, fun q hqp hqi => ?_⟩
  · exact (hf ▸ hw.stacked : Stacked t []).fold_of_mem_children hc
  · rw [editsIn_of_mem ((hids p).2 (.inr hp)), h.place.replacingEdits_eq]
    have := (hA.join hC F.glyph (.glyph id)).edits 0
    rwa [Stretch.old_join, eq_comm] at this
  · rw [editsIn_of_mem ((hids id).2 (.inl rfl)), h.body.replacingEdits_eq, hB.edits]
  · have hpu : p ∈ u.targets target := (congrArg (p ∈ ·) htargets).mpr hp
    rw [editsIn_of_mem hpu, hF.around.replacingEdits_eq]
    have := ((hA.join hB F.opening (.opening id)).join hC F.closing (.closing id)).edits 0
    rwa [Stretch.old_join, Stretch.old_join, eq_comm] at this
  · exact hwu.editsIn_of_unfolded (Node.isUnfolded_of_some hF.unfolded)
  · have hin : q ∈ u.targets target ↔ q ∈ ids := by
      rw [htargets, hids, or_iff_right hqi]
    by_cases hq : q ∈ ids
    · obtain ⟨cs, hl⟩ := hw.shaped.layout q (hlt q hq)
      have hlu : Layout u q cs := hF.kept_unfold.layout hw.shaped hl (by simp [hqp, hqi])
      rw [editsIn_of_mem (hin.2 hq), editsIn_of_mem hq, hl.replacingEdits_eq,
        hlu.replacingEdits_eq]
    · rw [editsIn_of_not_mem (mt hin.1 hq), editsIn_of_not_mem hq]

/-- What is replaced in the parent through the unfold is what is replaced in the parent and in the
node. -/
theorem WellFormed.count_detour (hA : A.Replaces old new) (hB : B.Replaces old new)
    (hC : C.Replaces old new) :
    let u := t.unfoldAt id ⟨p, ⟨A.old.size, A.old.size + F.glyph.utf8Size⟩⟩ F
    (Tree.replaceEach old new (u.targets target) u).1 = (Tree.replaceEach old new ids t).1 := by
  intro u
  have hwu : WellFormed u := hw.unfoldAt h
  have hd := hw.detour hf hg h hold hnd hids hp hA hB hC
  have htargets : u.targets target = t.targets target := h.targets_unfoldAt hw.shaped target
  have hlt := hw.shaped.lt_of_chosen h.body.lt hids
  have hlu : ∀ y ∈ u.targets target, y < u.size := fun y => hwu.shaped.mem_targets
  have hndu := hwu.shaped.nodup_targets target
  rw [← htargets] at hids hp
  change Detour t _ _ p id A B C F _ (u.editsIn old new (u.targets target)) at hd
  clear_value u
  rw [(hwu.replaced hold hlu hndu).2, (hw.replaced hold hlt hnd).2]
  refine sum_of_moved hndu hnd hids hp h.folding.ne ?_ ?_ fun q hqp hqi => ?_
  · rw [hd.around, hd.parent, hd.self, Stretch.unfolded, Stretch.folded]
    simp only [Stretch.edits_join, List.length_append, Stretch.length_edits]
    omega
  · rw [hd.hollow, List.length_nil]
  · rw [hd.same q hqp hqi]

end

/-- A single node that is unfolded is folded back. -/
theorem WellFormed.foldAll_unfoldAt (hw : WellFormed t) (hf : t.folds = []) (hg : t.Grounded)
    (h : Hidden t p id a b c F) :
    (t.unfoldAt id ⟨p, ⟨a.size, a.size + F.glyph.utf8Size⟩⟩ F).foldAll.tree = t ∧
      (t.unfoldAt id ⟨p, ⟨a.size, a.size + F.glyph.utf8Size⟩⟩ F).foldAll.result = .ok 1 := by
  obtain ⟨htree, hresult⟩ := ((hw.unfolding hg hf).unfoldAt h).refold []
  exact ⟨htree.trans (by rw [← hf]), hresult⟩

/-- To unfold a node, to replace a text in the targets, its parent among them, and to fold
everything back comes to the same as to replace the text in the targets and in the node, once in
each and in any order. -/
theorem Reachable.replaceAll_unfolded (h : Reachable t) (hf : t.unfolded = [])
    (hlive : t.isLive x = true) (hroot : x ≠ Tree.root) (hp : (t.node x).parent = some p)
    (htarget : t.isTarget target p = true) {openLabel closeLabel : Text} {opening closing : Char}
    (ho : t.labels.glyph openLabel = .ok opening) (hc : t.labels.glyph closeLabel = .ok closing)
    (old new : Text) (hnd : ids.Nodup) (hids : ∀ y, y ∈ ids ↔ y = x ∨ y ∈ t.targets target) :
    let opened := t.unfold x openLabel closeLabel
    let replaced := opened.tree.replaceAll old new target
    opened.result = .ok true ∧ replaced.result = .ok (t.replaceIn old new ids).1 ∧
      replaced.tree.foldAll.tree = (t.replaceIn old new ids).2 ∧
      replaced.tree.foldAll.result = .ok 1 := by
  intro opened replaced
  have hw := h.wellFormed
  have hg := h.grounded
  have hf : t.folds = [] := List.reverse_eq_nil_iff.1 hf
  obtain ⟨q, hq, hqlive⟩ := hw.shaped.exists_parent hlive hroot
  obtain rfl : p = q := Option.some.inj (hp.symm.trans (hw.shaped.parent hq))
  have hpt : p ∈ t.targets target := List.mem_filter.2 ⟨hqlive, htarget⟩
  have hfold := (hf ▸ hw.stacked : Stacked t []).fold_of_mem_children hq
  have hok : opened.result = .ok true := hw.shaped.unfold_live hlive hroot hfold ho hc
  refine ⟨hok, ?_⟩
  rcases hw.shaped.unfold_cases x openLabel closeLabel with
    ⟨-, hno⟩ | ⟨-, -, r, a, b, c, F, hh, he⟩
  · exact absurd hok hno
  obtain rfl : p = r := hw.shaped.parent_unique hq hh.folding.mem_children_place
  obtain ⟨htree, hresult⟩ := replaceAll_eq opened.tree old new target
  have he : opened.tree = t.unfoldAt x ⟨p, ⟨a.size, a.size + F.glyph.utf8Size⟩⟩ F := he
  rw [show replaced.tree = _ from htree, show replaced.result = _ from hresult, he]
  by_cases hold : old = []
  · subst hold
    rw [replaceIn_nil, replaceIn_nil]
    exact ⟨rfl, hw.foldAll_unfoldAt hf hg hh⟩
  · rw [replaceIn_of_ne hold, replaceIn_of_ne hold]
    obtain ⟨A, rfl, hA⟩ := exists_replaces hold new a
    obtain ⟨B, rfl, hB⟩ := exists_replaces hold new b
    obtain ⟨C, rfl, hC⟩ := exists_replaces hold new c
    have hd := hw.detour hf hg hh hold hnd hids hpt hA hB hC
    have hlt := hw.shaped.lt_of_chosen hh.body.lt hids
    have hw' := hw.replaceEach hlt hold new
    have hf' : (Tree.replaceEach old new ids t).2.folds = [] :=
      (congrArg Tree.folds hd.direct.stripped).trans hf
    refine ⟨congrArg Except.ok (hw.count_detour hf hg hh hold hnd hids hpt hA hB hC), ?_⟩
    rw [hd.eq_unfoldAt]
    exact hw'.foldAll_unfoldAt hf' (hw.grounded_replaceEach hg hlt hold new) hd.hidden_direct

/-- Hides a part of a text, and within it a part that ends as it does. -/
def hideWithin : List Command :=
  [.hideAll ['k'] ['x', 'y', '(', 'y', ')'] ['#'] ['*'], .hideAll ['m'] ['x', 'y'] ['$'] ['k']]

/-- The tree with a hidden part, and a part of that hidden in it. -/
def hiddenWithin : Tree := (ofText ['a', 'x', 'y', 'y', 'b']).after hideWithin

set_option maxRecDepth 20000 in
theorem reachable_hiddenWithin : Reachable hiddenWithin := by
  refine (Reachable.initial (.ofText _ _)).after ⟨?_, ?_, trivial⟩
  · exact admits_hideAll (by cbv)
  · exact admits_hideAll (by cbv)

theorem replaceAll_unfolded_hiddenWithin :
    let replaced := (hiddenWithin.unfold 2 ['<'] ['>']).tree.replaceAll ['y'] ['v', 'w'] ['k']
    Reachable hiddenWithin ∧ hiddenWithin.targets ['k'] = [1] ∧
      (hiddenWithin.replaceIn ['y'] ['v', 'w'] [2, 1]).1 = 2 ∧
      (hiddenWithin.unfold 2 ['<'] ['>']).result = .ok true ∧
      replaced.result = .ok (hiddenWithin.replaceIn ['y'] ['v', 'w'] [2, 1]).1 ∧
      replaced.tree.foldAll.tree = (hiddenWithin.replaceIn ['y'] ['v', 'w'] [2, 1]).2 ∧
      replaced.tree.foldAll.result = .ok 1 := by
  -- all that is to be computed, at once, since each run of `cbv` makes the tree anew
  obtain ⟨hunfolded, hlive, hp, htarget, htargets, ho, hc, hcount⟩ :
      hiddenWithin.unfolded = [] ∧ hiddenWithin.isLive 2 = true ∧
      (hiddenWithin.node 2).parent = some 1 ∧ hiddenWithin.isTarget ['k'] 1 = true ∧
      hiddenWithin.targets ['k'] = [1] ∧ hiddenWithin.labels.glyph ['<'] = .ok '<' ∧
      hiddenWithin.labels.glyph ['>'] = .ok '>' ∧
      (hiddenWithin.replaceIn ['y'] ['v', 'w'] [2, 1]).1 = 2 := by
    cbv
  exact ⟨reachable_hiddenWithin, htargets, hcount,
    Reachable.replaceAll_unfolded reachable_hiddenWithin hunfolded hlive (by decide) hp htarget
      ho hc ['y'] ['v', 'w'] (by decide) fun y => by simp [htargets]⟩

/-! ## Contents moved to an unfolded node -/

/-- Whether a command hides no empty region and puts no node below itself. Unlike an admitted one it
may move contents to a node that is unfolded and away from it. -/
def AdmitsMoves (t : Tree) : Command → Prop
  | .replaceNode target source => Acyclic (t.replaceNode target source).tree
  | .swap a b => Acyclic (t.swap a b).tree
  | c => t.Admits c

/-- A tree that commands lead to that hide no empty region and put no node below itself. -/
inductive Attainable : Tree → Prop where
  | initial {t : Tree} : Initial t → Attainable t
  | step {t : Tree} {c : Command} :
    Attainable t → t.AdmitsMoves c → Attainable (t.perform c).tree

theorem Admits.moves {c : Command} (h : t.Admits c) : t.AdmitsMoves c := by
  cases c with
  | replaceNode | swap => exact h.2.2
  | _ => exact h

theorem Reachable.attainable (h : Reachable t) : Attainable t := by
  induction h with
  | initial h => exact .initial h
  | step _ ha ih => exact ih.step ha.moves

/-- No node is its own ancestor if each comes after the one it is below. -/
theorem acyclic_of_lt
    (h : ((List.range t.size).all fun q => (t.below q).all (q < ·)) = true) : Acyclic t := by
  refine fun x => Ranked.irrefl ⟨(t.size - ·), fun q c hc => ?_⟩ x
  have hq : q < t.size :=
    (List.mem_append.1 hc).elim lt_size_of_mem_children lt_size_of_mem_expanded
  have hall := List.all_eq_true.1 h q (List.mem_range.2 hq)
  exact Nat.sub_lt_sub_left hq (of_decide_eq_true (List.all_eq_true.1 hall c hc))

/-- Hides a region, another one and a part of it, and unfolds the first. -/
def unfoldFirst : List Command :=
  [.hideAll ['u'] ['x'] ['$'] ['*'], .hideAll ['s'] ['a', 'y'] ['#'] ['*'],
    .hideAll ['c'] ['y'] ['¤'] ['s'], .unfold 1 ['<'] ['>']]

set_option maxRecDepth 20000 in
theorem reachable_unfoldFirst : Reachable ((ofText ['x', 'b', 'a', 'y']).after unfoldFirst) := by
  refine (Reachable.initial (.ofText _ _)).after ⟨?_, ?_, ?_, trivial, trivial⟩
  · exact admits_hideAll (by cbv)
  · exact admits_hideAll (by cbv)
  · exact admits_hideAll (by cbv)

/-- The tree in which the first region, while it was unfolded, took over the children of the second
one, and was then folded back. -/
def strayChild : Tree :=
  ((((ofText ['x', 'b', 'a', 'y']).after unfoldFirst).perform (.replaceNode 1 2)).tree.perform
    .foldAll).tree

set_option maxRecDepth 20000 in
theorem attainable_strayChild : Attainable strayChild := by
  have hmove :
      Acyclic (((ofText ['x', 'b', 'a', 'y']).after unfoldFirst).replaceNode 1 2).tree :=
    acyclic_of_lt (by cbv)
  exact (reachable_unfoldFirst.attainable.step (c := .replaceNode 1 2) hmove).step trivial

/-- The children that a node took over while it was unfolded are still its own after it is folded
back, with spans that lie outside of its text. When it is unfolded again they keep a replacement from
the text beside it. -/
theorem not_replaceAll_unfolded :
    ¬ ∀ t x p openLabel closeLabel opening closing old new target ids, Attainable t →
      t.unfolded = [] → t.isLive x = true → x ≠ root → (t.node x).parent = some p →
      t.isTarget target p = true → t.labels.glyph openLabel = .ok opening →
      t.labels.glyph closeLabel = .ok closing → ids.Nodup →
      (∀ y, y ∈ ids ↔ y = x ∨ y ∈ t.targets target) →
      let replaced := (t.unfold x openLabel closeLabel).tree.replaceAll old new target
      replaced.result = .ok (t.replaceIn old new ids).1 ∧
        replaced.tree.foldAll.tree = (t.replaceIn old new ids).2 := by
  intro hall
  obtain ⟨htargets, hunfolded, hlive, hp, htarget, ho, hc, hdirect, hthrough⟩ :
      strayChild.targets ['*'] = [0, 1, 3, 2] ∧ strayChild.unfolded = [] ∧
      strayChild.isLive 1 = true ∧ (strayChild.node 1).parent = some root ∧
      strayChild.isTarget ['*'] root = true ∧ strayChild.labels.glyph ['<'] = .ok '<' ∧
      strayChild.labels.glyph ['>'] = .ok '>' ∧
      (strayChild.replaceIn ['b'] ['q'] [0, 1, 3, 2]).1 = 1 ∧
      ((strayChild.unfold 1 ['<'] ['>']).tree.replaceAll ['b'] ['q'] ['*']).result = .ok 0 := by
    cbv
  have hids : ∀ y, y ∈ [0, 1, 3, 2] ↔ y = 1 ∨ y ∈ strayChild.targets ['*'] := by
    rw [htargets]
    intro y
    simp only [List.mem_cons]
    tauto
  obtain ⟨hcount, -⟩ := hall strayChild 1 root ['<'] ['>'] '<' '>' ['b'] ['q'] ['*'] [0, 1, 3, 2]
    attainable_strayChild hunfolded hlive (by decide) hp htarget ho hc (by decide) hids
  have hne := hthrough.symm.trans (hcount.trans (congrArg Except.ok hdirect))
  cases hne

end Tree

end GlyphTree
