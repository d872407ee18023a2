import GlyphTree.Proofs.Bodies

/-!
# Where bodies go

Each change of a tree patches the text of one node `p` and takes the bodies of all nodes along
(`Follows`): the body of `p` itself and the bodies between markers in its text are patched, those in
a region that goes move with it, and all others stay. So it is for hides, for folding and unfolding,
for edits of literal text and for the expansion of children.
-/

namespace GlyphTree

open Cells Patch

namespace Tree

variable {t t' : Tree} {p q x id : NodeId} {a b c cs z : Cells} {F : Fold} {M : Stretch} {off : Nat}
  {S : List NodeId}

/-- `t'` is `t` with the text of `p` patched and fresh nodes. All bodies have been taken along; those
in the text of `p` may have been patched, by patches of `M`. -/
structure Follows (t t' : Tree) (p : NodeId) (M : Stretch) : Prop where
  size : t.size ≤ t'.size
  old : Layout t p M.old
  new : Layout t' p M.new
  seated : ∀ {x q off b}, Seated t x q off b → ∃ B q' off', B.old = b ∧
    Carried t t' x off B q' off' ∧ (B.patches = [] ∨ q = p ∧ M.Part off B)
  unlisted : ∀ x, x < t.size → (t.node x).isUnfolded = true → (∀ q, x ∉ t.children q) →
    (t'.node x).groups = (t.node x).groups ∧ (t'.node x).isUnfolded = true ∧
      ∀ q, x ∉ t'.children q
  fresh : ∀ x, t.size ≤ x → (t'.node x).isUnfolded = false

/-- The body of a node stays where it is if the text it is in stays. -/
theorem Kept.body (k : Kept S t t') (hs : Shaped t) (hb : Body t x q off b) (hq : q ∉ S)
    (hf : (t'.node x).fold = (t.node x).fold) : Body t' x q off b := by
  cases hb with
  | own hx hl => exact .own (hf.trans hx) (k.layout hs hl hq)
  | lent hx hl => exact .lent (hf.trans hx) (k.layout hs hl hq)

/-- What is to be shown of a change. The nodes `E` are those whose bodies move; of the others only
`p` and the unfolded children of `p` have groups that change. -/
theorem Shaped.follows {E : NodeId → Prop} (hs : Shaped t) (k : Kept S t t')
    (hl : Layout t p M.old) (hl' : Layout t' p M.new)
    (hself : (t.node p).fold = none ∧ (t'.node p).fold = none ∧
      (t'.node p).groups = (edited (M.edits 0) (t.node p)).groups)
    (hE : ∀ x, E x → ∃ q, x ∈ t.children q)
    (hmove : ∀ {x q off b}, E x → Seated t x q off b →
      ∃ q' off', Carried t t' x off ⟨[], b⟩ q' off')
    (hstay : ∀ x ∈ t.children p, (t.node x).isUnfolded = true → ¬E x →
      (∀ g ∈ M.gone, x ∉ ids g) ∧ t'.node x = followEdits (M.edits 0) (t.node x))
    (hrest : ∀ x, x < t.size → x ≠ p → ¬E x →
      ((t.node x).isUnfolded = false ∨ x ∉ t.children p) →
      (t'.node x).fold = (t.node x).fold ∧ (t'.node x).groups = (t.node x).groups)
    (hS : ∀ {x q off b}, Body t x q off b → ¬E x → q ≠ p → q ∉ S)
    (hfresh : ∀ x, t.size ≤ x → (t'.node x).isUnfolded = false) : Follows t t' p M where
  size := k.size
  old := hl
  new := hl'
  seated {x q off b} h := by
    by_cases hx : E x
    · obtain ⟨q', off', hc⟩ := hmove hx h
      exact ⟨_, q', off', rfl, hc, .inl rfl⟩
    · by_cases hq : q = p
      · subst hq
        rcases h.body.own_or_lent with ⟨-, ⟨-, rfl⟩ | ⟨hu, hmem⟩⟩
        · cases h.body with
          | own _ hown =>
            obtain rfl := hl.unique hown
            exact ⟨M, x, 0, rfl, h.carried_own hl' hself.2.1 hself.2.2, .inr ⟨rfl, .whole⟩⟩
          | lent hf => cases hself.1.symm.trans hf
        · obtain ⟨hgone, hn⟩ := hstay x hmem hu hx
          obtain ⟨B, off', hB, hc, hpart⟩ := h.carried_between hu hl hl' hgone hn
          exact ⟨B, q, off', hB, hc, .inr ⟨rfl, hpart⟩⟩
      · have hbody := h.body.own_or_lent
        have hxp : x ≠ p := by
          rintro rfl
          rcases hbody.2 with ⟨-, rfl⟩ | ⟨hu, -⟩
          · exact hq rfl
          · rw [Node.isUnfolded_of_none hself.1] at hu
            cases hu
        obtain ⟨hf, hg⟩ := hrest x hbody.1 hxp hx <| hbody.2.imp And.left
          fun hm hp => hq (hs.parent_unique hm.2 hp)
        exact ⟨_, q, off, rfl, h.carried_same (k.body hs h.body (hS h.body hx hq) hf) hg, .inl rfl⟩
  unlisted x hx hu hno := by
    have hxp : x ≠ p := fun e => by
      rw [e, Node.isUnfolded_of_none hself.1] at hu
      cases hu
    obtain ⟨hf, hg⟩ := hrest x hx hxp (fun hE' => (hE x hE').elim hno) (.inr (hno p))
    refine ⟨hg, (Node.isUnfolded_congr hf).trans hu, fun q hq => ?_⟩
    obtain ⟨s, hs⟩ := k.listed hq hx
    exact hno s hs
  fresh := hfresh

/-! ## Hiding -/

end Tree

namespace Region

variable {n o : Nat} {r : Region} {rs : List Region} {z : Cells}

/-- The regions of a text as patches that put the glyphs of fresh nodes there, from number `n` on. -/
def markedPatches : NodeId → List Region → List Patch
  | _, [] => []
  | n, r :: rs => ⟨r.kept, r.gone, [⟨r.glyph, some (.glyph n)⟩]⟩ :: markedPatches (n + 1) rs

/-- The text of a node some regions of which give way to glyphs. -/
def stretch (n : NodeId) (rs : List Region) (z : Cells) : Stretch := ⟨markedPatches n rs, z⟩

@[simp] theorem old_stretch : (stretch n rs z).old = cells rs z := by
  induction rs generalizing n with
  | nil => rfl
  | cons r rs ih =>
    rw [cells_cons, ← ih (n := n + 1)]
    rfl

@[simp] theorem new_stretch : (stretch n rs z).new = marked n rs z := by
  induction rs generalizing n with
  | nil => rfl
  | cons r rs ih =>
    rw [marked, ← ih]
    exact List.append_assoc ..

@[simp] theorem edits_stretch : (stretch n rs z).edits o = Patch.edits o (rs.map patch) := by
  induction rs generalizing n o with
  | nil => rfl
  | cons r rs ih => exact congrArg _ ih

@[simp] theorem gone_stretch : (stretch n rs z).gone = rs.map Region.gone := by
  induction rs generalizing n with
  | nil => rfl
  | cons r rs ih => exact congrArg _ ih

end Region

namespace Tree

open Region

variable {t t' : Tree} {p q x : NodeId} {n o : Nat} {b z : Cells} {rs : List Region} {off : Nat}

/-- Each child inside a region has moved to the fresh node of the region. -/
theorem Landed.exists_region (h : Landed t t' n o rs) (hx : x ∈ inside rs) :
    ∃ (l : Cells) (r : Region) (e : Cells) (m : NodeId), cells rs z = l ++ r.gone ++ e ∧
      Taken t t' m (o + l.size) r ∧ x ∈ starts r.gone := by
  induction rs generalizing n o with
  | nil => cases hx
  | cons r rs ih =>
    rw [inside_cons, List.mem_append] at hx
    rcases hx with hx | hx
    · exact ⟨r.kept, r, cells rs z, n, cells_cons z, h.1, hx⟩
    · obtain ⟨l, r', e, m, hcells, ht, hx⟩ := ih h.2 hx
      refine ⟨r.kept ++ r.gone ++ l, r', e, m, ?_, ?_, hx⟩
      · rw [cells_cons, hcells]
        simp only [List.append_assoc]
      · rwa [size_append, size_append, ← Nat.add_assoc, ← Nat.add_assoc]

theorem Landed.nested (h : Landed t t' n o rs) : ∀ r ∈ rs, Nested r.gone := by
  induction rs generalizing n o with
  | nil => exact fun _ hr => by cases hr
  | cons r rs ih => exact List.forall_mem_cons.2 ⟨h.1.layout.nested, ih h.2⟩

section
variable (s : Spliced t t' p rs z) (h : Layout t p (cells rs z))
include s h

/-- An old node that is not unfolded keeps its groups, unless its own text is cut. -/
theorem Spliced.groups {j : NodeId} (hj : j < t.size) (hjp : j ≠ p)
    (hu : (t.node j).isUnfolded = false ∨ j ∉ t.children p) :
    (t'.node j).groups = (t.node j).groups := by
  by_cases hjc : j ∈ t.children p
  · have hu := hu.resolve_right (not_not.2 hjc)
    rcases h.mem_children_cells.1 hjc with hj' | hj'
    · rw [s.stays j hj', groups_followEdits hu]
    · obtain ⟨q, sub, hm⟩ := s.landed.exists_moved hj'
      rw [hm, groups_moved hu]
  · rw [s.other j hj hjp hjc]

theorem Spliced.follows (hs : Shaped t) (hrs : rs ≠ []) (hpos : ∀ r ∈ rs, 0 < r.gone.size) :
    Follows t t' p (stretch t.size rs z) := by
  have hfold : (t.node p).fold = none := hs.fold_of_layout h fun hnil => by
    obtain ⟨r, rs, rfl⟩ := List.exists_cons_of_ne_nil hrs
    have := hpos r List.mem_cons_self
    rw [cells_cons, List.append_eq_nil_iff, List.append_eq_nil_iff] at hnil
    simp [hnil.1.2] at this
  refine hs.follows (E := fun x => x ∈ inside rs ∧ (t.node x).isUnfolded = true) (s.kept h)
    (by simpa using h) (by simpa using s.layout) ⟨hfold, ?_, ?_⟩ ?_ ?_ ?_ ?_ ?_ ?_
  · rw [s.parent]
    exact hfold
  · rw [s.parent, edits_stretch]
  · exact fun x hx => ⟨p, h.mem_children_cells.2 (.inr hx.1)⟩
  · rintro x q off b ⟨hx, hu⟩ hb
    obtain ⟨F, hF⟩ := Option.isSome_iff_exists.1 hu
    obtain ⟨l, r, e, m, hcells, ht, hxr⟩ := s.landed.exists_region (z := z) hx
    have hm := ht.moved x hxr
    rw [Nat.zero_add] at hm
    obtain ⟨a, c, d, hr⟩ := ht.layout.exists_unfolded (ht.layout.children ▸ hxr)
      (by rw [hm, moved, hF])
    rw [hcells, hr] at h
    have hl' : Layout t' m ([] ++ unfoldedCells x F a c d ++ []) := by simpa [hr] using ht.layout
    exact ⟨m, hb.carried_moved hF h hl' hm⟩
  · intro x hx hu hE
    have hx := (h.mem_children_cells.1 hx).resolve_right fun hx => hE ⟨hx, hu⟩
    refine ⟨fun g hg hxg => ?_, by rw [s.stays x hx, edits_stretch]⟩
    rw [gone_stretch] at hg
    obtain ⟨r, hr, rfl⟩ := List.mem_map.1 hg
    have hin : x ∈ inside rs :=
      List.mem_flatMap.2 ⟨r, hr, (s.landed.nested r hr).mem_ids.1 hxg⟩
    exact (List.nodup_append.1 h.nodup_cells).2.2 x hx x hin rfl
  · exact fun x hx hxp _ hu => ⟨(s.content h hx hxp).2.2.2, s.groups h hx hxp hu⟩
  · exact fun _ _ hq => by simpa using hq
  · intro x hx
    rw [s.isUnfolded h, node_eq_default hx]
    rfl

end

/-! ## Folding and unfolding -/

section
variable {id : NodeId} {a c : Cells} {F : Fold}

/-- The text of a node in which a region gives way to a glyph. -/
def foldStretch (id : NodeId) (F : Fold) (a b c : Cells) : Stretch :=
  ⟨[{ foldPatch id F a b with new := [⟨F.glyph, some (.glyph id)⟩] }], c⟩

/-- The text of a node in which a region comes for a glyph. -/
def unfoldStretch (id : NodeId) (F : Fold) (a b c : Cells) : Stretch :=
  ⟨[⟨a, [⟨F.glyph, some (.glyph id)⟩],
    ⟨F.opening, some (.opening id)⟩ :: b ++ [⟨F.closing, some (.closing id)⟩]⟩], c⟩

@[simp] theorem old_foldStretch : (foldStretch id F a b c).old = unfoldedCells id F a b c := by
  simp [foldStretch, foldPatch, Stretch.old, before, unfoldedCells]

@[simp] theorem new_foldStretch : (foldStretch id F a b c).new = foldedCells id F a c := by
  simp [foldStretch, foldPatch, Stretch.new, Patch.after, foldedCells]

theorem edits_foldStretch :
    (foldStretch id F a b c).edits 0 = Patch.edits 0 [foldPatch id F a b] := rfl

@[simp] theorem old_unfoldStretch : (unfoldStretch id F a b c).old = foldedCells id F a c := by
  simp [unfoldStretch, Stretch.old, before, foldedCells]

@[simp] theorem new_unfoldStretch : (unfoldStretch id F a b c).new = unfoldedCells id F a b c := by
  simp [unfoldStretch, Stretch.new, Patch.after, unfoldedCells]

theorem edits_unfoldStretch :
    (unfoldStretch id F a b c).edits 0 = Patch.edits 0 [unfoldPatch id F a b] := by
  simp [unfoldStretch, unfoldPatch, Stretch.edits, Patch.edits]

/-- The cells of a region after those before it, with those behind it. -/
theorem unfoldedCells_eq (id : NodeId) (F : Fold) (a b c : Cells) : unfoldedCells id F a b c =
    (a ++ [⟨F.opening, some (.opening id)⟩]) ++ b ++ (⟨F.closing, some (.closing id)⟩ :: c) := by
  simp [unfoldedCells]

theorem size_append_opening (a : Cells) (F : Fold) (m : CellMark) :
    Cells.size (a ++ [⟨F.opening, some m⟩]) = a.size + F.opening.utf8Size := by
  simp

/-- The body of a node that is folded back becomes its own text again, and the bodies between its
markers move there with it. -/
theorem Layout.carried_foldBack {b' : Cells} (h : Layout t p (unfoldedCells id F a b c))
    (hs : Shaped t) (hF : (t.node id).fold = some F)
    (hx : x = id ∨ x ∈ starts b ∧ (t.node x).isUnfolded = true) (hseat : Seated t x q off b') :
    ∃ q' off', Carried t (t.foldedBack p id F a b c) x off ⟨[], b'⟩ q' off' := by
  have hid := hs.hollow id (Node.isUnfolded_of_some hF)
  have hfolding := h.folding_foldBack hid hF
  have hnode := h.node_foldBack hid
  generalize t.foldedBack p id F a b c = u at *
  rcases hx with rfl | ⟨hx, hu⟩
  · obtain ⟨rfl, rfl, rfl⟩ := hseat.body.unique (.lent hF h)
    refine ⟨x, 0, hseat.carried_along (.own hfolding.folded hfolding.body)
      (f := fun s => (movedSpan (a.size + F.opening.utf8Size) 0 s).filter
        fun m => (b'.text.slice? m).isSome) ?_ fun r hr => ?_⟩
    · rw [hnode, if_pos rfl]
      rfl
    · have hmove := movedSpan_shiftUp (a.size + F.opening.utf8Size) 0 0 r
      rw [Nat.add_zero, Nat.add_zero, Span.shiftUp_zero] at hmove
      rw [hmove, Option.filter_some, if_pos (Text.isSome_slice?_iff.2 hr), Span.shiftUp_zero]
  · obtain ⟨G, hG⟩ := Option.isSome_iff_exists.1 hu
    obtain ⟨-, -, hb⟩ := h.unfolded_disjoint
    obtain ⟨hxid, hxp, -, -⟩ := hb x hx
    have hm : u.node x = moved id (a.size + F.opening.utf8Size) 0 (t.node x) := by
      rw [hnode, if_neg hxid, if_neg hxp, if_pos hx]
    obtain ⟨a', c', d', hr⟩ := hfolding.body.exists_unfolded (hfolding.body.children ▸ hx)
      (by rw [hm, moved, hG])
    rw [unfoldedCells_eq, hr] at h
    have hl' : Layout u id ([] ++ unfoldedCells x G a' c' d' ++ []) := by
      simpa [hr] using hfolding.body
    rw [← size_append_opening a F (.opening id)] at hm
    exact ⟨id, hseat.carried_moved hG h hl' hm⟩

theorem Layout.follows_foldBack (h : Layout t p (unfoldedCells id F a b c)) (hs : Shaped t)
    (hF : (t.node id).fold = some F) :
    Follows t (t.foldedBack p id F a b c) p (foldStretch id F a b c) := by
  have hid := hs.hollow id (Node.isUnfolded_of_some hF)
  have hfolding := h.folding_foldBack hid hF
  have hnode := h.node_foldBack hid
  have hcarried : ∀ {x q off} {b' : Cells},
      x = id ∨ x ∈ starts b ∧ (t.node x).isUnfolded = true → Seated t x q off b' →
        ∃ q' off', Carried t (t.foldedBack p id F a b c) x off ⟨[], b'⟩ q' off' :=
    h.carried_foldBack hs hF
  obtain ⟨hne, -, -⟩ := h.unfolded_disjoint
  have hfold := hs.fold_of_layout h (by simp [unfoldedCells])
  have hkids : ∀ {x}, x ∈ t.children p ↔ x = id ∨ x ∈ starts b ∨ x ∈ starts (a ++ c) := by
    intro x
    rw [h.children, unfoldedCells]
    simp only [starts_append, starts_opening, starts_closing, List.mem_append, List.mem_cons]
    tauto
  generalize t.foldedBack p id F a b c = u at *
  refine hs.follows (E := fun x => x = id ∨ x ∈ starts b ∧ (t.node x).isUnfolded = true)
    hfolding.kept_fold (by simpa using h) (by simpa using hfolding.place) ⟨hfold, ?_, ?_⟩
    ?_ hcarried ?_ ?_ ?_ ?_
  · rw [hfolding.fold p (Ne.symm hne), hfold]
  · rw [hnode, if_neg (Ne.symm hne), if_pos rfl, edits_foldStretch]
  · exact fun x hx => ⟨p, hkids.2 (hx.imp_right (Or.inl ∘ And.left))⟩
  · intro x hx hu hE
    rw [not_or] at hE
    have hxb : x ∉ starts b := fun hx => hE.2 ⟨hx, hu⟩
    have hxp : x ≠ p := fun e => h.irrefl (h.children ▸ e ▸ hx)
    have hxac := ((hkids.1 hx).resolve_left hE.1).resolve_left hxb
    refine ⟨fun g hg hxg => ?_, ?_⟩
    · obtain rfl := List.mem_singleton.1 hg
      simp [foldPatch, hfolding.body.nested.mem_ids, CellMark.id, hE.1, hxb] at hxg
    · rw [hnode, if_neg hE.1, if_neg hxp, if_neg hxb, if_pos hxac, edits_foldStretch]
  · intro x hx hxp hE hu
    rw [not_or] at hE
    refine ⟨hfolding.fold x hE.1, ?_⟩
    rw [hnode, if_neg hE.1, if_neg hxp]
    split_ifs with hxb hxac
    · exact groups_moved (hu.resolve_right fun hno => hno (hkids.2 (.inr (.inl hxb)))) _ _
    · exact groups_followEdits (hu.resolve_right fun hno => hno (hkids.2 (.inr (.inr hxac)))) _
    · rfl
  · intro x q off b' hbody hE hq
    have hqid : q ≠ id := by
      rintro rfl
      rcases hbody.own_or_lent.2 with ⟨-, rfl⟩ | ⟨-, hx⟩
      · exact hE (.inl rfl)
      · rw [hid.children] at hx
        cases hx
    simp [hq, hqid]
  · intro x hx
    rw [node_eq_default (hfolding.size ▸ hx)]
    rfl

/-- The own text of a node that is unfolded comes to stand between its markers, and the bodies in it
move there. -/
theorem Hidden.carried_unfoldAt {b' : Cells} (h : Hidden t p id a b c F)
    (hx : x = id ∨ x ∈ starts b ∧ (t.node x).isUnfolded = true) (hseat : Seated t x q off b') :
    ∃ q' off', Carried t (t.unfoldAt id ⟨p, ⟨a.size, a.size + F.glyph.utf8Size⟩⟩ F) x off ⟨[], b'⟩
      q' off' := by
  have hfolding := h.folding
  have hnode := h.node_unfoldAt
  generalize t.unfoldAt id ⟨p, ⟨a.size, a.size + F.glyph.utf8Size⟩⟩ F = u at *
  rcases hx with rfl | ⟨hx, hu⟩
  · obtain ⟨rfl, rfl, rfl⟩ := hseat.body.unique (.own h.folded h.body)
    refine ⟨p, _, hseat.carried_along (.lent hfolding.unfolded hfolding.around)
      (f := movedSpan 0 (a.size + F.opening.utf8Size)) ?_ fun r _ => ?_⟩
    · rw [hnode, if_pos rfl, moveGroups_of_unfolded rfl]
      rfl
    · exact movedSpan_shiftUp 0 (a.size + F.opening.utf8Size) 0 r
  · obtain ⟨G, hG⟩ := Option.isSome_iff_exists.1 hu
    have hxid : x ≠ id := fun e => h.body.irrefl (e ▸ hx)
    have hxp : x ≠ p := fun e => h.apart (e ▸ hx)
    have hm : u.node x = moved p 0 (a.size + F.opening.utf8Size) (t.node x) := by
      rw [hnode, if_neg hxid, if_neg hxp, if_pos hx]
    obtain ⟨a', c', d', hr⟩ := h.body.exists_unfolded (h.body.children ▸ hx) hG
    have hl' := hfolding.around
    rw [unfoldedCells_eq, hr] at hl'
    have hl : Layout t id ([] ++ unfoldedCells x G a' c' d' ++ []) := by
      simpa [hr] using h.body
    rw [← size_append_opening a F (.opening id)] at hm
    exact ⟨p, hseat.carried_moved hG hl hl' hm⟩

theorem Hidden.follows_unfoldAt (h : Hidden t p id a b c F) (hs : Shaped t) :
    Follows t (t.unfoldAt id ⟨p, ⟨a.size, a.size + F.glyph.utf8Size⟩⟩ F) p
      (unfoldStretch id F a b c) := by
  have hfolding := h.folding
  have hnode := h.node_unfoldAt
  have hcarried : ∀ {x q off} {b' : Cells},
      x = id ∨ x ∈ starts b ∧ (t.node x).isUnfolded = true → Seated t x q off b' →
        ∃ q' off', Carried t (t.unfoldAt id ⟨p, ⟨a.size, a.size + F.glyph.utf8Size⟩⟩ F) x off
          ⟨[], b'⟩ q' off' := h.carried_unfoldAt
  obtain ⟨hne, -, -⟩ := h.place.folded_disjoint
  have hfold := hs.fold_of_layout h.place (by simp [foldedCells])
  have hb : ∀ {x}, x ∈ starts b ↔ x ∈ t.children id := by
    intro x
    rw [h.body.children]
  have hkids : ∀ {x}, x ∈ t.children p ↔ x = id ∨ x ∈ starts (a ++ c) := by
    intro x
    rw [h.place.children, foldedCells]
    simp only [starts_append, starts_glyph, List.mem_append, List.mem_cons]
    tauto
  generalize t.unfoldAt id ⟨p, ⟨a.size, a.size + F.glyph.utf8Size⟩⟩ F = u at *
  refine hs.follows (E := fun x => x = id ∨ x ∈ starts b ∧ (t.node x).isUnfolded = true)
    hfolding.kept_unfold (by simpa using h.place) (by simpa using hfolding.around)
    ⟨hfold, ?_, ?_⟩ ?_ hcarried ?_ ?_ ?_ ?_
  · rw [← hfolding.fold p (Ne.symm hne), hfold]
  · rw [hnode, if_neg (Ne.symm hne), if_pos rfl, edits_unfoldStretch]
  · rintro x (rfl | ⟨hx, -⟩)
    · exact ⟨p, hkids.2 (.inl rfl)⟩
    · exact ⟨id, hb.1 hx⟩
  · intro x hx hu hE
    rw [not_or] at hE
    have hxb : x ∉ starts b := fun hx => hE.2 ⟨hx, hu⟩
    have hxp : x ≠ p := fun e => h.place.irrefl (h.place.children ▸ e ▸ hx)
    have hxac := (hkids.1 hx).resolve_left hE.1
    refine ⟨fun g hg hxg => ?_, ?_⟩
    · obtain rfl := List.mem_singleton.1 hg
      simp [CellMark.id, hE.1] at hxg
    · rw [hnode, if_neg hE.1, if_neg hxp, if_neg hxb, if_pos hxac, edits_unfoldStretch]
  · intro x hx hxp hE hu
    rw [not_or] at hE
    refine ⟨(hfolding.fold x hE.1).symm, ?_⟩
    rw [hnode, if_neg hE.1, if_neg hxp]
    split_ifs with hxb hxac
    · have hxu : (t.node x).isUnfolded = false := by simpa [hxb] using hE.2
      exact groups_moved hxu _ _
    · exact groups_followEdits (hu.resolve_right fun hno => hno (hkids.2 (.inr hxac))) _
    · rfl
  · intro x q off b' hbody hE hq
    have hqid : q ≠ id := by
      rintro rfl
      rcases hbody.own_or_lent.2 with ⟨-, rfl⟩ | ⟨hu, hx⟩
      · exact hE (.inl rfl)
      · exact hE (.inr ⟨hb.2 hx, hu⟩)
    simp [hq, hqid]
  · intro x hx
    rw [node_eq_default (hfolding.size ▸ hx)]
    rfl

end

/-! ## Literal text -/

theorem Layout.follows_edit {ps : List Patch} (h : Layout t p (before ps z)) (hs : Shaped t)
    (hps : ps ≠ []) (hlit : ∀ y ∈ ps, y.Literal) (hf : (t.node p).fold = none) :
    Follows t (t.rewrite p (Patch.edits 0 ps)) p ⟨ps, z⟩ := by
  have hnode := h.node_edit hps
  have hcontent := h.content_edit hps
  refine hs.follows (E := fun _ => False) (h.kept_edit hps) h (h.edit_literal hps hlit)
    ⟨hf, (hcontent p).1.trans hf, ?_⟩ (fun _ hE => hE.elim) (fun hE => hE.elim) ?_ ?_ ?_ ?_
  · rw [hnode, if_pos rfl]
    rfl
  · intro x hx _ _
    have hxp : x ≠ p := fun e => h.irrefl (h.children ▸ e ▸ hx)
    refine ⟨fun g hg hxg => ?_, by rw [hnode, if_neg hxp, if_pos hx]; rfl⟩
    obtain ⟨y, hy, rfl⟩ := List.mem_map.1 hg
    rw [(hlit y hy).gone, ids_plain] at hxg
    cases hxg
  · intro x hx hxp _ hu
    refine ⟨(hcontent x).1, ?_⟩
    rw [hnode, if_neg hxp]
    split_ifs with hxc
    · exact groups_followEdits (hu.resolve_right (not_not.2 hxc)) _
    · rfl
  · exact fun _ _ hq => by simpa using hq
  · intro x hx
    rw [node_eq_default (by simpa using hx)]
    rfl

/-! ## Expanding for good -/

/-- Cells in which texts come for all marked cells. -/
def expansion (r : NodeId → Text) : Cells → Stretch
  | [] => ⟨[], []⟩
  | ⟨ch, none⟩ :: cs => (expansion r cs).prepend [⟨ch, none⟩]
  | ⟨ch, some m⟩ :: cs => (expansion r cs).cons ⟨[], [⟨ch, some m⟩], plain (r m.id)⟩

section
variable {r : NodeId → Text} {cs : Cells}

theorem old_expansion (r : NodeId → Text) (cs : Cells) : (expansion r cs).old = cs := by
  induction cs using expansion.induct with
  | case1 => rfl
  | case2 ch cs ih => rw [expansion, Stretch.old_prepend, ih, List.singleton_append]
  | case3 ch m cs ih => simp [expansion, ih]

theorem new_expansion (r : NodeId → Text) (cs : Cells) :
    (expansion r cs).new = plain (expansion r cs).new.text := by
  induction cs using expansion.induct with
  | case1 => rfl
  | case2 ch cs ih =>
    rw [expansion, Stretch.new_prepend, text_append, plain_append, ← ih]
    rfl
  | case3 ch m cs ih => simpa [expansion] using ih

theorem edits_expansion (r : NodeId → Text) (o : Nat) (cs : Cells) :
    (expansion r cs).edits o = (marks o cs).map fun x => ⟨x.1, r x.2⟩ := by
  induction cs using expansion.induct generalizing o with
  | case1 => rfl
  | case2 ch cs ih => simp [expansion, ih]
  | case3 ch m cs ih => simp [expansion, ih]

/-- Each patch is of one marked cell. -/
theorem mem_patches_expansion {y : Patch} (hy : y ∈ (expansion r cs).patches) :
    ∃ ch m, (⟨ch, some m⟩ : Cell) ∈ cs ∧ y.gone = [⟨ch, some m⟩] ∧ y.new = plain (r m.id) := by
  induction cs using expansion.induct generalizing y with
  | case1 => cases hy
  | case2 ch cs ih =>
    obtain ⟨y', hy', hgone, hnew⟩ := Stretch.mem_patches_prepend hy
    obtain ⟨ch', m, hm, h1, h2⟩ := ih hy'
    exact ⟨ch', m, List.mem_cons_of_mem _ hm, hgone ▸ h1, hnew ▸ h2⟩
  | case3 ch m cs ih =>
    rcases List.mem_cons.1 hy with rfl | hy
    · exact ⟨ch, m, List.mem_cons_self, rfl, rfl⟩
    · obtain ⟨ch', m', hm, h⟩ := ih hy
      exact ⟨ch', m', List.mem_cons_of_mem _ hm, h⟩

end

/-- What takes the place of the glyphs when the children of `x` are expanded. -/
def expandStretch (t : Tree) (cs : Cells) : Stretch :=
  expansion (t.resolveId fun c => (t.node c).text) cs

theorem Expanded.kept {cs : Cells} (e : Expanded t t' p cs) : Kept [p] t t' where
  size := Nat.le_of_eq e.size.symm
  content j _ hj := by
    rw [Tree.children, Tree.children, e.other j (by simpa using hj)]
    exact ⟨rfl, rfl, rfl⟩
  stands j _ _ := e.stands j
  kids q hq c hc hlt := by
    rcases hq with hq | hq
    · rw [List.mem_singleton.1 hq, e.children] at hc
      cases hc
    · rw [Tree.children, node_eq_default (e.size ▸ hq)] at hc
      cases hc

section
variable {cs : Cells} (h : Layout t p cs)
include h

theorem Layout.new_expandStretch :
    (t.expandStretch cs).new = plain (fill (fun c => (t.node c).text) cs) := by
  have hfits : t.Fits p (0 + Text.byteSize []) cs := h.fits
  have htext := hfits.applyEditsFrom fun c => (t.node c).text
  rw [Text.byteSize_nil, List.nil_append, List.nil_append, Nat.add_zero, ← edits_expansion] at htext
  have hnew := (expansion (t.resolveId fun c => (t.node c).text) cs).applyEdits_edits
  rw [old_expansion, applyEdits, htext] at hnew
  rw [expandStretch, new_expansion, ← hnew]

/-- Expanding the children of a node, none of which is unfolded. -/
theorem Layout.follows_expandChildren (hs : Shaped t) (hne : t.children p ≠ [])
    (hf : ∀ c ∈ t.children p, (t.node c).fold = none) :
    Follows t (t.expandChildren p) p (t.expandStretch cs) := by
  have he := h.expanded hf
  have hfold := hs.fold_of_layout h fun hnil => hne (by rw [h.children, hnil, starts_nil])
  have hedits := h.fits.filterMap_span fun i hi => hf i (h.children ▸ h.nested.mem_ids.1 hi)
  rw [← h.children, ← edits_expansion (t.resolveId fun c => (t.node c).text)] at hedits
  have hes : (t.expandStretch cs).edits 0 ≠ [] := fun hnil => by
    rw [expandStretch, edits_expansion, List.map_eq_nil_iff] at hnil
    rw [h.children, eq_plain_of_marks hnil, starts_plain] at hne
    exact hne rfl
  have hgroups : ((t.expandChildren p).node p).groups =
      (edited ((t.expandStretch cs).edits 0) (t.node p)).groups := by
    rw [expandChildren, node_modify, if_pos ⟨rfl, by simpa using h.lt⟩]
    dsimp only
    rw [hedits, ← expandStretch, node_collapse hes h.lt .nil (by simp) (by simp), if_pos rfl]
    rfl
  refine hs.follows (E := fun _ => False) he.kept (by rwa [expandStretch, old_expansion])
    (by rw [h.new_expandStretch]; exact he.layout_self h.lt)
    ⟨hfold, he.fold.trans hfold, hgroups⟩ (fun _ hE => hE.elim) (fun hE => hE.elim) ?_ ?_ ?_ ?_
  · intro x hx hu
    rw [Node.isUnfolded_of_none (hf x hx)] at hu
    cases hu
  · intro x _ hxp _ _
    rw [he.other x hxp]
    exact ⟨rfl, rfl⟩
  · exact fun _ _ hq => by simpa using hq
  · intro x hx
    rw [node_eq_default (he.size ▸ hx)]
    rfl

end

end Tree

end GlyphTree
