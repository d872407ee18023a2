import GlyphTree.Proofs.Groups

/-!
# Undoing unfolds

Folding back is the inverse of unfolding, for every field of every node. Each unfold shifts the
offsets behind a glyph by the size of the region that comes for it, and folding back shifts them by
as much the other way; no offset of a child or of a group falls inside of a glyph, since a glyph is
a single character. So a run of unfolds is undone, from the last to the first, by folding back the
whole stack (`Reachable.foldAll_unfolds`).
-/

namespace GlyphTree

/-- Whether a command unfolds a node. -/
def Command.isUnfold : Command → Bool
  | .unfold .. => true
  | _ => false

open Cells Patch

namespace Tree

variable {t u : Tree} {p q id j : NodeId} {a b c cs : Cells} {F : Fold} {s : Span} {n : Node}
  {es es' : List Edit} {off : Nat}

/-! ## Offsets -/

/-- No offset of a text falls inside of the glyph of a child. -/
theorem beside_unfoldPatch {pos : Nat} (h : (foldedCells id F a c).text.Boundary 0 pos) (b : Cells) :
    (unfoldPatch id F a b).Beside pos := by
  rw [foldedCells, text_append, text_cons] at h
  have := h.beside
  rwa [Nat.zero_add] at this

/-- The region that comes for a glyph shifts the offsets behind it, and the glyph that comes for the
region shifts them back. -/
theorem across_foldPatch {pos : Nat} (h : (unfoldPatch id F a b).Beside pos) :
    (foldPatch id F a b).Beside ((unfoldPatch id F a b).across pos) ∧
      (foldPatch id F a b).across ((unfoldPatch id F a b).across pos) = pos := by
  have hopen := F.opening.utf8Size_pos
  have hglyph := F.glyph.utf8Size_pos
  simp only [Beside, unfoldPatch, foldPatch, across, size_cons, size_append, size_nil, size_plain,
    Text.byteSize_append, Text.byteSize_cons, Text.byteSize_nil,
    show Text.byteSize b.text = b.size from rfl, List.cons_append] at h ⊢
  split_ifs <;> omega

theorem remapSpan_foldPatch (h : (foldedCells id F a c).text.Holds s) (b : Cells) :
    remapSpan (remapSpan s (edits 0 [unfoldPatch id F a b])) (edits 0 [foldPatch id F a b]) = s := by
  obtain ⟨hle, hstart, hstop⟩ := h
  have hstart := beside_unfoldPatch hstart b
  have hstop := beside_unfoldPatch hstop b
  have hglyph : 0 < (unfoldPatch id F a b).gone.size := by
    simpa [unfoldPatch] using F.glyph.utf8Size_pos
  have hregion : 0 < (foldPatch id F a b).gone.size := by
    rw [foldPatch, List.cons_append, size_cons]
    exact Nat.add_pos_left F.opening.utf8Size_pos _
  rw [remapSpan_beside hglyph hle hstart hstop, remapSpan_beside hregion
    (across_le hstop hle) (across_foldPatch hstart).1 (across_foldPatch hstop).1,
    (across_foldPatch hstart).2, (across_foldPatch hstop).2]

/-! ## Nodes -/

/-- A child that follows edits there and back. -/
theorem followEdits_followEdits
    (h : ∀ s, n.span = some s → remapSpan (remapSpan s es) es' = s)
    (hg : n.isUnfolded = true → ∀ s, n.Records s → remapSpan (remapSpan s es) es' = s) :
    followEdits es' (followEdits es n) = n := by
  rw [followEdits_eq es', followEdits_eq es n]
  refine congrArg₂ (fun place groups => ({ n with place, groups } : Node)) ?_ ?_
  · cases hp : n.place with
    | none => rfl
    | some pl => simp [h pl.span (by rw [Node.span, hp]; rfl)]
  · by_cases hu : n.fold.isSome = true
    · simp only [Node.isUnfolded, hu, if_true]
      exact Node.groups_mapGroups (some <| remapSpan · es) (some <| remapSpan · es') rfl
        fun s hs => congrArg some (hg hu s hs)
    · simp [Node.isUnfolded, hu]

theorem records_followEdits (hu : n.isUnfolded = true) (hs : (followEdits es n).Records s) :
    ∃ r, n.Records r ∧ s = remapSpan r es := by
  rw [followEdits_eq, Node.Records] at hs
  simp only [hu, if_true] at hs
  obtain ⟨r, hr, hmap⟩ := Node.records_mapGroups.1 hs
  exact ⟨r, hr, (Option.some.inj hmap).symm⟩

theorem moveGroups_of_unfolded (h : n.isUnfolded = true) (sub add : Nat) :
    moveGroups sub add n = n.mapGroups (movedSpan sub add) := by
  simp only [moveGroups, h, Bool.true_or]
  refine congrArg n.mapGroups (funext fun s => ?_)
  cases movedSpan sub add s <;> rfl

theorem records_moveGroups {m : Node} (hu : n.isUnfolded = true)
    (hm : m.groups = (moveGroups 0 off n).groups) (hs : m.Records s) :
    ∃ r, n.Records r ∧ s = r.shiftUp off := by
  rw [moveGroups_of_unfolded hu] at hm
  rw [Node.Records, hm] at hs
  obtain ⟨r, hr, hmove⟩ := Node.records_mapGroups.1 hs
  refine ⟨r, hr, ?_⟩
  simpa [movedSpan, Span.shiftUp] using hmove.symm

/-- A child that moves there and back. -/
theorem moved_moved (h : n.parent = some id) : moved id off 0 (moved p 0 off n) = n := by
  obtain ⟨pl, hp, rfl⟩ := Option.map_eq_some_iff.1 h
  refine congrArg₂ (fun place groups => ({ n with place, groups } : Node)) ?_ ?_
  · simp [moved, hp]
  · by_cases hu : n.fold.isSome = true
    · rw [moveGroups_of_unfolded (show (moved p 0 off n).isUnfolded = true from hu)]
      simp only [moved, Node.isUnfolded, hu, if_true]
      rw [moveGroups_of_unfolded hu]
      exact Node.groups_mapGroups (movedSpan 0 off) (movedSpan off 0) rfl fun s _ => by
        simp [movedSpan]
    · simp [moved, Node.isUnfolded, hu]

/-! ## One unfold -/

/-- The groups of a node lie in the text that they index, which for a child that is unfolded is the
text of its parent. -/
structure Indexed (t : Tree) : Prop where
  own : t.Grounded
  lent : ∀ p, ∀ c ∈ t.children p, (t.node c).isUnfolded = true → ∀ s, (t.node c).Records s →
    (t.node p).text.Holds s

theorem Layout.exists_span (h : Layout t p cs) (hj : j ∈ t.children p) :
    ∃ s, (t.node j).place = some ⟨p, s⟩ ∧ (t.node p).text.Holds s := by
  obtain ⟨s, hs, hle, -, hstart, hstop⟩ := h.placed hj
  exact ⟨s, hs, hle, Text.isBoundary_iff_boundary.1 hstart, Text.isBoundary_iff_boundary.1 hstop⟩

theorem Layout.holds_span (h : Layout t p cs) (hj : j ∈ t.children p)
    (hs : (t.node j).span = some s) : (t.node p).text.Holds s := by
  obtain ⟨r, hr, hheld⟩ := h.exists_span hj
  rw [Node.span, hr] at hs
  exact Option.some.inj hs ▸ hheld

theorem Layout.with_folds (h : Layout t p cs) (folds : List NodeId) :
    Layout { t with folds } p cs := h.frame h.lt rfl rfl fun _ _ => ⟨rfl, rfl⟩

/-- Whatever else is unfolded, the node is folded back. -/
theorem Folding.foldBack_with_folds (h : Folding u t p id a b c F) (folds : List NodeId) :
    ∃ events, ({ u with folds } : Tree).foldBack id =
      some (({ u with folds } : Tree).foldedBack p id F a b c, events) :=
  (h.around.with_folds folds).foldBack_eq h.unfolded

theorem Hidden.node_unfoldAt (h : Hidden t p id a b c F) (j : NodeId) :
    (t.unfoldAt id ⟨p, ⟨a.size, a.size + F.glyph.utf8Size⟩⟩ F).node j =
      if j = id then { moveGroups 0 (a.size + F.opening.utf8Size)
          { t.node id with text := [], children := [], fold := some F } with
        place := some ⟨p, ⟨a.size,
          a.size + F.opening.utf8Size + b.size + F.closing.utf8Size⟩⟩ }
      else if j = p then { edited (edits 0 [unfoldPatch id F a b]) (t.node p) with
        children := starts a ++ id :: (starts b ++ starts c) }
      else if j ∈ starts b then moved p 0 (a.size + F.opening.utf8Size) (t.node j)
      else if j ∈ starts (a ++ c) then followEdits (edits 0 [unfoldPatch id F a b]) (t.node j)
      else t.node j := by
  rw [h.place.unfoldAt_eq h.body, ← h.place.node_opened h.body h.apart j]
  rfl

theorem Hidden.stripped_unfoldAt (h : Hidden t p id a b c F) :
    (t.unfoldAt id ⟨p, ⟨a.size, a.size + F.glyph.utf8Size⟩⟩ F).stripped =
      { t.stripped with folds := id :: t.stripped.folds } := by
  rw [h.place.unfoldAt_eq h.body, ← stripped_opened t p id F a b c]
  exact congrArg (fun folds => ({ (t.opened p id F a b c).stripped with folds := id :: folds } :
    Tree)) (folds_opened t p id F a b c).symm

/-- The groups of a node lie in its body, and move out into the region and back with it. -/
theorem groups_moveGroups (hg : ∀ s, n.Records s → n.text.Holds s) (place : Option Place)
    (off : Nat) (F : Fold) :
    (moveGroups off 0 { moveGroups 0 off { n with text := [], children := [], fold := some F } with
      place, text := n.text, fold := none }).groups = n.groups := by
  rw [moveGroups_of_unfolded (n := { n with text := [], children := [], fold := some F }) rfl]
  refine Node.groups_mapGroups (movedSpan 0 off)
    (fun s => (movedSpan off 0 s).filter fun m => (n.text.slice? m).isSome) rfl fun s hs => ?_
  have := Text.isSome_slice?_iff.2 (hg s hs)
  simp [movedSpan, Option.filter, this]

section
variable (h : Hidden t p id a b c F)
include h

/-- What lies in the text of the parent comes back to where it was. -/
theorem Hidden.remapSpan_back {s : Span} (hs : (t.node p).text.Holds s) :
    remapSpan (remapSpan s (edits 0 [unfoldPatch id F a b])) (edits 0 [foldPatch id F a b]) = s :=
  remapSpan_foldPatch (h.place.text ▸ hs) b

/-- The node has its body and its place again. -/
theorem Hidden.node_back (hi : Indexed t) (place : Option Place) :
    ({ moveGroups (a.size + F.opening.utf8Size) 0
        { moveGroups 0 (a.size + F.opening.utf8Size)
          { t.node id with text := [], children := [], fold := some F } with
          place, text := b.text, fold := none } with
      place := some ⟨p, ⟨a.size, a.size + F.glyph.utf8Size⟩⟩, children := starts b } : Node) =
        t.node id := by
  apply Node.ext
  · rfl
  · exact h.body.text.symm
  · exact h.place.place_of_folded.symm
  · rw [← h.body.text]
    exact groups_moveGroups (hi.own id (Node.isUnfolded_of_none h.folded)) _ _ _
  · exact h.folded.symm
  · exact h.body.children.symm
  · rfl

/-- What lies in the body lies in the text of the parent after the unfold, behind the opening
marker. -/
theorem Hidden.holds_body {r : Span} (hr : (t.node id).text.Holds r) :
    ((t.unfoldAt id ⟨p, ⟨a.size, a.size + F.glyph.utf8Size⟩⟩ F).node p).text.Holds
      (r.shiftUp (a.size + F.opening.utf8Size)) := by
  have hwithin := (h.body.text ▸ hr).within (a.text ++ [F.opening]) (F.closing :: c.text)
  rw [h.folding.around.text]
  simpa [unfoldedCells, Cells.size] using hwithin

/-- What lies in the text of the parent does so after the unfold, carried along. -/
theorem Hidden.holds_beside {r : Span} (hr : (t.node p).text.Holds r) :
    ((t.unfoldAt id ⟨p, ⟨a.size, a.size + F.glyph.utf8Size⟩⟩ F).node p).text.Holds
      (remapSpan r (edits 0 [unfoldPatch id F a b])) := by
  have hbefore : (t.node p).text = (before [unfoldPatch id F a b] c).text := by
    rw [h.place.text]
    simp [before, unfoldPatch, foldedCells]
  have hafter : (unfoldedCells id F a b c).text = (Patch.after [unfoldPatch id F a b] c).text := by
    simp [Patch.after, unfoldPatch, unfoldedCells]
  rw [h.folding.around.text, hafter]
  exact holds_remapSpan (hbefore ▸ hr)

end

section
variable (h : Hidden t p id a b c F) (hi : Indexed t) (hs : Shaped t)
include h hs

/-- A node with a child is not unfolded. -/
theorem Hidden.parent_folded : (t.node p).isUnfolded = false := by
  cases hu : (t.node p).isUnfolded with
  | false => rfl
  | true =>
    have := h.place.unique (hs.hollow p hu)
    simp [foldedCells] at this

include hi

/-- The parent has its text and its list of children again. -/
theorem Hidden.parent_back {ks : List NodeId} {n : Node}
    (hn : n = { edited (edits 0 [unfoldPatch id F a b]) (t.node p) with children := ks })
    (htext : (edited (edits 0 [foldPatch id F a b]) n).text = (foldedCells id F a c).text) :
    ({ edited (edits 0 [foldPatch id F a b]) n with children := starts a ++ id :: starts c } :
      Node) = t.node p := by
  subst hn
  apply Node.ext
  · rfl
  · exact htext.trans h.place.text.symm
  · rfl
  · exact Node.groups_mapGroups (some <| remapSpan · (edits 0 [unfoldPatch id F a b]))
      (some <| remapSpan · (edits 0 [foldPatch id F a b])) rfl
      fun s hr => congrArg some (h.remapSpan_back (hi.own p (h.parent_folded hs) s hr))
  · rfl
  · exact (h.place.children.trans (by simp [foldedCells])).symm
  · rfl

/-- Folding back undoes an unfold. -/
theorem Hidden.foldedBack_unfoldAt (folds : List NodeId) :
    ({ t.unfoldAt id ⟨p, ⟨a.size, a.size + F.glyph.utf8Size⟩⟩ F with folds } : Tree).foldedBack p id
      F a b c = { t with folds } := by
  have hF := h.folding
  have hopened := h.node_unfoldAt
  have hstripped := h.stripped_unfoldAt
  generalize t.unfoldAt id ⟨p, ⟨a.size, a.size + F.glyph.utf8Size⟩⟩ F = u at *
  have haround := hF.around.with_folds folds
  have hhollow := hF.hollow.with_folds folds
  have hnode := haround.node_foldBack hhollow
  have htext := (haround.folding_foldBack hhollow hF.unfolded).place.text
  have hsame : ∀ j, ({ u with folds } : Tree).node j = u.node j := fun _ => rfl
  simp only [hsame] at hnode
  obtain ⟨hne, hac, hks⟩ := h.place.folded_disjoint
  refine eq_of_stripped ?_ ?_ fun j => ?_
  · rw [stripped_foldedBack]
    exact congrArg (fun s : Tree => { s with folds }) hstripped
  · rw [size_foldedBack]
    exact hF.size.symm
  · change _ = t.node j
    by_cases hji : j = id
    · subst hji
      rw [hnode, if_pos rfl, hopened, if_pos rfl]
      exact h.node_back hi _
    · by_cases hjp : j = p
      · subst hjp
        rw [hnode, if_neg hji, if_pos rfl] at htext ⊢
        exact h.parent_back hi hs (by rw [hopened, if_neg hji, if_pos rfl]) htext
      · rw [hnode, if_neg hji, if_neg hjp, hopened, if_neg hji, if_neg hjp]
        by_cases hjb : j ∈ starts b
        · rw [if_pos hjb, if_pos hjb]
          exact moved_moved (h.body.parent (h.body.children ▸ hjb))
        · rw [if_neg hjb, if_neg hjb]
          by_cases hjac : j ∈ starts (a ++ c)
          · have hmem : j ∈ t.children p := (List.mem_filter.1 (hks ▸ hjac)).1
            rw [if_pos hjac, if_pos hjac]
            exact followEdits_followEdits
              (fun s hs => h.remapSpan_back (h.place.holds_span hmem hs))
              fun hu s hr => h.remapSpan_back (hi.lent p j hmem hu s hr)
          · rw [if_neg hjac, if_neg hjac]

/-- An unfolded node leaves its groups in the text of its parent, and so do the unfolded children
that move out with its body. -/
theorem Hidden.indexed_unfoldAt :
    Indexed (t.unfoldAt id ⟨p, ⟨a.size, a.size + F.glyph.utf8Size⟩⟩ F) := by
  refine ⟨h.grounded_unfoldAt hi.own, fun q j hj hu s hr => ?_⟩
  have hF := h.folding
  have hopened := h.node_unfoldAt
  have hbody {r} := h.holds_body (r := r)
  have hbeside {r} := h.holds_beside (r := r)
  generalize t.unfoldAt id ⟨p, ⟨a.size, a.size + F.glyph.utf8Size⟩⟩ F = u at *
  obtain ⟨hne, hac, hks⟩ := h.place.folded_disjoint
  have hun : (u.node p).isUnfolded = false :=
    (Node.isUnfolded_congr (hF.fold p (Ne.symm hne)).symm).trans (h.parent_folded hs)
  have hjp : j ≠ p := by
    rintro rfl
    exact Bool.noConfusion (hun.symm.trans hu)
  have hat : j ∈ u.children p → q = p := fun hjp => (hF.shaped_unfold hs).parent_unique hj hjp
  by_cases hji : j = id
  · obtain rfl := hat (by simp [hF.children_around, hji])
    rw [hji, hopened, if_pos rfl] at hr
    obtain ⟨r, hrec, rfl⟩ := records_moveGroups (n := { t.node id with
      text := [], children := [], fold := some F }) rfl rfl hr
    exact hbody (hi.own id (Node.isUnfolded_of_none h.folded) r hrec)
  · have hju : (t.node j).isUnfolded = true := (hF.isUnfolded hji).trans hu
    rw [hopened, if_neg hji, if_neg hjp] at hr
    by_cases hjb : j ∈ starts b
    · obtain rfl := hat (by simp [hF.children_around, hjb])
      rw [if_pos hjb] at hr
      have hgroups : (moved q 0 (a.size + F.opening.utf8Size) (t.node j)).groups =
          (moveGroups 0 (a.size + F.opening.utf8Size) (t.node j)).groups := by
        rw [moved, if_pos hju]
      obtain ⟨r, hrec, rfl⟩ := records_moveGroups hju hgroups hr
      exact hbody (hi.lent id j (h.body.children ▸ hjb) hju r hrec)
    · rw [if_neg hjb] at hr
      by_cases hjac : j ∈ starts (a ++ c)
      · have hjp : j ∈ t.children p := (List.mem_filter.1 (hks ▸ hjac)).1
        obtain rfl := hat ((hF.mem_children_iff hjb).1 hjp)
        rw [if_pos hjac] at hr
        obtain ⟨r, hrec, rfl⟩ := records_followEdits hju hr
        exact hbeside (hi.lent q j hjp hju r hrec)
      · have hqp : q ≠ p := by
          rintro rfl
          rw [hF.children_around] at hj
          simp only [starts_append, List.mem_append, List.mem_cons, not_or] at hj hjac
          tauto
        have hqi : q ≠ id := by
          rintro rfl
          rw [hF.children_hollow] at hj
          cases hj
        obtain ⟨htext, hchildren⟩ := hF.content q hqp hqi
        rw [if_neg hjac] at hr
        rw [← htext]
        exact hi.lent q j (hchildren ▸ hj) hju s hr

end

/-! ## A run of unfolds -/

/-- `u` is `t` with `n` nodes more unfolded: to fold back the whole stack leads back to `t`. -/
structure Unfolding (t u : Tree) (n : Nat) : Prop where
  wellFormed : WellFormed u
  indexed : Indexed u
  refold : ∀ folds, (foldEach u.folds { u with folds }).tree = { t with folds } ∧
    (foldEach u.folds { u with folds }).result = .ok n

theorem WellFormed.unfolding (hw : WellFormed t) (hg : t.Grounded) (hf : t.folds = []) :
    Unfolding t t 0 := by
  refine ⟨hw, ⟨hg, fun p c hc hu => ?_⟩, fun folds => ?_⟩
  · have := hw.stacked.listed p c hc hu
    rw [hf] at this
    cases this
  · rw [hf]
    exact ⟨rfl, rfl⟩

section
variable {m : Nat} (h : Unfolding t u m)
include h

theorem Unfolding.unfoldAt (hh : Hidden u p id a b c F) :
    Unfolding t (u.unfoldAt id ⟨p, ⟨a.size, a.size + F.glyph.utf8Size⟩⟩ F) (m + 1) := by
  have hs := h.wellFormed.shaped
  refine ⟨h.wellFormed.unfoldAt hh, hh.indexed_unfoldAt h.indexed hs, fun folds => ?_⟩
  -- the node unfolded last is the first to be folded back
  obtain ⟨events, hback⟩ := hh.folding.foldBack_with_folds folds
  rw [hh.foldedBack_unfoldAt h.indexed hs folds] at hback
  obtain ⟨htree, hresult⟩ := h.refold folds
  rw [folds_unfoldAt, foldEach, hback]
  refine ⟨htree, ?_⟩
  simp [Outcome.map, hresult, Except.map]

/-- One more call, which unfolds a node or is refused. -/
theorem Unfolding.unfold (id : NodeId) (openLabel closeLabel : Text) :
    Unfolding t (u.unfold id openLabel closeLabel).tree
      (m + if (u.unfold id openLabel closeLabel).result = .ok true then 1 else 0) := by
  rcases h.wellFormed.shaped.unfold_cases id openLabel closeLabel with
    ⟨he, hr⟩ | ⟨hr, -, p, a, b, c, F, hh, he⟩
  · rw [he, if_neg hr]
    exact h
  · rw [he, if_pos hr]
    exact h.unfoldAt hh

/-- A run of calls. -/
theorem Unfolding.after {history : List Command} (hu : ∀ c ∈ history, c.isUnfold = true) :
    Unfolding t (u.after history) (m + (u.replies history).count (.ok (.flag true))) := by
  induction history generalizing u m with
  | nil => exact h
  | cons c cs ih =>
    obtain ⟨hc, hcs⟩ := List.forall_mem_cons.1 hu
    cases c with
    | unfold id openLabel closeLabel =>
      have hreply : (u.perform (.unfold id openLabel closeLabel)).result = .ok (.flag true) ↔
          (u.unfold id openLabel closeLabel).result = .ok true := by
        rw [perform, Outcome.reply]
        cases (u.unfold id openLabel closeLabel).result <;> simp [Except.map, Except.mapError]
      have hnext := ih (h.unfold id openLabel closeLabel) hcs
      rw [replies, List.count_cons, ← Nat.add_assoc, Nat.add_right_comm]
      simp only [beq_iff_eq, hreply]
      exact hnext
    | _ => cases hc

end

/-- Folding everything back undoes any run of unfolds, of any nodes and in any order. -/
theorem Reachable.foldAll_unfolds (h : Reachable t) (hf : t.unfolded = []) {history : List Command}
    (hu : ∀ c ∈ history, c.isUnfold = true) :
    ((t.after history).perform .foldAll).tree = t ∧
      ((t.after history).perform .foldAll).result =
        .ok (.count ((t.replies history).count (.ok (.flag true)))) := by
  have hnil : t.folds = [] := List.reverse_eq_nil_iff.1 hf
  have hrun := (h.wellFormed.unfolding h.grounded hnil).after hu
  obtain ⟨htree, hresult⟩ := hrun.refold []
  rw [Nat.zero_add] at hresult
  refine ⟨htree.trans ?_, ?_⟩
  · rw [← hnil]
  · rw [perform, Outcome.reply]
    simp only [foldAll, hresult, Except.map, Except.mapError]

/-- Hides a region with a capture group, and then the group inside of it. -/
def hideTwice : List Command :=
  [.hideAll ['k'] ['x', '(', 'y', ')', 'z'] ['#'] ['*'], .hideAll ['m'] ['y'] ['#'] ['k']]

/-- Unfolds the inner region, a node that there is not, the outer region, and the outer one again. -/
def unfoldFromInside : List Command :=
  [.unfold 2 ['<'] ['>'], .unfold 5 ['<'] ['>'], .unfold 1 ['('] [')'], .unfold 1 ['['] [']']]

set_option maxRecDepth 20000 in
theorem admitsAll_hideTwice : AdmitsAll (ofText ['a', 'x', 'y', 'z', 'b']) hideTwice := by
  refine ⟨?_, ?_, trivial⟩
  · exact admits_hideAll (by cbv)
  · exact admits_hideAll (by cbv)

theorem foldAll_unfolds_fromInside :
    let t := (ofText ['a', 'x', 'y', 'z', 'b']).after hideTwice
    Reachable t ∧ t.unfolded = [] ∧ (∀ c ∈ unfoldFromInside, c.isUnfold = true) ∧
      (t.after unfoldFromInside).unfolded = [2, 1] ∧
      ((t.after unfoldFromInside).perform .foldAll).tree = t ∧
      ((t.after unfoldFromInside).perform .foldAll).result =
        .ok (.count ((t.replies unfoldFromInside).count (.ok (.flag true)))) :=
  have h : Reachable ((ofText ['a', 'x', 'y', 'z', 'b']).after hideTwice) :=
    (Reachable.initial (.ofText _ _)).after admitsAll_hideTwice
  have hf : ((ofText ['a', 'x', 'y', 'z', 'b']).after hideTwice).unfolded = [] := by cbv
  have hu : ∀ c ∈ unfoldFromInside, c.isUnfold = true := by decide
  ⟨h, hf, hu, by cbv, Reachable.foldAll_unfolds h hf hu⟩

end Tree

end GlyphTree
