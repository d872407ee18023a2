import GlyphTree.Proofs.Histories

/-!
# Round trips

What a document stands for is the text it was made of, whatever was hidden, unfolded, folded or
renamed since, and unhiding gives that text back (`Initial.round_trip`). Where literal text was
edited or content moved as well, unhiding gives back what the document stands for at that moment
(`Reachable.unhideAll_flattens`).
-/

namespace GlyphTree

namespace Tree

variable {t : Tree} {x : NodeId}

/-! ## Unhiding a well-formed tree -/

section
variable (hw : WellFormed t)
include hw

theorem WellFormed.text?_unhideAll (hx : t.isLive x = true)
    (hun : (t.node x).isUnfolded = false) :
    (t.unhideAll.tree.node? x).map Node.text = t.expandedText x := by
  have hlive := hw.shaped.mem_liveOrder_of_isLive hx
  have hlt := hw.shaped.lt_of_mem_documentOrder (hw.shaped.live_subset hlive)
  have hsize : t.unhideAll.tree.size = t.size :=
    hw.flattened_unhideAll.size.trans hw.folds_foldAll.1.size
  rw [node?_eq (hsize ▸ hlt), expandedText_eq hlt]
  exact congrArg some (hw.text_unhideAll hlive hun)

theorem WellFormed.text?_root_unhideAll :
    (t.unhideAll.tree.node? root).map Node.text = t.expandedText root :=
  hw.text?_unhideAll rfl (Node.isUnfolded_of_none hw.shaped.topFold)

end

/-! ## From a text and back -/

/-- However a tree is hidden, unfolded, folded and renamed, it stands for what it stood for when it
was made, and unhiding everything gives that text back. -/
theorem Initial.round_trip (h : Initial t) {history : List Command} (ha : AdmitsAll t history)
    (hk : ∀ c ∈ history, c.keepsText = true) :
    ∃ text, t.expandedText root = some text ∧
      (∀ source config, t = Tree.ofText source config → text = source) ∧
      (∀ n, (t.after (history.take n)).expandedText root = some text) ∧
      (((t.after history).perform .unhideAll).tree.node? root).map Node.text = some text := by
  have hw := h.wellFormed
  have htext := expandedText_eq hw.shaped.root
  have hkeep : ∀ n, (t.after (history.take n)).expandedText root = t.expandedText root := fun n =>
    (hw.faithful_after (ha.take n) fun c hc => hk c (List.mem_of_mem_take hc)).expandedText hw
  refine ⟨t.reading root, htext, ?_, fun n => (hkeep n).trans htext, ?_⟩
  · rintro source config rfl
    exact Option.some.inj (htext.symm.trans (wellFormed_ofText source config).2)
  · have hafter := hw.faithful_after ha hk
    exact hafter.wellFormed.text?_root_unhideAll.trans ((hafter.expandedText hw).trans htext)

theorem round_trip_unfoldTwice :
    AdmitsAll (ofText ['a', 'x', 'y', 'z', 'b']) unfoldTwice ∧
      (∀ c ∈ unfoldTwice, c.keepsText = true) ∧
      ∃ text, (ofText ['a', 'x', 'y', 'z', 'b']).expandedText root = some text ∧
        (∀ source config, ofText ['a', 'x', 'y', 'z', 'b'] = ofText source config →
          text = source) ∧
        (∀ n, ((ofText ['a', 'x', 'y', 'z', 'b']).after (unfoldTwice.take n)).expandedText root =
          some text) ∧
        ((((ofText ['a', 'x', 'y', 'z', 'b']).after unfoldTwice).perform
          .unhideAll).tree.node? root).map Node.text = some text :=
  ⟨admitsAll_unfoldTwice, by decide,
    Initial.round_trip (.ofText _ _) admitsAll_unfoldTwice (by decide)⟩

/-! ## Unhiding a reachable tree -/

/-- Unhiding everything turns what each node stands for into its text, leaves only the root live,
loses no node of the document order and has nothing left to do when it is repeated. -/
theorem Reachable.unhideAll_flattens (h : Reachable t) :
    let flat := (t.perform .unhideAll).tree
    (flat.node? root).map Node.text = t.expandedText root ∧
      (∀ x, t.isLive x = true → (t.node x).isUnfolded = false →
        (flat.node? x).map Node.text = t.expandedText x) ∧
      (∀ x, flat.isLive x = true ↔ x = root) ∧
      flat.documentOrder.Nodup ∧ flat.documentOrder.Perm t.documentOrder ∧
      (flat.perform .unhideAll).tree = flat := by
  have hw := h.wellFormed
  have hflat := hw.faithful_unhideAll.wellFormed
  exact ⟨hw.text?_root_unhideAll, fun _ hx hun => hw.text?_unhideAll hx hun,
    fun _ => hw.isLive_unhideAll, hflat.shaped.nodup_documentOrder, hw.documentOrder_unhideAll,
    hw.unhideAll_unhideAll⟩

theorem unhideAll_flattens_unfoldedTwice :
    let t := (unfoldedTwice.perform (.replaceAll ['y'] ['v', 'w'] ['*'])).tree
    let flat := (t.perform .unhideAll).tree
    Reachable t ∧ t.unfolded = [1, 3] ∧
      (flat.node? root).map Node.text = t.expandedText root ∧
      (∀ x, t.isLive x = true → (t.node x).isUnfolded = false →
        (flat.node? x).map Node.text = t.expandedText x) ∧
      (∀ x, flat.isLive x = true ↔ x = root) ∧
      flat.documentOrder.Nodup ∧ flat.documentOrder.Perm t.documentOrder ∧
      (flat.perform .unhideAll).tree = flat :=
  have h := reachable_unfoldedTwice.step (c := .replaceAll ['y'] ['v', 'w'] ['*']) trivial
  ⟨h, by cbv, Reachable.unhideAll_flattens h⟩

end Tree

end GlyphTree
