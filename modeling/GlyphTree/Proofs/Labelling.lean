import GlyphTree.Proofs.Allocation
import GlyphTree.Proofs.Bookkeeping
import GlyphTree.Proofs.Glyphs

/-!
# Labels of hidden nodes

A node hidden with a label shows the glyph of the label, and its entry in a snapshot of the tree
says so. As no command gives a node another glyph, or a label another one, this is so for as long as
the node is live (`Reachable.keeps_label`).
-/

namespace GlyphTree

/-- The label with which a command hides. -/
def Command.hideLabel? : Command → Option Text
  | .hideAll _ _ label _ => some label
  | .hideAny _ _ label _ => some label
  | .hideGroup _ label _ _ _ => some label
  | .hideRest _ label _ => some label
  | _ => none

namespace Snapshot

mutual

/-- A snapshot and all those below it. -/
def entries : Snapshot → List Snapshot
  | ⟨id, name, text, span, label, groups, ignored, folded, children⟩ =>
    ⟨id, name, text, span, label, groups, ignored, folded, children⟩ :: entriesOf children

/-- Some snapshots and all those below them. -/
def entriesOf : List Snapshot → List Snapshot
  | [] => []
  | s :: rest => entries s ++ entriesOf rest

end

theorem entriesOf_eq (l : List Snapshot) : entriesOf l = l.flatMap entries := by
  induction l with
  | nil => rfl
  | cons s l ih => rw [entriesOf, ih, List.flatMap_cons]

end Snapshot

namespace Tree

open Cells

variable {t t' u : Tree} {x : NodeId} {g : Char} {label : Text} {c : Command} {d depth : Nat}

/-! ## Snapshots -/

/-- The label that owns the glyph of a node, as snapshots have it. -/
def labelOf (t : Tree) (x : NodeId) : Option Text := (t.glyphOf (t.node x)).bind t.labels.labelFor

theorem entries_snapshotWithin (h : Ends t.children d x) (hd : d ≤ depth) :
    (t.snapshotWithin depth x).entries.map (fun e => (e.id, e.label)) =
      (preorder t.children d x).map fun y => (y, t.labelOf y) := by
  induction d generalizing x depth with
  | zero => exact h.elim
  | succ d ih =>
    obtain ⟨depth, rfl⟩ : ∃ n, depth = n + 1 := ⟨depth - 1, by omega⟩
    have hkids : ∀ c ∈ t.children x,
        (t.snapshotWithin depth c).entries.map (fun e => (e.id, e.label)) =
          (preorder t.children d c).map fun y => (y, t.labelOf y) := fun c hc =>
      ih (h c hc) (Nat.le_of_succ_le_succ hd)
    rw [snapshotWithin, Snapshot.entries, Snapshot.entriesOf_eq, preorder, List.map_cons,
      List.map_cons, List.map_flatMap, List.flatMap_map, List.map_flatMap]
    exact congrArg _ (List.flatMap_congr hkids)

/-- A snapshot has an entry for each live node. -/
theorem Shaped.entries_snapshot (hs : Shaped t) :
    t.snapshot.entries.map (fun e => (e.id, e.label)) =
      t.liveOrder.map fun y => (y, t.labelOf y) :=
  entries_snapshotWithin (hs.ends_children hs.root) (Nat.le_succ _)

/-! ## Fresh nodes -/

/-- All cuts of a hide have the glyph of its label. -/
theorem glyph_of_mem_planOf (hc : c.hideLabel? = some label) (hg : t.labels.glyph label = .ok g) :
    ∀ y ∈ t.planOf c, ∀ cut ∈ y.2, cut.glyph = g := by
  intro y hy cut hcut
  cases c with
  | hideAll | hideAny =>
    obtain rfl := Option.some.inj hc
    obtain ⟨-, glyph, program, hglyph, hcuts⟩ := mem_matchesToHide hy
    rw [hcuts] at hcut
    obtain ⟨m, -, rfl⟩ := List.mem_map.1 (List.mem_filter.1 hcut).1
    exact Except.ok.inj (hglyph.symm.trans hg)
  | hideGroup =>
    obtain rfl := Option.some.inj hc
    obtain ⟨-, glyph, range, hglyph, -, hcuts⟩ := mem_groupToHide hy
    rw [hcuts] at hcut
    rw [List.mem_singleton.1 (List.mem_filter.1 hcut).1]
    exact Except.ok.inj (hglyph.symm.trans hg)
  | hideRest =>
    obtain rfl := Option.some.inj hc
    obtain ⟨-, glyph, hglyph, hcuts⟩ := mem_restToHide hy
    rw [hcuts] at hcut
    obtain ⟨run, -, rfl⟩ := List.mem_map.1 hcut
    exact Except.ok.inj (hglyph.symm.trans hg)
  | _ => cases hc

theorem tree_perform_hide (t : Tree) (hc : c.hideLabel? = some label) :
    (t.perform c).tree = t.applyPlan (t.planOf c) := by
  cases c with
  | hideAll => exact hideMatches_tree ..
  | hideAny => exact hideMatches_tree ..
  | hideGroup => exact hideGroup_tree ..
  | hideRest => exact hideRest_tree ..
  | _ => cases hc

/-- A node that a hide makes shows the glyph of the label, if any. -/
theorem WellFormed.glyph_of_fresh (hw : WellFormed t) (ha : t.Admits c)
    (hc : c.hideLabel? = some label) (hg : t.labels.glyph label = .ok g) (hx : t.size ≤ x) {g' : Char}
    (h : (t.perform c).tree.Shows x g') : g' = g := by
  rw [tree_perform_hide t hc] at h
  obtain ⟨y, hy, cut, hcut, rfl⟩ :=
    (hw.applyPlan_glyphs (hw.shaped.feasible_planOf ha)).2 x g' hx h
  exact glyph_of_mem_planOf hc hg y hy cut hcut

/-! ## Registries -/

theorem labels_define (t : Tree) (label : Text) :
    (t.define label).tree.labels = t.labels.afterOne ⟨label, none⟩ := by
  rw [define, Registry.afterOne, Registry.enter]
  dsimp only
  cases t.labels.define label <;> rfl

theorem labels_defineMacro (t : Tree) (label body : Text) :
    (t.defineMacro label body).tree.labels = t.labels.afterOne ⟨label, some body⟩ := by
  rw [defineMacro, Registry.afterOne, Registry.enter]
  dsimp only
  cases t.labels.defineMacro label body <;> rfl

/-- A command changes the labels by definitions at most. -/
theorem Registered.labels_single (h : Registered t) (hc : c.isSingle = true) :
    ∃ ds, (t.perform c).tree.labels = t.labels.afterAll ds := by
  by_cases hk : c.keepsBooks = true
  · exact ⟨[], (h.grows_perform hk).labels⟩
  · cases c with
    | define label => exact ⟨[_], labels_define t label⟩
    | defineMacro label body => exact ⟨[_], labels_defineMacro t label body⟩
    | ignoreAll | unignoreAll => exact ⟨[], rfl⟩
    | run => cases hc
    | _ => exact absurd rfl hk

theorem Registered.labels_perform (h : Registered t) (c : Command) :
    ∃ ds, (t.perform c).tree.labels = t.labels.afterAll ds :=
  (perform_induct (P := fun u => Registered u ∧ ∃ ds, u.labels = t.labels.afterAll ds)
    (fun {u c} h hc => by
      obtain ⟨hu, ds, hds⟩ := h
      obtain ⟨ds', hds'⟩ := hu.labels_single hc
      refine ⟨hu.perform_single hc, ds ++ ds', ?_⟩
      rw [hds', hds, Registry.afterAll, Registry.afterAll, Registry.afterAll, List.foldl_append])
    c ⟨h, [], rfl⟩).2

theorem Reachable.registered (h : Reachable t) : Registered t := by
  induction h with
  | initial h => exact h.registered
  | step _ _ ih => exact ih.perform _

theorem Initial.numbered (h : Initial t) : t.labels.Numbered := by
  have he : t.labels = .empty t.labels.pool := by
    rw [Registry.empty, ← h.labels_eq_nil]
  exact he ▸ Registry.numbered_empty _

theorem Reachable.numbered (h : Reachable t) : t.labels.Numbered := by
  induction h with
  | initial h => exact h.numbered
  | @step t c h _ ih =>
    obtain ⟨ds, hds⟩ := h.registered.labels_perform c
    exact hds ▸ ih.afterAll ds

/-- A label keeps its glyph, whatever is done to the tree. -/
theorem Reachable.owns_after (h : Reachable t) {history : List Command} (ha : AdmitsAll t history)
    (ho : t.labels.Owns label g) : (t.after history).labels.Owns label g := by
  induction history generalizing t with
  | nil => exact ho
  | cons c history ih =>
    obtain ⟨ds, hds⟩ := h.registered.labels_perform c
    exact ih (h.step ha.1) ha.2 (hds ▸ h.numbered.owns_afterAll ho ds)

/-! ## Labelled nodes -/

/-- A node shows the glyph of a label, and its entry in the snapshot of the tree has the label. -/
structure Labelled (t : Tree) (x : NodeId) (label : Text) (g : Char) : Prop where
  glyph : t.labels.glyph label = .ok g
  /-- The glyph is in the fold of the node, or else the text at the span of the node. -/
  shown : (∃ F, (t.node x).fold = some F ∧ F.glyph = g) ∨
    (t.node x).fold = none ∧ ∃ p s, (t.node x).place = some ⟨p, s⟩ ∧
      (t.node p).text.slice? s = some [g]
  listed : ∃ e ∈ t.snapshot.entries, e.id = x
  entry : ∀ e ∈ t.snapshot.entries, e.id = x → e.label = some label

theorem Shows.labelled (h : t.Shows x g) (hs : Shaped t) (hn : t.labels.Numbered)
    (ho : t.labels.Owns label g) (hlive : t.isLive x = true) : Labelled t x label g := by
  have hlabel : t.labelOf x = some label := by
    rw [labelOf, h.glyphOf, Option.bind_some, hn.labelFor_eq_some_iff]
    exact ho
  have hentries := hs.entries_snapshot
  refine ⟨ho.glyph, h.cases, ?_, fun e he hid => ?_⟩
  · have hmem : (x, t.labelOf x) ∈ t.snapshot.entries.map fun e => (e.id, e.label) :=
      hentries ▸ List.mem_map_of_mem (hs.mem_liveOrder_of_isLive hlive)
    obtain ⟨e, he, heq⟩ := List.mem_map.1 hmem
    exact ⟨e, he, congrArg Prod.fst heq⟩
  · have hmem : (e.id, e.label) ∈ t.liveOrder.map fun y => (y, t.labelOf y) :=
      hentries ▸ List.mem_map_of_mem (f := fun e : Snapshot => (e.id, e.label)) he
    obtain ⟨y, -, heq⟩ := List.mem_map.1 hmem
    obtain ⟨rfl, hy⟩ := Prod.mk.inj heq
    rw [← hy, hid, hlabel]

/-- A node that a hide with a defined label has made shows the glyph of the label, and has the label
in snapshots, for as long as it is live, whatever is hidden, unfolded, folded, edited, renamed,
replaced or exchanged since. What a pipeline leaves the calls of its passes leave, so this is so of
the nodes made in it. -/
theorem Reachable.keeps_label (h : Reachable t) :
    (∀ c label, c.hideLabel? = some label → t.labels.isDefined label = true →
      ∀ history, AdmitsAll t (c :: history) →
        ∃ g, t.labels.glyph label = .ok g ∧ ∀ x, t.size ≤ x → x < (t.perform c).tree.size →
          (t.after (c :: history)).isLive x = true →
            Labelled (t.after (c :: history)) x label g) ∧
      ∀ pipeline, t.Admits (.run pipeline) → ∃ calls,
        (∀ c ∈ calls, c ∈ pipeline.flatMap Pass.steps) ∧ AdmitsAll t calls ∧
          (t.perform (.run pipeline)).tree = t.after calls := by
  refine ⟨fun c label hc hdef history ha => ?_, fun pipeline ha => ?_⟩
  · obtain ⟨l, hl⟩ := Option.isSome_iff_exists.1 hdef
    have ho := Registry.owns_of_get? hl
    refine ⟨l.glyph, ho.glyph, fun x hx hlt hlive => ?_⟩
    have hw := h.wellFormed
    have hu := h.after ha
    have hne : x ≠ root := Nat.ne_of_gt (Nat.lt_of_lt_of_le hw.shaped.root hx)
    obtain ⟨q, -, hq⟩ := mem_children_of_isLive hlive hne
    -- what the node shows in the end it has shown when it was made
    obtain ⟨g, hg⟩ := hu.wellFormed.shaped.exists_shows hq
    have hmade := ((h.step ha.1).wellFormed.recalls_after ha.2).2.shows hlt hg
    obtain rfl := hw.glyph_of_fresh ha.1 hc ho.glyph hx hmade
    exact hg.labelled hu.wellFormed.shaped hu.numbered (h.owns_after ha ho) hlive
  · obtain ⟨calls, hcalls, hadmits, he⟩ :
        LeadsTo True (pipeline.flatMap Pass.steps) t (t.run pipeline).tree := run_leadsTo fun _ => ha
    exact ⟨calls, hcalls, hadmits trivial, he⟩

/-- A text with a label for it. -/
def labelledText : Tree := (ofText ['a', 'x', 'y', 'b']).after [.define ['<', 'W', '>']]

/-- Hides a region with the label and another region around it, unfolds the first and edits the text
beside it. -/
def moveLabelled : List Command :=
  [.hideAll ['k'] ['x', 'y'] ['<', 'W', '>'] ['*'],
    .hideAll ['m'] ['a', '.'] ['#'] ['*'], .unfold 1 ['('] [')'],
    .replaceAll ['a'] ['p', 'q'] ['*']]

set_option maxRecDepth 20000 in
theorem admitsAll_moveLabelled : AdmitsAll labelledText moveLabelled := by
  refine ⟨?_, ?_, trivial, trivial, trivial⟩
  · exact admits_hideAll (by cbv)
  · exact admits_hideAll (by cbv)

theorem keeps_label_moveLabelled :
    let u := labelledText.after moveLabelled
    Reachable labelledText ∧ labelledText.labels.isDefined ['<', 'W', '>'] = true ∧
      (u.node 2).text = ['p', 'q', '(', 'x', 'y', ')'] ∧ u.isLive 1 = true ∧
      Labelled u 1 ['<', 'W', '>'] '\uE000' := by
  have hr : Reachable labelledText := (Reachable.initial (.ofText _ _)).step trivial
  have hdef : labelledText.labels.isDefined ['<', 'W', '>'] = true := by cbv
  have hglyph : labelledText.labels.glyph ['<', 'W', '>'] = .ok '\uE000' := by cbv
  have hlt : 1 < (labelledText.perform
      (.hideAll ['k'] ['x', 'y'] ['<', 'W', '>'] ['*'])).tree.size := by cbv
  obtain ⟨htext, hlive⟩ : ((labelledText.after moveLabelled).node 2).text =
      ['p', 'q', '(', 'x', 'y', ')'] ∧ (labelledText.after moveLabelled).isLive 1 = true := by cbv
  obtain ⟨g, hg, hall⟩ := (Reachable.keeps_label hr).1 _ _ rfl hdef _ admitsAll_moveLabelled
  obtain rfl := Except.ok.inj (hglyph.symm.trans hg)
  exact ⟨hr, hdef, htext, hlive, hall 1 (by cbv) hlt hlive⟩

end Tree

end GlyphTree
