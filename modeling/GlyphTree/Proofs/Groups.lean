import GlyphTree.Proofs.Arrangement

/-!
# Capture groups

The groups of a node that is not unfolded lie in its text. Matching records them so, edits of the
text carry them along, and folding back drops those that do not lie in the text any more. In every
reachable tree all nodes are grounded in this sense (`Reachable.grounded`).
-/

namespace GlyphTree

open Patch

/-! ## Nodes -/

namespace Node

variable {m n : Node} {s : Span} {f : Span → Option Span} {es : List Edit}

/-- The span is that of a capture group of the node. -/
def Records (n : Node) (s : Span) : Prop := ∃ gs, n.groups = some gs ∧ some s ∈ gs

/-- Unless the node is unfolded, its groups lie in its text. -/
def Grounded (n : Node) : Prop := n.isUnfolded = false → ∀ s, n.Records s → n.text.Holds s

/-- The nodes have the same text, and the same groups unless they are unfolded. -/
structure Resembles (m n : Node) : Prop where
  text : m.text = n.text
  fold : m.fold = n.fold
  groups : n.isUnfolded = false → m.groups = n.groups

theorem not_records (h : n.groups = none) : ¬ n.Records s := by
  rintro ⟨gs, hgs, -⟩
  rw [h] at hgs
  cases hgs

theorem records_mapGroups : (n.mapGroups f).Records s ↔ ∃ r, n.Records r ∧ f r = some s := by
  constructor
  · rintro ⟨gs, hgs, hs⟩
    obtain ⟨gs, hn, rfl⟩ := Option.map_eq_some_iff.1 hgs
    obtain ⟨g, hg, hb⟩ := List.mem_map.1 hs
    obtain ⟨r, rfl, hr⟩ := Option.bind_eq_some_iff.1 hb
    exact ⟨r, ⟨gs, hn, hg⟩, hr⟩
  · rintro ⟨r, ⟨gs, hn, hg⟩, hr⟩
    refine ⟨_, congrArg (Option.map _) hn, List.mem_map.2 ⟨some r, hg, hr⟩⟩

/-- Groups that are changed twice, in two ways that come to the same. -/
theorem mapGroups_congr {k : Node} {f f' g g' : Span → Option Span}
    (hm : m.groups = (n.mapGroups f).groups) (hk : k.groups = (n.mapGroups f').groups)
    (h : ∀ s, n.Records s → (f s).bind g = (f' s).bind g') :
    (m.mapGroups g).groups = (k.mapGroups g').groups := by
  rw [mapGroups, mapGroups, hm, hk, mapGroups, mapGroups]
  cases hn : n.groups with
  | none => rfl
  | some gs =>
    refine congrArg some ?_
    have hbind : ∀ o ∈ gs, (o.bind f).bind g = (o.bind f').bind g' := by
      intro o ho
      cases o with
      | none => rfl
      | some s => exact h s ⟨gs, hn, ho⟩
    simpa [Function.comp_def] using hbind

theorem mapGroups_some (n : Node) : n.mapGroups some = n := by
  simp [mapGroups]

/-- Groups that are changed and changed back. -/
theorem groups_mapGroups (f g : Span → Option Span) (hm : m.groups = (n.mapGroups f).groups)
    (h : ∀ s, n.Records s → (f s).bind g = some s) : (m.mapGroups g).groups = n.groups := by
  have hsome : n.groups = (n.mapGroups some).groups := by rw [mapGroups_some]
  rw [mapGroups_congr hm hsome h, mapGroups_some]

theorem mapGroups_id (h : ∀ s, n.Records s → f s = some s) : (n.mapGroups f).groups = n.groups :=
  groups_mapGroups some f (by rw [mapGroups_some]) h

theorem grounded_of_groups (h : n.groups = none) : n.Grounded := fun _ _ hs =>
  absurd hs (not_records h)

theorem grounded_of_unfolded (h : n.isUnfolded = true) : n.Grounded := fun hu =>
  Bool.noConfusion (hu.symm.trans h)

theorem Resembles.refl (n : Node) : n.Resembles n := ⟨rfl, rfl, fun _ => rfl⟩

theorem Resembles.trans {k : Node} (h : m.Resembles n) (h' : n.Resembles k) : m.Resembles k :=
  ⟨h.text.trans h'.text, h.fold.trans h'.fold, fun hu =>
    (h.groups ((isUnfolded_congr h'.fold).trans hu)).trans (h'.groups hu)⟩

theorem Grounded.of_resembles (h : n.Grounded) (hm : m.Resembles n) : m.Grounded := by
  rintro hu s ⟨gs, hgs, hs⟩
  rw [isUnfolded_congr hm.fold] at hu
  rw [hm.text]
  exact h hu s ⟨gs, (hm.groups hu).symm.trans hgs, hs⟩

/-- Edits carry the groups along with the text. -/
theorem Grounded.edited (h : n.Grounded) (hp : Pieces 0 n.text (es.map Edit.range)) :
    (Tree.edited es n).Grounded := by
  intro hu s hs
  obtain ⟨r, hr, rs⟩ := records_mapGroups.1 (show (n.mapGroups (some <| remapSpan · es)).Records s
    from hs)
  cases rs
  exact holds_applyEdits hp (h hu r hr)

/-- A move drops the groups that do not lie in the text afterwards. -/
theorem grounded_moveGroups (sub add : Nat) (n : Node) : (Tree.moveGroups sub add n).Grounded := by
  intro hu s hs
  obtain ⟨r, -, hr⟩ := records_mapGroups.1 hs
  have hu : n.isUnfolded = false := hu
  have := Option.mem_filter_iff.1 (Option.mem_def.2 hr)
  simp only [hu, Bool.false_or] at this
  exact Text.isSome_slice?_iff.1 this.2

theorem resembles_followEdits (es : List Edit) (n : Node) :
    (Tree.followEdits es n).Resembles n := by
  refine ⟨Tree.followEdits_text es n, Tree.followEdits_fold es n, fun hu => ?_⟩
  rw [Tree.followEdits_eq]
  simp only [hu, Bool.false_eq_true, if_false]

end Node

namespace Tree

variable {t t' : Tree} {id x j : NodeId} {f : Node → Node} {es : List Edit}

/-- All nodes of the tree are grounded. -/
def Grounded (t : Tree) : Prop := ∀ j, (t.node j).Grounded

/-! ## Moves

Each move leaves all nodes alike, but for those that it gives another text. -/

theorem resembles_modify (hf : ∀ n, (f n).Resembles n) (t : Tree) (id j : NodeId) :
    ((t.modify id f).node j).Resembles (t.node j) := by
  rw [node_modify]
  split
  · exact hf _
  · exact .refl _

theorem resembles_foldl {α : Type} {f : Tree → α → Tree}
    (hf : ∀ t x j, ((f t x).node j).Resembles (t.node j)) (l : List α) (t : Tree)
    (j : NodeId) : ((l.foldl f t).node j).Resembles (t.node j) := by
  induction l generalizing t with
  | nil => exact .refl _
  | cons x l ih => exact (ih (f t x)).trans (hf t x j)

theorem resembles_setChildren (t : Tree) (p : NodeId) (ks : List NodeId) (j : NodeId) :
    ((t.setChildren p ks).node j).Resembles (t.node j) := by
  refine resembles_modify (fun n => ?_) t p j
  exact ⟨rfl, rfl, fun _ => rfl⟩

theorem resembles_putChild (t : Tree) (p c : NodeId) (s : Span) (j : NodeId) :
    ((t.putChild p c s).node j).Resembles (t.node j) := by
  refine (resembles_setChildren _ p _ j).trans (resembles_modify (fun n => ?_) t c j)
  exact ⟨rfl, rfl, fun _ => rfl⟩

theorem resembles_moveChild (q : NodeId) (sub add : Nat) (t : Tree) (c j : NodeId) :
    ((t.moveChild q sub add c).node j).Resembles (t.node j) := by
  have hmove : ((if (t.node c).isUnfolded then t.modify c (moveGroups sub add) else t).node
      j).Resembles (t.node j) := by
    split
    · rename_i hu
      rw [node_modify]
      split
      · -- the groups that move are those of an unfolded node
        rename_i hj
        exact ⟨rfl, rfl, fun h => Bool.noConfusion (h.symm.trans (hj.1 ▸ hu))⟩
      · exact .refl _
    · exact .refl _
  unfold moveChild
  dsimp only
  split
  · exact (resembles_putChild _ q c _ j).trans hmove
  · exact hmove

theorem resembles_rename (t : Tree) (id : NodeId) (name : Text) (j : NodeId) :
    ((t.rename id name).node j).Resembles (t.node j) := by
  rw [node_rename]
  split
  · exact ⟨rfl, rfl, fun _ => rfl⟩
  · exact .refl _

theorem resembles_rewrite (he : es ≠ []) (t : Tree) (x j : NodeId) :
    ((t.rewrite x es).node j).Resembles
      (if j = x ∧ j < t.size then edited es (t.node j) else t.node j) := by
  have he' : es.isEmpty = false := by simpa using he
  simp only [rewrite, he', Bool.false_eq_true, if_false]
  generalize hs : t.modify x (fun n => { n with text := applyEdits n.text es }) = s
  have hsize : s.size = t.size := hs ▸ size_modify t x _
  have hfold := resembles_foldl (f := fun t c => t.modify c (followEdits es))
    (fun t c j => resembles_modify (Node.resembles_followEdits es) t c j) (s.children x) s j
  have hj : s.node j = _ := hs ▸ node_modify t x j _
  rw [hj] at hfold
  rw [node_modify, size_foldl_modify, hsize]
  split
  · rename_i h
    rw [if_pos h] at hfold
    refine ⟨hfold.text, hfold.fold, fun hu => ?_⟩
    exact congrArg (Option.map _) (hfold.groups hu)
  · rename_i h
    rwa [if_neg h] at hfold

theorem Grounded.of_resembles (hg : t.Grounded) (h : ∀ j, (t'.node j).Resembles (t.node j)) :
    t'.Grounded := fun j => (hg j).of_resembles (h j)

theorem Grounded.rewrite (hg : t.Grounded)
    (hp : Pieces 0 (t.node x).text (es.map Edit.range)) : (t.rewrite x es).Grounded := by
  by_cases he : es = []
  · subst he
    exact hg
  · intro j
    refine Node.Grounded.of_resembles ?_ (resembles_rewrite he t x j)
    split
    · rename_i hj
      obtain ⟨rfl, -⟩ := hj
      exact (hg j).edited hp
    · exact hg j

theorem Grounded.modify (hg : t.Grounded) (hf : (f (t.node id)).Grounded) :
    (t.modify id f).Grounded := by
  intro j
  rw [node_modify]
  split
  · rename_i hj
    exact hj.1 ▸ hf
  · exact hg j

theorem Grounded.alloc {n : Node} (hg : t.Grounded) (hn : n.Grounded) : (t.alloc n).Grounded := by
  intro j
  rw [node_alloc]
  split
  · exact hn
  · exact hg j

end Tree

/-! ## Collapsing regions -/

/-- If a fresh node is to come for a cut, it will be grounded. -/
def Cut.Grounded (text : Text) (c : Cut) : Prop :=
  ∀ name groups, c.origin = .fresh name groups →
    Node.Grounded ⟨name, text.slice c.range, none, groups, none, [], []⟩

theorem Cut.grounded_of_groups {text : Text} {c : Cut} {name : Text}
    (h : c.origin = .fresh name none) : c.Grounded text := by
  intro name' groups h'
  cases h.symm.trans h'
  exact Node.grounded_of_groups rfl

namespace Tree

open Cells Region

variable {t t' : Tree} {p id x : NodeId} {a b c cs : Cells} {F : Fold}

section
variable {text : Text} (hg : t.Grounded)
include hg

theorem Grounded.settle {cut : Cut} (hc : cut.Grounded text) (p : NodeId) (es : List Edit)
    (moved : List NodeId) : (t.settle p text es cut moved).Grounded := by
  have hprep : (t.prepare text cut).1.Grounded := by
    unfold prepare
    split
    · rename_i name groups ho
      exact hg.alloc (hc name groups ho)
    · exact hg.modify (Node.grounded_moveGroups _ _ _)
  refine hprep.of_resembles fun j => ?_
  exact (resembles_putChild _ p _ _ j).trans (resembles_foldl (resembles_moveChild _ _ _) moved _ j)

theorem Grounded.settleAll {cuts : List Cut} (hc : ∀ cut ∈ cuts, cut.Grounded text) (p : NodeId)
    (es : List Edit) (kids : List (NodeId × Span)) :
    (settleAll p text es cuts kids t).Grounded := by
  induction cuts generalizing t kids with
  | nil => exact hg
  | cons cut cuts ih =>
    obtain ⟨hcut, hcuts⟩ := List.forall_mem_cons.1 hc
    exact ih (hg.settle hcut p es _) hcuts _

theorem Grounded.splice {cuts : List Cut} (hp : Pieces 0 (t.node p).text (cuts.map Cut.range))
    (hc : ∀ cut ∈ cuts, cut.Grounded (t.node p).text) : (t.splice p cuts).Grounded := by
  refine Grounded.settleAll (Grounded.rewrite ?_ ?_) hc p _ _
  · exact hg.of_resembles (resembles_setChildren t p _)
  · rw [(resembles_setChildren t p _ p).text, List.map_map]
    exact hp

end

theorem Layout.grounded_splice {rs : List Region} {z : Cells} (h : Layout t p (cells rs z))
    (hg : t.Grounded) (hc : ∀ cut ∈ cuts 0 rs, cut.Grounded (t.node p).text) :
    (t.splice p (cuts 0 rs)).Grounded := by
  have hpieces := pieces_edits 0 (rs.map patch) z
  rw [← edits_patch, List.map_map, show (before (rs.map patch) z).text = (t.node p).text from
    h.text.symm] at hpieces
  exact hg.splice hpieces hc

/-- Fitting cuts of distinct nodes leave a tree grounded, if the fresh nodes are to be grounded. -/
theorem WellFormed.grounded_applyPlan {plan : Plan} (hw : WellFormed t) (hg : t.Grounded)
    (hnd : (plan.map Prod.fst).Nodup) (hf : ∀ x ∈ plan, Fitting t x.1 x.2)
    (hc : ∀ x ∈ plan, ∀ cut ∈ x.2, cut.Grounded (t.node x.1).text) :
    (t.applyPlan plan).Grounded := by
  refine (hw.applyPlan_induct (P := fun rest u => u.Grounded ∧ ∀ x ∈ rest, ∀ cut ∈ x.2,
    cut.Grounded (u.node x.1).text) hnd hf ?_ ?_ ⟨hg, hc⟩).1
  · exact fun h => ⟨h.1, (List.forall_mem_cons.1 h.2).2⟩
  · rintro u p l rest rs z ⟨hg, hc⟩ hu hl rfl hrs hpos hs hrest
    obtain ⟨hcut, hc⟩ := List.forall_mem_cons.1 hc
    refine ⟨hl.grounded_splice hg hcut, fun x hx => ?_⟩
    obtain ⟨hne, _, _, hlx, -⟩ := hrest x hx
    rw [((hs.kept hl).content x.1 hlx.lt (by simpa using hne)).1]
    exact hc x hx

/-- The groups of a match lie in what it covers. -/
theorem grounded_matchCuts (t : Tree) (name : Text) (glyph : Char) (program : Program)
    (id : NodeId) : ∀ cut ∈ t.matchCuts name glyph program id, cut.Grounded (t.node id).text := by
  intro cut hcut
  obtain ⟨m, hm, rfl⟩ := List.mem_map.1 hcut
  obtain ⟨a, b, c, ht, hspan, hgroups⟩ := program.groups_matchesIn hm
  rintro name' groups ho - s ⟨gs, hgs, hs⟩
  cases ho
  simp only at hgs ⊢
  rw [matchCut, hspan, ht, Text.slice_middle]
  rw [groupTable, hspan] at hgs
  split at hgs
  · cases hgs
  · cases hgs
    obtain ⟨g, hg, hgs⟩ := List.mem_map.1 hs
    obtain ⟨r, rfl, rfl⟩ := Option.map_eq_some_iff.1 hgs
    exact hgroups r hg

/-- The plan of a hide can be carried out so that all stays in order. -/
structure Feasible (t : Tree) (plan : Plan) : Prop where
  nodup : (plan.map Prod.fst).Nodup
  live : ∀ x ∈ plan, x.1 ∈ t.liveOrder
  fitting : ∀ x ∈ plan, Fitting t x.1 x.2
  grounded : ∀ x ∈ plan, ∀ cut ∈ x.2, cut.Grounded (t.node x.1).text

/-- The groups of what is hidden lie in its text. -/
theorem grounded_of_mem_planOf {c : Command} {e : NodeId × List Cut} {cut : Cut}
    (he : e ∈ t.planOf c) (hcut : cut ∈ e.2) : cut.Grounded (t.node e.1).text := by
  cases c with
  | hideAll | hideAny =>
    obtain ⟨-, glyph, program, -, hcuts⟩ := mem_matchesToHide he
    rw [hcuts] at hcut
    exact grounded_matchCuts t _ glyph program e.1 cut (List.mem_filter.1 hcut).1
  | hideGroup => exact Cut.grounded_of_groups (origin_of_mem_groupToHide he hcut)
  | hideRest => exact Cut.grounded_of_groups (origin_of_mem_restToHide he hcut)
  | _ => cases he

/-- The plan of an admitted command is feasible. -/
theorem Shaped.feasible_planOf (hs : Shaped t) {c : Command} (h : t.Admits c) :
    Feasible t (t.planOf c) where
  nodup := hs.nodup_planOf c
  live _ he := hs.live_planOf he
  fitting := hs.fitting_planOf h
  grounded _ he _ hcut := grounded_of_mem_planOf he hcut

theorem WellFormed.grounded_planOf (hw : WellFormed t) (hg : t.Grounded) {c : Command}
    (h : t.Admits c) : (t.applyPlan (t.planOf c)).Grounded :=
  hw.grounded_applyPlan hg (hw.shaped.nodup_planOf c) (hw.shaped.fitting_planOf h)
    fun _ he _ hcut => grounded_of_mem_planOf he hcut

/-! ## Folding and unfolding -/

theorem Layout.grounded_foldedBack (h : Layout t p (unfoldedCells id F a b c)) (hg : t.Grounded) :
    (t.foldedBack p id F a b c).Grounded := by
  have hstep : (t.foldStep p id F a b c).Grounded := by
    refine Grounded.modify (Grounded.rewrite ?_ ?_) (Node.grounded_moveGroups _ _ _)
    · exact hg.of_resembles (resembles_setChildren t p _)
    · rw [(resembles_setChildren t p _ p).text, h.text]
      simpa [before, foldPatch, unfoldedCells] using pieces_edits 0 [foldPatch id F a b] c
  refine hstep.of_resembles fun j => ?_
  exact (resembles_putChild _ p id _ j).trans (resembles_foldl (resembles_moveChild _ _ _) _ _ j)

theorem Folds.grounded {folds : List NodeId} (h : Folds t folds t') (hg : t.Grounded) :
    t'.Grounded := by
  induction h with
  | done => exact hg
  | skip _ _ ih => exact ih hg
  | back hF _ ih => exact ih (hF.around.grounded_foldedBack hg)

theorem Hidden.grounded_unfoldAt (h : Hidden t p id a b c F) (hg : t.Grounded) :
    (t.unfoldAt id ⟨p, ⟨a.size, a.size + F.glyph.utf8Size⟩⟩ F).Grounded := by
  rw [h.place.unfoldAt_eq h.body]
  have hgrown : ((t.setChildren p (starts (a ++ c))).rewrite p
      (edits 0 [unfoldPatch id F a b])).Grounded := by
    refine Grounded.rewrite (hg.of_resembles (resembles_setChildren t p _)) ?_
    rw [(resembles_setChildren t p _ p).text, h.place.text]
    simpa [before, unfoldPatch, foldedCells] using pieces_edits 0 [unfoldPatch id F a b] c
  intro j
  refine Node.Grounded.of_resembles ?_ (resembles_putChild _ p id _ j)
  rw [Tree.hollow, node_modify]
  split
  · exact Node.grounded_of_unfolded rfl
  · -- the node without a body is the one that counts as unfolded
    rename_i hj
    refine Node.Grounded.of_resembles ?_ (resembles_foldl (resembles_moveChild _ _ _) _ _ j)
    rw [unfoldStep, node_modify, if_neg]
    · exact hgrown j
    · simpa [spread, unfoldStep] using hj

theorem WellFormed.grounded_unfold (hw : WellFormed t) (hg : t.Grounded) (id : NodeId)
    (openLabel closeLabel : Text) : (t.unfold id openLabel closeLabel).tree.Grounded := by
  rcases hw.shaped.unfold_cases id openLabel closeLabel with
    ⟨he, -⟩ | ⟨-, -, p, a, b, c, F, hh, he⟩
  · rw [he]
    exact hg
  · rw [he]
    exact hh.grounded_unfoldAt hg

/-! ## Expanding for good -/

theorem Layout.grounded_expandChildren (h : Layout t x cs)
    (hf : ∀ c ∈ t.children x, (t.node c).fold = none) (hg : t.Grounded) :
    (t.expandChildren x).Grounded := by
  have hset := resembles_setChildren t x []
  have hexpand : ∀ (s : Tree) (ks : List NodeId) (j : NodeId),
      ((s.modify x fun n => { n with expanded := n.expanded ++ ks }).node j).Resembles
        (s.node j) := by
    intro s ks j
    refine resembles_modify (fun n => ?_) s x j
    exact ⟨rfl, rfl, fun _ => rfl⟩
  refine Grounded.of_resembles (Grounded.rewrite (hg.of_resembles hset) ?_) (hexpand _ _)
  have hedits := h.fits.filterMap_span fun i hi => hf i (h.children ▸ h.nested.mem_ids.1 hi)
  rw [(hset x).text, h.text, h.children, hedits, List.map_map]
  exact pieces_marks 0 cs

theorem WellFormed.grounded_unhideAll (hw : WellFormed t) (hg : t.Grounded) :
    t.unhideAll.tree.Grounded := by
  have hf := hw.faithful_foldAll.wellFormed
  have hst := hw.folds_foldAll.2 ▸ hf.stacked
  rw [unhideAll_tree]
  exact hf.shaped.expand_induct hst
    (fun hg _ _ hl hc => hl.grounded_expandChildren (fun c hm => (hc c hm).1) hg)
    (hw.folds_foldAll.1.grounded hg)

/-! ## Other changes -/

theorem WellFormed.grounded_replaceEach {ids : List NodeId} (hw : WellFormed t) (hg : t.Grounded)
    (hids : ∀ x ∈ ids, x < t.size) {old : Text} (hold : old ≠ []) (new : Text) :
    (Tree.replaceEach old new ids t).2.Grounded := by
  induction ids generalizing t with
  | nil => exact hg
  | cons x ids ih =>
    obtain ⟨hx, hids⟩ := List.forall_mem_cons.1 hids
    obtain ⟨ps, z, hl, he, -⟩ := hw.shaped.exists_replacing hx hold new
    refine ih (hw.rewrite_replacingEdits hx hold new) (hg.rewrite ?_) fun y hy => ?_
    · rw [hl.text, ← he]
      exact pieces_edits 0 ps z
    · rw [size_rewrite]
      exact hids y hy

theorem WellFormed.grounded_replaceAll (hw : WellFormed t) (hg : t.Grounded)
    (old new target : Text) : (t.replaceAll old new target).tree.Grounded := by
  unfold Tree.replaceAll
  split
  · exact hg
  · rename_i hold
    exact hw.grounded_replaceEach hg (fun x hx => hw.shaped.mem_targets hx) (by simpa using hold) new

theorem resembles_adopt (target : NodeId) (t : Tree) (c j : NodeId) :
    ((t.modify c (adopted target)).node j).Resembles (t.node j) := by
  refine resembles_modify (fun n => ?_) t c j
  exact ⟨rfl, rfl, fun _ => rfl⟩

/-- A move of content gives a text and groups to the target only. -/
theorem resembles_replaceContent {target source : NodeId} (hne : target ≠ source) (t : Tree)
    (j : NodeId) : ((t.replaceContent target source).node j).Resembles
      (if j = target ∧ j < t.size then
        { t.node j with text := (t.node source).text, groups := (t.node source).groups }
        else t.node j) := by
  rw [replaceContent_eq hne]
  generalize hs : (t.children source).foldl (fun t c => t.modify c (adopted target))
    ((t.rename target (t.node source).name).setChildren source []) = s
  have hsize : s.size = t.size := by
    rw [← hs, size_foldl_modify, size_setChildren, size_rename]
  have hj : (s.node j).Resembles (t.node j) := hs ▸
    (resembles_foldl (resembles_adopt target) _ _ j).trans
      ((resembles_setChildren _ source [] j).trans (resembles_rename t target _ j))
  rw [node_modify, hsize]
  split
  · exact ⟨rfl, hj.fold, fun _ => rfl⟩
  · exact hj

theorem fold_replaceContent (t : Tree) (target source j : NodeId) :
    ((t.replaceContent target source).node j).fold = (t.node j).fold := by
  by_cases hne : target = source
  · rw [replaceContent, if_pos hne]
  · rw [(resembles_replaceContent hne t j).fold]
    split <;> rfl

theorem Grounded.replaceContent {target source : NodeId} (hg : t.Grounded)
    (hsu : (t.node source).isUnfolded = false) : (t.replaceContent target source).Grounded := by
  by_cases hne : target = source
  · rwa [Tree.replaceContent, if_pos hne]
  · intro j
    refine Node.Grounded.of_resembles ?_ (resembles_replaceContent hne t j)
    split
    · exact fun _ => hg source hsu
    · exact hg j

theorem Grounded.swap (hg : t.Grounded) (hau : (t.node x).isUnfolded = false)
    (hbu : (t.node id).isUnfolded = false) : (t.swap x id).tree.Grounded := by
  unfold Tree.swap
  split
  · rename_i hx
    split
    · rename_i hid
      have hfresh : (t.detached []).2.Grounded := hg.alloc (Node.grounded_of_groups rfl)
      have hfold := fun s y z j => Node.isUnfolded_congr (fold_replaceContent s y z j)
      dsimp only [Outcome.done]
      refine ((hfresh.replaceContent ?_).replaceContent ?_).replaceContent ?_
      · rwa [detached, node_alloc_of_ne (Nat.ne_of_lt hx)]
      · rwa [hfold, detached, node_alloc_of_ne (Nat.ne_of_lt hid)]
      · rw [hfold, hfold, detached, node_alloc, if_pos rfl]
        rfl
    · exact hg
  · exact hg

theorem Grounded.replaceNode {target source : NodeId} (hg : t.Grounded)
    (hsu : (t.node source).isUnfolded = false) : (t.replaceNode target source).tree.Grounded := by
  unfold Tree.replaceNode
  split
  · split
    · exact hg.replaceContent hsu
    · exact hg
  · exact hg

/-! ## Histories -/

/-- No operation leaves a group outside of the text of its node. -/
theorem invariant_grounded : Invariant fun t => WellFormed t ∧ t.Grounded where
  beside h hn hf := by
    refine ⟨invariant_wellFormed.beside h.1 hn hf, fun j => ?_⟩
    rw [node, hn]
    exact h.2 j
  rename id name h :=
    ⟨invariant_wellFormed.rename id name h.1, h.2.of_resembles (resembles_rename _ id name)⟩
  hideMatches {t name pattern label target} h hs := ⟨invariant_wellFormed.hideMatches h.1 hs,
    hideMatches_tree t name pattern label target ▸
      h.1.grounded_planOf h.2 (c := .hideAll name pattern label target) hs⟩
  hideGroup {t name label group scope source} h hs := ⟨invariant_wellFormed.hideGroup h.1 hs,
    hideGroup_tree t name label group scope source ▸
      h.1.grounded_planOf h.2 (c := .hideGroup name label group scope source) hs⟩
  hideRest {t} name label target h := ⟨invariant_wellFormed.hideRest name label target h.1,
    hideRest_tree t name label target ▸
      h.1.grounded_planOf h.2 (c := .hideRest name label target) trivial⟩
  unfold id openLabel closeLabel h :=
    ⟨invariant_wellFormed.unfold id openLabel closeLabel h.1, h.1.grounded_unfold h.2 id _ _⟩
  foldAll h := ⟨invariant_wellFormed.foldAll h.1, h.1.folds_foldAll.1.grounded h.2⟩
  unhideAll h := ⟨invariant_wellFormed.unhideAll h.1, h.1.grounded_unhideAll h.2⟩
  replaceAll old new target h :=
    ⟨invariant_wellFormed.replaceAll old new target h.1, h.1.grounded_replaceAll h.2 old new target⟩
  replaceNode h ha := ⟨invariant_wellFormed.replaceNode h.1 ha, h.2.replaceNode ha.2.1⟩
  swap h ha := ⟨invariant_wellFormed.swap h.1 ha, h.2.swap ha.1 ha.2.1⟩
  detached text h :=
    ⟨invariant_wellFormed.detached text h.1, h.2.alloc (Node.grounded_of_groups rfl)⟩

theorem grounded_ofText (text : Text) (config : Config) : (ofText text config).Grounded :=
  Grounded.alloc (fun _ => Node.grounded_of_groups rfl) (Node.grounded_of_groups rfl)

theorem Grounded.addChild (hg : t.Grounded) (width : Nat) (child : (Text × Text) × Nat) :
    (t.addChild width child).Grounded := by
  obtain ⟨⟨name, text⟩, start⟩ := child
  exact Grounded.of_resembles (hg.alloc (Node.grounded_of_groups rfl))
    (resembles_setChildren _ root _)

theorem Initial.grounded (h : Initial t) : t.Grounded :=
  h.induct grounded_ofText (fun name _ hg => hg.of_resembles (resembles_rename _ root name))
    fun width child _ hg => hg.addChild width child

/-- In every reachable tree the groups of each node that is not unfolded lie in its text. -/
theorem Reachable.grounded (h : Reachable t) : t.Grounded :=
  (h.holds invariant_grounded fun _ h₀ => ⟨h₀.wellFormed, h₀.grounded⟩).2

end Tree

end GlyphTree
