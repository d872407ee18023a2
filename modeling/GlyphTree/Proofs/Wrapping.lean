import GlyphTree.Proofs.FreshNodes
import GlyphTree.Proofs.Relaid
import GlyphTree.Proofs.Substitution

/-!
# Hiding what is left

What hiding the rest makes of a tree: each run that holds anything, of each target with children,
becomes a leaf with a glyph of its own, so that only signs are left in the text
(`Reachable.hideRest_wraps`). The leaves have no children, so to do it again changes nothing.
-/

namespace GlyphTree

namespace Text

/-- Signs between runs, with a glyph for each run that holds anything. The glyphs are those of fresh
nodes, the first of which is `n`. -/
def wrap (glyph : Char) : NodeId → List Text → List (NodeId × Text) → List (NodeId × Text)
  | n, run :: runs, sign :: signs =>
    if run = [] then sign :: wrap glyph n runs signs
    else (n, [glyph]) :: sign :: wrap glyph (n + 1) runs signs
  | n, [run], [] => if run = [] then [] else [(n, [glyph])]
  | _, _, _ => []

end Text

namespace Cells

open Region

variable {name u : Text} {glyph ch : Char} {m : CellMark} {cs z : Cells} {rs : List Region} {n b : NodeId}

/-! ## Regions of runs -/

/-- The runs of cells that hold anything. -/
def words (cs : Cells) : List Text := cs.runs.filter (· ≠ [])

/-- The literal runs of cells that start at byte `o`, as regions. -/
def restFrom (name : Text) (glyph : Char) (o : Nat) (cs : Cells) : List Cut :=
  (literalRunsFrom o (o + cs.size) ((marks o cs).map Prod.fst)).map fun run =>
    ⟨run, glyph, .fresh name none⟩

theorem restFrom_mark (o : Nat) : restFrom name glyph o (plain u ++ ⟨ch, some m⟩ :: cs) =
    (if u = [] then [] else [⟨⟨o, o + u.byteSize⟩, glyph, .fresh name none⟩]) ++
      restFrom name glyph (o + u.byteSize + ch.utf8Size) cs := by
  have hw := ch.utf8Size_pos
  rw [restFrom, marks_append, marks_plain, List.nil_append, marks_some, List.map_cons,
    literalRunsFrom, size_plain, Nat.max_eq_right (by dsimp only; omega), restFrom]
  simp only [size_append, size_plain, size_cons, ← Nat.add_assoc]
  by_cases hu : u = []
  · simp [hu]
  · have := Text.byteSize_pos hu
    rw [if_pos (by omega), if_neg hu]
    rfl

/-- The regions `rs` with the cells `z` behind them are those of the runs of `cs`, which are to become
leaves. -/
structure Wraps (name : Text) (glyph : Char) (cs : Cells) (rs : List Region) (z : Cells) : Prop where
  cells : Region.cells rs z = cs
  cuts : ∀ o, Region.cuts o rs = restFrom name glyph o cs
  gone : rs.map Region.gone = cs.words.map plain
  runs : ∀ n, ∀ run ∈ (marked n rs z).runs, run = []
  signs : ∀ n, (marked n rs z).signs = Text.wrap glyph n cs.runs cs.signs

theorem wraps_nil : Wraps name glyph (plain []) [] [] where
  cells := rfl
  cuts _ := by simp [Region.cuts, restFrom, literalRunsFrom]
  gone := rfl
  runs _ _ h := List.mem_singleton.1 h
  signs _ := rfl

theorem wraps_plain (hu : u ≠ []) :
    Wraps name glyph (plain u) [⟨[], plain u, glyph, name, none⟩] [] where
  cells := List.append_nil _
  cuts o := by
    have := Text.byteSize_pos hu
    simp [Region.cuts, restFrom, literalRunsFrom, this]
  gone := by simp [words, hu]
  runs n run h := by simpa [marked] using h
  signs n := by simp [marked, Text.wrap, hu, CellMark.id]

/-- Cells before the first region. -/
theorem exists_prepend (d : Cells) (rs : List Region) (z : Cells) : ∃ rs' z',
    Region.cells rs' z' = d ++ Region.cells rs z ∧
      (∀ o, Region.cuts o rs' = Region.cuts (o + d.size) rs) ∧
      rs'.map Region.gone = rs.map Region.gone ∧ ∀ n, marked n rs' z' = d ++ marked n rs z := by
  cases rs with
  | nil => exact ⟨[], d ++ z, rfl, fun _ => rfl, rfl, fun _ => rfl⟩
  | cons r rs =>
    refine ⟨{ r with kept := d ++ r.kept } :: rs, z, ?_, fun o => ?_, rfl, fun n => ?_⟩
    · simp [cells_cons]
    · simp [Region.cuts, Nat.add_assoc]
    · simp [marked]

theorem Wraps.mark (h : Wraps name glyph cs rs z) (u : Text) (ch : Char) (m : CellMark) :
    ∃ rs' z', Wraps name glyph (plain u ++ ⟨ch, some m⟩ :: cs) rs' z' := by
  obtain ⟨rs', z', hcells, hcuts, hgone, hmarked⟩ := exists_prepend [⟨ch, some m⟩] rs z
  rw [h.cells] at hcells
  by_cases hu : u = []
  · subst hu
    refine ⟨rs', z', hcells, fun o => ?_, ?_, fun n => ?_, fun n => ?_⟩
    · rw [restFrom_mark, hcuts, h.cuts]
      simp
    · rw [hgone, h.gone]
      simp [words]
    · rw [hmarked]
      simpa using h.runs n
    · rw [hmarked]
      simp [Text.wrap, h.signs]
  · refine ⟨⟨[], plain u, glyph, name, none⟩ :: rs', z', ?_, fun o => ?_, ?_, fun n => ?_,
      fun n => ?_⟩
    · rw [cells_cons, hcells]
      simp
    · rw [restFrom_mark, Region.cuts, hcuts, h.cuts]
      simp [hu]
    · rw [List.map_cons, hgone, h.gone]
      simp [words, hu]
    · rw [marked, hmarked]
      simpa using h.runs (n + 1)
    · rw [marked, hmarked]
      simp [Text.wrap, hu, h.signs, CellMark.id]

theorem exists_wraps (name : Text) (glyph : Char) (cs : Cells) :
    ∃ rs z, Wraps name glyph cs rs z := by
  induction cs using induct_runs with
  | plain u =>
    by_cases hu : u = []
    · exact ⟨[], [], hu ▸ wraps_nil⟩
    · exact ⟨_, _, wraps_plain hu⟩
  | mark u ch m cs ih =>
    obtain ⟨rs, z, h⟩ := ih
    exact h.mark u ch m

/-! ## Leaves among children -/

/-- The children behind the cuts of literal regions are the old ones and the fresh ones. -/
theorem filter_starts_marked (hlit : ∀ r ∈ rs, starts r.gone = [])
    (hold : ∀ c ∈ starts (Region.cells rs z), c < b) (hb : b ≤ n) :
    (starts (marked n rs z)).filter (· < b) = starts (Region.cells rs z) ∧
      (starts (marked n rs z)).filter (b ≤ ·) = List.range' n rs.length := by
  induction rs generalizing n with
  | nil =>
    refine ⟨List.filter_eq_self.2 fun c hc => by simpa using hold c hc, ?_⟩
    exact List.filter_eq_nil_iff.2 fun c hc => by simpa using hold c hc
  | cons r rs ih =>
    obtain ⟨hr, hlit⟩ := List.forall_mem_cons.1 hlit
    rw [cells_cons, starts_append, starts_append, hr, List.append_nil] at hold ⊢
    obtain ⟨hkept, hrest⟩ := List.forall_mem_append.1 hold
    obtain ⟨hlow, hhigh⟩ := ih hlit hrest (Nat.le_succ_of_le hb)
    rw [marked, starts_append, starts_glyph, List.filter_append, List.filter_append,
      List.filter_cons_of_neg (by simpa using hb), List.filter_cons_of_pos (by simpa using hb), hlow,
      hhigh, List.length_cons, List.range'_succ]
    refine ⟨congrArg (· ++ _) (List.filter_eq_self.2 fun c hc => by simpa using hkept c hc), ?_⟩
    rw [List.filter_eq_nil_iff.2 fun c hc => by simpa using hkept c hc, List.nil_append]

section
variable (h : Wraps name glyph cs rs z)
include h

theorem Wraps.gone_get {i : Nat} {run : Text} (hi : cs.words[i]? = some run) :
    ∃ r, rs[i]? = some r ∧ r.gone = plain run := by
  have hget := congrArg (·[i]?) h.gone
  simp only [List.getElem?_map, hi, Option.map_some] at hget
  exact Option.map_eq_some_iff.1 hget

theorem Wraps.length : rs.length = cs.words.length := by
  simpa using congrArg List.length h.gone

theorem Wraps.literal {r : Region} (hr : r ∈ rs) : ∃ run ∈ cs.words, r.gone = plain run := by
  have hmem := List.mem_map_of_mem (f := Region.gone) hr
  rw [h.gone] at hmem
  obtain ⟨run, hrun, he⟩ := List.mem_map.1 hmem
  exact ⟨run, hrun, he.symm⟩

/-- Regions of runs can be hidden. -/
theorem Wraps.solid {r : Region} (hr : r ∈ rs) : Closed r.gone ∧ 0 < r.gone.size := by
  obtain ⟨run, hrun, hgone⟩ := h.literal hr
  have hne : run ≠ [] := by simpa using (List.mem_filter.1 hrun).2
  rw [hgone, size_plain]
  exact ⟨closed_of_nest (nest_plain [] _), Text.byteSize_pos hne⟩

/-- There are as many literal runs in the text as there are runs that hold anything. -/
theorem Wraps.length_cuts (o : Nat) : (restFrom name glyph o cs).length = cs.words.length := by
  have hcuts : ∀ (o : Nat) (rs : List Region), (Region.cuts o rs).length = rs.length := fun o rs => by
    induction rs generalizing o with
    | nil => rfl
    | cons r rs ih => exact congrArg Nat.succ (ih _)
  rw [← h.cuts, hcuts, h.length]

end

end Cells

namespace Tree

open Cells Region

variable {t t' : Tree} {p n x : NodeId} {cs : Cells} {name label target : Text} {glyph : Char}
  {circles : Prop}

/-- The runs of a node's text that hold anything. -/
def words (t : Tree) (p : NodeId) : List Text := (t.runs p).filter (· ≠ [])

theorem Layout.words_eq (h : Layout t p cs) : t.words p = cs.words := by
  rw [words, h.runs_eq, Cells.words]

theorem Layout.restCuts_eq (h : Layout t p cs) :
    t.restCuts name glyph p = restFrom name glyph 0 cs := by
  rw [restCuts, h.literalRuns_eq, restFrom, Nat.zero_add]

/-- The targets that have children, in live order. -/
def parentTargets (t : Tree) (target : Text) : List NodeId :=
  (t.targets target).filter fun p => !(t.children p).isEmpty

/-- The number of runs that hold anything in the texts of nodes. -/
def wordCount (t : Tree) (ps : List NodeId) : Nat := (ps.map fun p => (t.words p).length).sum

/-- What has become of a node `p` whose runs are hidden; the first of the leaves is `n`. -/
structure WrappedAt (t t' : Tree) (name : Text) (glyph : Char) (n p : NodeId) : Prop where
  /-- The text consists of glyphs and markers alone. -/
  runs : ∀ run ∈ t'.runs p, run = []
  text : (t'.node p).text = ((t'.signs p).map Prod.snd).flatten
  /-- The old ones stay, with the glyphs of the leaves where the runs were. -/
  signs : t'.signs p = Text.wrap glyph n (t.runs p) (t.signs p)
  /-- Each run that holds anything is the text of a leaf. -/
  leaf : ∀ i run, (t.words p)[i]? = some run → (t'.node (n + i)).name = name ∧
    (t'.node (n + i)).text = run ∧ (t'.node (n + i)).parent = some p ∧ t'.children (n + i) = [] ∧
    t'.expandedChildren (n + i) = [] ∧ (t'.node (n + i)).groups = none ∧
    (t'.node (n + i)).fold = none
  /-- The old children are still listed in their order, and so are the leaves in theirs. -/
  kept : (t'.children p).filter (· < t.size) = t.children p
  fresh : (t'.children p).filter (t.size ≤ ·) = List.range' n (t.words p).length

/-- What hiding the rest makes of a tree. The leaves are numbered in live order of the targets and in
the order of the runs of each. -/
structure RestHidden (t t' : Tree) (name : Text) (glyph : Char) (target : Text) : Prop where
  size : t'.size = t.size + t.wordCount (t.parentTargets target)
  wrapped : ∀ before p after, t.parentTargets target = before ++ p :: after →
    WrappedAt t t' name glyph (t.size + t.wordCount before) p
  spared : ∀ x < t.size, x ∉ t.parentTargets target →
    (t'.node x).text = (t.node x).text ∧ t'.children x = t.children x

/-! ## Carrying out -/

theorem Layout.length_restCuts (h : Layout t p cs) :
    (t.restCuts name glyph p).length = (t.words p).length := by
  obtain ⟨rs, z, hwraps⟩ := exists_wraps name glyph cs
  rw [h.restCuts_eq, hwraps.length_cuts, h.words_eq]

section
variable (h : Relaid t t' n p (t.restCuts name glyph p)) (hl : Layout t p cs)
include h hl

/-- What comes of the runs of `p`: its cells have signs only, and those of the leaves have none. -/
theorem Relaid.exists_wraps : ∃ rs z, Wraps name glyph cs rs z ∧ Layout t' p (marked n rs z) ∧
    ∀ i run, (t.words p)[i]? = some run → Layout t' (n + i) (plain run) := by
  obtain ⟨rs, z, hwraps⟩ := Cells.exists_wraps name glyph cs
  have hcuts : Region.cuts 0 rs = t.restCuts name glyph p := by rw [hwraps.cuts, hl.restCuts_eq]
  obtain ⟨hl', hfresh⟩ := h rs z (hwraps.cells ▸ hl) hcuts fun r hr => hwraps.solid hr
  refine ⟨rs, z, hwraps, hl', fun i run hi => ?_⟩
  obtain ⟨r, hr, hgone⟩ := hwraps.gone_get (hl.words_eq ▸ hi)
  exact hgone ▸ hfresh i r hr

theorem Relaid.wrappedAt (hp : Parted t t' n p (t.restCuts name glyph p)) (hn : t.size ≤ n) :
    WrappedAt t t' name glyph n p := by
  obtain ⟨rs, z, hwraps, hl', hleaf⟩ := h.exists_wraps hl
  have hruns : ∀ run ∈ t'.runs p, run = [] := by
    rw [hl'.runs_eq]
    exact hwraps.runs n
  have hlit : ∀ r ∈ rs, starts r.gone = [] := fun r hr => by
    obtain ⟨run, -, hgone⟩ := hwraps.literal hr
    rw [hgone, starts_plain]
  obtain ⟨hkept, hfresh⟩ := filter_starts_marked (z := z) hlit
    (fun c hc => hl.lt_size (hl.children ▸ hwraps.cells ▸ hc)) hn
  refine ⟨hruns, ?_, ?_, fun i run hi => ?_, ?_, ?_⟩
  · rw [hl'.text_eq_alternate, Text.alternate_of_empty hruns]
    rw [hl'.signs_eq, hl'.runs_eq, length_runs, List.length_map]
    exact Nat.lt_succ_self _
  · rw [hl'.signs_eq, hwraps.signs, hl.runs_eq, hl.signs_eq]
  · have hlt : i < (t.restCuts name glyph p).length := by
      rw [hl.length_restCuts]
      exact (List.getElem?_eq_some_iff.1 hi).1
    have hmade := hp.made i _ (List.getElem?_eq_getElem hlt)
    have horigin : (t.restCuts name glyph p)[i].origin = .fresh name none := by
      obtain ⟨run, -, he⟩ := List.mem_map.1 (List.getElem_mem hlt)
      rw [← he]
    obtain ⟨hname, hgroups⟩ := Origin.fresh.inj (horigin.symm.trans hmade.origin)
    have hleaf := hleaf i run hi
    refine ⟨hname.symm, ?_, ?_, ?_, hmade.expanded, hgroups.symm, hmade.fold⟩
    · rw [hleaf.text, text_plain]
    · rw [Node.parent, hmade.place]
      rfl
    · rw [hleaf.children, starts_plain]
  · rw [hl'.children, hl.children, ← hwraps.cells]
    exact hkept
  · rw [hl'.children, hl.words_eq, ← hwraps.length]
    exact hfresh

end

theorem Shaped.lt_of_mem_parentTargets (hs : Shaped t) {target : Text}
    (hp : p ∈ t.parentTargets target) : p < t.size :=
  hs.mem_targets (List.mem_filter.1 hp).1

theorem Shaped.regions_restCuts (hs : Shaped t) (name : Text) (glyph : Char) {ps : List NodeId}
    (hps : ∀ p ∈ ps, p < t.size) :
    Plan.regions (ps.map fun p => (p, t.restCuts name glyph p)) = t.wordCount ps := by
  rw [regions_map, wordCount]
  refine congrArg List.sum (List.map_congr_left fun p hp => ?_)
  obtain ⟨cs, hl⟩ := hs.layout p (hps p hp)
  exact hl.length_restCuts

theorem mem_restPlan {e : NodeId × List Cut} (he : e ∈ t.restPlan name glyph target) :
    e.1 ∈ t.parentTargets target ∧ e.2 = t.restCuts name glyph e.1 := by
  obtain ⟨p, hp, rfl⟩ := List.mem_map.1 he
  exact ⟨hp, rfl⟩

theorem Shaped.separate_restPlan (name : Text) (glyph : Char) (target : Text) (hs : Shaped t)
    (ht : Tied circles t) : Separate t (t.restPlan name glyph target) := by
  obtain ⟨hnd, hfit⟩ : ((t.restPlan name glyph target).map Prod.fst).Nodup ∧ _ :=
    hs.fitting_restPlan target
  exact ⟨hnd, fun e he => hs.lt_of_mem_parentTargets (mem_restPlan he).1,
    fun e he c hc => Cut.isFresh_iff.2 ⟨_, _, (hfit e he).2 c hc⟩, fun e _ c => ht.isParent_child⟩

theorem WellFormed.restHidden (name : Text) (glyph : Char) (target : Text) (hw : WellFormed t)
    (ht : Tied circles t) :
    RestHidden t (t.applyPlan (t.restPlan name glyph target)) name glyph target ∧
      ∀ x, t.size ≤ x → x < (t.applyPlan (t.restPlan name glyph target)).size →
        (t.applyPlan (t.restPlan name glyph target)).children x = [] := by
  have hs := hw.shaped
  have hseparate := hs.separate_restPlan name glyph target ht
  have hdone := hseparate.carriedOut
  have hrelaid := hseparate.relaid hw fun e he => ((hs.fitting_restPlan target).2 e he).1
  have hlt : ∀ p ∈ t.parentTargets target, p < t.size := fun p => hs.lt_of_mem_parentTargets
  refine ⟨⟨?_, fun before p after hsplit => ?_, fun x hx hnot => ?_⟩, fun x hx hx' => ?_⟩
  · rw [hdone.size, ← hs.regions_restCuts name glyph hlt]
    rfl
  · rw [hsplit] at hlt
    have hp := hlt p (by simp)
    obtain ⟨cs, hl⟩ := hs.layout p hp
    have hparted := hdone.parted
    have hcut : t.restPlan name glyph target = before.map (fun p => (p, t.restCuts name glyph p)) ++
        (p, t.restCuts name glyph p) :: after.map fun p => (p, t.restCuts name glyph p) := by
      rw [← List.map_cons (f := fun p => (p, t.restCuts name glyph p)), ← List.map_append, ← hsplit]
      rfl
    rw [hcut] at hparted hrelaid
    rw [← hs.regions_restCuts name glyph fun q hq => hlt q (List.mem_append_left _ hq), hcut]
    exact hrelaid.middle.wrappedAt hl hparted.middle (Nat.le_add_right _ _)
  · have hfst : (t.restPlan name glyph target).map Prod.fst = t.parentTargets target := by
      simp [restPlan, parentTargets, Function.comp_def]
    have hkept := hdone.preserved x hx
    rw [hfst] at hkept
    exact ⟨hkept.text hnot, hkept.children hnot⟩
  · rw [hdone.size] at hx'
    obtain ⟨n, p, cuts, i, hmem, hr, hi, rfl⟩ := hrelaid.exists_of_lt hx hx'
    obtain ⟨hp, hcuts⟩ := mem_restPlan hmem
    dsimp only at hp hcuts
    subst hcuts
    obtain ⟨cs, hl⟩ := hs.layout p (hlt p hp)
    obtain ⟨-, -, -, -, hleaf⟩ := hr.exists_wraps hl
    rw [hl.length_restCuts] at hi
    rw [(hleaf i _ (List.getElem?_eq_getElem hi)).children, starts_plain]

theorem applyPlan_of_empty {plan : Plan} (h : ∀ e ∈ plan, e.2 = []) : t.applyPlan plan = t := by
  rw [← applyPlan_filter, List.filter_eq_nil_iff.2 fun e he => by simp [h e he]]
  rfl

/-- Where only signs are left there is nothing to hide. -/
theorem Layout.restCuts_eq_nil (h : Layout t p cs) (hruns : ∀ run ∈ t.runs p, run = []) :
    t.restCuts name glyph p = [] := by
  rw [← List.length_eq_zero_iff, h.length_restCuts, List.length_eq_zero_iff, words]
  exact List.filter_eq_nil_iff.2 fun run hrun => by simp [hruns run hrun]

/-- The targets that were there before are targets still, and no others of the old nodes are. -/
theorem WellFormed.mem_targets_hideRest (hw : WellFormed t) (hx : x < t.size)
    (hmem : x ∈ (t.hideRest name label target).tree.targets target) : x ∈ t.targets target := by
  obtain ⟨hlive, htarget⟩ := List.mem_filter.1 hmem
  have hgrows := grows_hideRest t name label target
  refine List.mem_filter.2 ⟨?_, ?_⟩
  · have horder : KeepsOrder t (t.hideRest name label target).tree := hw.keepsOrder_hideRest
    rw [← horder]
    exact List.mem_filter.2 ⟨hlive, by simpa using hx⟩
  · have hname := (enlists_hideRest t name label target).name x hx
    rwa [isTarget, hgrows.config, isIgnored, hgrows.ignored, hname] at htarget

/-- To hide the rest takes the runs out of each target that has children, and makes leaves of them. To
do it again changes nothing, whatever name the leaves have. -/
theorem Reachable.hideRest_wraps (h : Reachable t) (hglyph : t.labels.glyph label = .ok glyph)
    (name target : Text) :
    let first := t.hideRest name label target
    let second := first.tree.hideRest name label target
    first.result = .ok () ∧ RestHidden t first.tree name glyph target ∧
      second.result = .ok () ∧ second.tree = first.tree := by
  intro first second
  have hw := h.wellFormed
  have hgrows : Grows t first.tree := grows_hideRest t name label target
  have hglyph' : first.tree.labels.glyph label = .ok glyph := hgrows.labels ▸ hglyph
  have hresult : ∀ {u : Tree}, u.labels.glyph label = .ok glyph →
      (u.hideRest name label target).result = .ok () := fun hu => by
    rw [Tree.hideRest, hu]
    rfl
  obtain ⟨hhidden, hleaf⟩ := hw.restHidden name glyph target h.reached.tied
  have htree : first.tree = t.applyPlan (t.restPlan name glyph target) := by
    rw [hideRest_tree, restToHide, hglyph]
  rw [← htree] at hhidden hleaf
  refine ⟨hresult hglyph, hhidden, hresult hglyph', ?_⟩
  have hw' : WellFormed first.tree := (hw.faithful_hideRest name label target).wellFormed
  rw [hideRest_tree, restToHide, hglyph']
  refine applyPlan_of_empty fun e he => ?_
  obtain ⟨x, hx, rfl⟩ := List.mem_map.1 he
  obtain ⟨htarget, hkids⟩ := List.mem_filter.1 hx
  have hlt : x < first.tree.size := hw'.shaped.mem_targets htarget
  obtain ⟨cs, hl⟩ := hw'.shaped.layout x hlt
  rcases Nat.lt_or_ge x t.size with hold | hnew
  · refine hl.restCuts_eq_nil ?_
    by_cases hmem : x ∈ t.parentTargets target
    · obtain ⟨before, after, hsplit⟩ := List.append_of_mem hmem
      exact (hhidden.wrapped before x after hsplit).runs
    · rw [(hhidden.spared x hold hmem).2] at hkids
      exact absurd (List.mem_filter.2 ⟨hw.mem_targets_hideRest hold htarget, hkids⟩) hmem
  · rw [hleaf x hnew hlt] at hkids
    cases hkids

set_option maxRecDepth 20000 in
/-- The runs within and behind an unfolded part are hidden. The leaves carry the name of the targets,
and yet keep their texts. -/
theorem hideRest_wraps_unfoldedWithin :
    let first := unfoldedWithin.hideRest ['k'] ['!'] ['k']
    let second := first.tree.hideRest ['k'] ['!'] ['k']
    Reachable unfoldedWithin ∧ unfoldedWithin.parentTargets ['k'] = [1] ∧
      (unfoldedWithin.node 1).text = ['<', 'x', 'y', '>', 'y'] ∧ first.result = .ok () ∧
      RestHidden unfoldedWithin first.tree ['k'] '!' ['k'] ∧
      (first.tree.node 1).text = ['<', '!', '>', '!'] ∧ first.tree.children 1 = [2, 3, 4] ∧
      first.tree.targets ['k'] = [1, 3, 4] ∧ second.tree = first.tree := by
  -- all that is to be computed, at once, since each run of `cbv` makes the tree anew
  obtain ⟨hglyph, htargets, hbefore, hafter, hkids, hnamed⟩ :
      unfoldedWithin.labels.glyph ['!'] = .ok '!' ∧ unfoldedWithin.parentTargets ['k'] = [1] ∧
      (unfoldedWithin.node 1).text = ['<', 'x', 'y', '>', 'y'] ∧
      ((unfoldedWithin.hideRest ['k'] ['!'] ['k']).tree.node 1).text = ['<', '!', '>', '!'] ∧
      (unfoldedWithin.hideRest ['k'] ['!'] ['k']).tree.children 1 = [2, 3, 4] ∧
      (unfoldedWithin.hideRest ['k'] ['!'] ['k']).tree.targets ['k'] = [1, 3, 4] := by
    cbv
  obtain ⟨hok, hhidden, -, hagain⟩ :=
    Reachable.hideRest_wraps reachable_unfoldedWithin hglyph ['k'] ['k']
  exact ⟨reachable_unfoldedWithin, htargets, hbefore, hok, hhidden, hafter, hkids, hnamed, hagain⟩

end Tree

end GlyphTree
