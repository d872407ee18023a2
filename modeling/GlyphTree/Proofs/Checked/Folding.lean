import GlyphTree.Proofs.Arrangement
import GlyphTree.Proofs.Checked.Splice
import GlyphTree.Proofs.Checked.Walks

/-!
# Checked plans and foldings

Carrying out plans, unfolding nodes, folding them back and expanding children, with checks. In a
well-formed tree whatever a plan cuts out of a text is laid out there, an unfolded node has its
markers in the text of its parent, and the children that are expanded stand on glyphs of it. So all
of this is safe where the tree is housed, and leaves a tree that is housed as well.
-/

namespace GlyphTree

namespace Outcome

variable {ε α β : Type}

/-- Goes on after a success, with the events of both. -/
def andThen? (o : Outcome ε α) (next : Tree → α → Option (Outcome ε β)) : Option (Outcome ε β) :=
  match o.result with
  | .error e => some ⟨o.tree, .error e, o.events⟩
  | .ok a => do
    let o' ← next o.tree a
    return { o' with events := o.events ++ o'.events }

theorem andThen?_eq {o : Outcome ε α} {next? : Tree → α → Option (Outcome ε β)}
    {next : Tree → α → Outcome ε β}
    (h : ∀ a, o.result = .ok a → next? o.tree a = some (next o.tree a)) :
    o.andThen? next? = some (o.andThen next) := by
  unfold andThen? andThen
  cases hr : o.result with
  | error e => rfl
  | ok a =>
    dsimp only
    rw [h a hr]
    rfl

end Outcome

namespace Tree

open Cells Patch

variable {t t' : Tree} {p c x id : NodeId} {a b z cs : Cells} {F : Fold} {plan : Plan}
  {ids folds : List NodeId}

/-! ## Definitions -/

/-- Carries out a plan. -/
def applyPlan? (t : Tree) (plan : Plan) : Option Tree :=
  plan.foldlM (fun t x => if x.2.isEmpty then some t else t.splice? x.1 x.2) t

/-- Makes a node that is hollow now stand around a body, with the children `ks` moved into it. -/
def surround (t : Tree) (p id : NodeId) (f : Fold) (ks : List NodeId) (s : Span) : Tree :=
  let offset := s.start + f.opening.utf8Size
  let t := t.modify id fun n => { n with text := [], children := [] }
  let t := ks.foldl (fun t c => t.moveChild p 0 offset c) t
  let t := t.modify id fun n => moveGroups 0 offset { n with fold := some f }
  t.putChild p id s

/-- Makes a node that is hollow now stand around a body. -/
def surround? (t : Tree) (p id : NodeId) (f : Fold) (ks : List NodeId) (s : Span) :
    Option Tree := do
  let offset := s.start + f.opening.utf8Size
  let t ← t.modify? id fun n => some { n with text := [], children := [] }
  let t ← ks.foldlM (fun t c => t.moveChild? p 0 offset c) t
  let t ← t.modify? id fun n => some (moveGroups 0 offset { n with fold := some f })
  t.putChild? p id s

/-- Puts the body of a node into the text it stands in, between markers. -/
def unfoldAt? (t : Tree) (id : NodeId) (p : Place) (f : Fold) : Option Tree := do
  let n ← t.node? id
  let region : Text := f.opening :: n.text ++ [f.closing]
  let t ← t.setChildren? p.parent ((← t.children? p.parent).filter (· != id))
  let t ← t.rewrite? p.parent [⟨p.span, region⟩]
  let t ← t.surround? p.parent id f n.children ⟨p.span.start, p.span.start + region.byteSize⟩
  return { t with folds := id :: t.folds }

/-- Unfolds a node between the glyphs of two labels. -/
def unfolding? (t : Tree) (id : NodeId) (openLabel closeLabel : Text) :
    Option (Outcome HideError Bool) :=
  match t.node? id, t.labels.glyph openLabel, t.labels.glyph closeLabel with
  | none, _, _ => some (.failed t (.unknownNode id))
  | some _, .error e, _ => some (.failed t e)
  | some _, .ok _, .error e => some (.failed t e)
  | some n, .ok opening, .ok closing => do
    let live ← t.isLive? id
    if id = root ∨ !live ∨ n.isUnfolded then return .done t false
    else match n.place with
      | none => return .done t false
      | some p => do
        let shown ← (← t.node? p.parent).text.slice? p.span
        match shown.head? with
        | none => return .done t false
        | some glyph =>
          return .done (← t.unfoldAt? id p ⟨glyph, opening, closing⟩) true [.unfolded id p.parent]

/-- The cut that collapses the region of an unfolded node. -/
def foldCut? (id : NodeId) (p : Place) (f : Fold) : Option Cut := do
  let stop ← minus? p.span.stop f.closing.utf8Size
  return ⟨p.span, f.glyph, .back id ⟨p.span.start + f.opening.utf8Size, stop⟩⟩

/-- Folds a node back, if it is unfolded and listed at its parent. -/
def foldBack? (t : Tree) (id : NodeId) : Option (Option (Tree × List Event)) := do
  let n ← t.node? id
  match n.fold, n.place with
  | some f, some p => do
    let kids ← t.children? p.parent
    if kids.contains id then do
      let cut ← foldCut? id p f
      let t ← t.setChildren? p.parent (kids.filter (· != id))
      let t ← t.splice? p.parent [cut]
      return some (t, [.placed id (cut.landing [cut.edit]) p.parent, .foldedBack id p.parent])
    else return none
  | _, _ => return none

/-- Folds back nodes in the given order. -/
def foldEach? : List NodeId → Tree → Option (Outcome HideError Nat)
  | [], t => some (.done t 0)
  | id :: ids, t => do
    match ← t.foldBack? id with
    | none => foldEach? ids t
    | some (t, events) => do
      let o := (← foldEach? ids t).map (· + 1)
      return { o with events := events ++ o.events }

/-- Folds back every unfolded node, the latest first. -/
def foldAll? (t : Tree) : Option (Outcome HideError Nat) := foldEach? t.folds { t with folds := [] }

/-- Puts the texts of a node's children in place of their glyphs and counts the children among the
expanded ones. -/
def expandChildren? (t : Tree) (id : NodeId) : Option Tree := do
  let kids ← t.children? id
  let edits ← kids.mapM fun c => do
    let n ← t.node? c
    return n.span.map fun s => (⟨s, n.text⟩ : Edit)
  let t ← t.setChildren? id []
  let t ← t.rewrite? id edits.reduceOption
  t.modify? id fun n => some { n with expanded := n.expanded ++ kids }

/-- Folds everything back and expands all children into their parents, deepest first. -/
def unhideAll? (t : Tree) : Option (Outcome HideError Unit) := do
  let o ← t.foldAll?
  o.andThen? fun t _ => do
    let t ← (← t.liveOrder?).reverse.foldlM expandChildren? t
    return .done t () [.flattened]

/-! ## Plans -/

/-- Each cut of a plan finds its region as it was when the plan was made. -/
theorem WellFormed.applyPlan?_eq (hw : WellFormed t) (ht : t.Housed)
    (hnd : (plan.map Prod.fst).Nodup) (hf : ∀ x ∈ plan, Fitting t x.1 x.2) :
    t.applyPlan? plan = some (t.applyPlan plan) ∧ (t.applyPlan plan).Housed := by
  refine hw.applyPlan_induct (P := fun rest u => t.applyPlan? plan = u.applyPlan? rest ∧ u.Housed)
    hnd hf (fun h => h) (fun {u q l rest rs z} h hu hl hcuts hrs hpos hspliced hrest => ?_)
    ⟨rfl, ht⟩
  subst hcuts
  obtain ⟨hsplice, hhoused⟩ := hl.splice?_cuts h.2
  refine ⟨h.1.trans ?_, hhoused⟩
  cases rs with
  | nil => exact absurd rfl hrs
  | cons r rs =>
    rw [applyPlan?, List.foldlM_cons]
    change (u.splice? q (Region.cuts 0 (r :: rs))).bind _ = _
    rw [hsplice]
    rfl

/-! ## Unfolding -/

theorem Housed.surround?_eq (ht : t.Housed) (hp : p < t.size) (hid : id < t.size)
    {ks : List NodeId} (hnd : ks.Nodup) (hks : ∀ c ∈ ks, c < t.size) (F : Fold) (s : Span) :
    t.surround? p id F ks s = some (t.surround p id F ks s) ∧ (t.surround p id F ks s).Housed := by
  have hcleared : (t.modify id fun n => { n with text := [], children := [] }).Housed :=
    ht.modify fun hn => ⟨fun _ hc => absurd hc List.not_mem_nil, hn.2⟩
  have hfree : ∀ c ∈ ks,
      c < (t.modify id fun n => { n with text := [], children := [] }).size ∧
        (t.modify id fun n => { n with text := [], children := [] }).MovesBy 0
          (s.start + F.opening.utf8Size) c := fun c hc =>
    ⟨by simpa using hks c hc, movesBy_zero _ _ c⟩
  obtain ⟨hmove, hmoved, -⟩ := foldlM_moveChild? hcleared (by simpa using hp) hnd hfree
  have hsize := size_foldl_moveChild (t := t.modify id fun n => { n with text := [], children := [] })
    p 0 (s.start + F.opening.utf8Size) ks
  unfold surround? surround
  simp only [Option.bind_eq_bind, Option.bind_some, modify?_some hid, hmove]
  generalize ks.foldl (fun (t : Tree) c => t.moveChild p 0 (s.start + F.opening.utf8Size) c) _ = u
    at hmoved hsize
  rw [size_modify] at hsize
  have hfold : (u.modify id fun n =>
      moveGroups 0 (s.start + F.opening.utf8Size) { n with fold := some F }).Housed :=
    hmoved.modify fun hn => hn
  rw [modify?_some (hsize ▸ hid), Option.bind_some]
  exact ⟨putChild?_eq hfold (by simpa [hsize] using hp) (by simpa [hsize] using hid) s,
    hfold.putChild (by simpa [hsize] using hp) (by simpa [hsize] using hid) s⟩

theorem unfoldAt_eq_surround (t : Tree) (id : NodeId) (p : Place) (F : Fold) :
    t.unfoldAt id p F =
      let region : Text := F.opening :: (t.node id).text ++ [F.closing]
      let t' := ((t.setChildren p.parent ((t.children p.parent).filter (· != id))).rewrite p.parent
        [⟨p.span, region⟩]).surround p.parent id F (t.children id)
          ⟨p.span.start, p.span.start + region.byteSize⟩
      { t' with folds := id :: t'.folds } := rfl

theorem Housed.unfoldAt?_eq (ht : t.Housed) (hp : p < t.size) (hid : id < t.size)
    (hnd : (t.children id).Nodup) {s : Span} (hs : Pieces 0 (t.node p).text [s]) (F : Fold) :
    t.unfoldAt? id ⟨p, s⟩ F = some (t.unfoldAt id ⟨p, s⟩ F) ∧
      (t.unfoldAt id ⟨p, s⟩ F).Housed := by
  have hoff : (t.setChildren p ((t.children p).filter (· != id))).Housed :=
    ht.setChildren fun c hc => ht.lt_of_mem (List.mem_filter.1 hc).1
  have htext : ((t.setChildren p ((t.children p).filter (· != id))).node p).text =
      (t.node p).text := by
    rw [node_setChildren _ hp, if_pos rfl]
  have hedit : ∀ region, (t.setChildren p ((t.children p).filter (· != id))).rewrite? p
      [⟨s, region⟩] = some ((t.setChildren p ((t.children p).filter (· != id))).rewrite p
        [⟨s, region⟩]) := fun region => rewrite?_eq hoff (by simpa using hp) (htext ▸ hs)
  have hp' : p < ((t.setChildren p ((t.children p).filter (· != id))).rewrite p
      [⟨s, F.opening :: (t.node id).text ++ [F.closing]⟩]).size := by simpa using hp
  have hid' : id < ((t.setChildren p ((t.children p).filter (· != id))).rewrite p
      [⟨s, F.opening :: (t.node id).text ++ [F.closing]⟩]).size := by simpa using hid
  obtain ⟨hsome, hhoused⟩ := (hoff.rewrite p
    [⟨s, F.opening :: (t.node id).text ++ [F.closing]⟩]).surround?_eq hp' hid' hnd
      (fun c hc => by simpa using ht.lt_of_mem hc) F
      ⟨s.start, s.start + Text.byteSize (F.opening :: (t.node id).text ++ [F.closing])⟩
  rw [unfoldAt?, node?_eq hid, children?_eq hp, unfoldAt_eq_surround]
  simp only [Option.bind_eq_bind, Option.bind_some, setChildren?_eq hp, hedit]
  rw [← Tree.children, hsome]
  generalize Tree.surround _ p id F (t.children id) _ = u at hhoused
  exact ⟨rfl, housed_of_nodes hhoused rfl⟩

/-- A hidden node stands on a glyph, in place of which its body comes. -/
theorem Hidden.unfoldAt?_eq (hh : Hidden t p id a b z F) (ht : t.Housed) :
    t.unfoldAt? id ⟨p, ⟨a.size, a.size + F.glyph.utf8Size⟩⟩ F =
        some (t.unfoldAt id ⟨p, ⟨a.size, a.size + F.glyph.utf8Size⟩⟩ F) ∧
      (t.unfoldAt id ⟨p, ⟨a.size, a.size + F.glyph.utf8Size⟩⟩ F).Housed := by
  refine ht.unfoldAt?_eq hh.place.lt hh.body.lt (hh.body.children ▸ hh.body.nested.nodup) ?_ F
  have := pieces_edits 0 [unfoldPatch id F a b] z
  rw [hh.place.text]
  simpa [edits, before, unfoldPatch, foldedCells] using this

theorem Shaped.unfolding?_eq (hs : Shaped t) (ht : t.Housed) (id : NodeId)
    (openLabel closeLabel : Text) :
    t.unfolding? id openLabel closeLabel = some (t.unfold id openLabel closeLabel) := by
  rw [unfolding?, unfold]
  cases hn : t.node? id with
  | none => rfl
  | some n =>
    cases t.labels.glyph openLabel with
    | error e => rfl
    | ok opening =>
      cases t.labels.glyph closeLabel with
      | error e => rfl
      | ok closing =>
        have hn : t.node id = n := by rw [node, ← node?, hn]; rfl
        subst hn
        simp only [hs.isLive?_eq ht, Option.bind_eq_bind, Option.bind_some]
        split
        · cases (t.node id).place with
          | none => rfl
          | some pl =>
            dsimp only
            split <;> rfl
        · next hok =>
          simp only [not_or, Bool.not_eq_true', Bool.not_eq_false, Bool.not_eq_true] at hok
          obtain ⟨hroot, hlive, hun⟩ := hok
          have hfold : (t.node id).fold = none := by simpa [Node.isUnfolded] using hun
          obtain ⟨q, -, hid⟩ := mem_children_of_isLive hlive hroot
          obtain ⟨cs, hl⟩ := hs.exists_layout hid
          obtain ⟨s, hpl, -⟩ := hl.placed hid
          obtain ⟨g, hg⟩ := hl.slice?_hidden hid hfold (by rw [Node.span, hpl]; rfl)
          have hslice : (t.node q).text.slice s = [g] :=
            Option.some.inj ((Text.isSome_slice?_iff.1 (by rw [hg]; rfl)).slice?_eq.symm.trans hg)
          obtain ⟨a, b, z, hh, he⟩ := hs.exists_hidden hid hfold hpl (by rw [hslice]; rfl)
            opening closing
          rw [hpl]
          simp only [node?_eq hh.place.lt, hg, hslice, Option.bind_some, List.head?_cons]
          rw [he, (hh.unfoldAt?_eq ht).1]
          rfl

theorem Shaped.housed_unfold (hs : Shaped t) (ht : t.Housed) (id : NodeId)
    (openLabel closeLabel : Text) : (t.unfold id openLabel closeLabel).tree.Housed := by
  rcases hs.unfold_cases id openLabel closeLabel with
    ⟨he, -⟩ | ⟨-, -, p, a, b, z, F, hh, he⟩
  · rwa [he]
  · rw [he]
    exact (hh.unfoldAt?_eq ht).2

/-! ## Folding back -/

theorem foldCut?_eq {pl : Place} (h : F.closing.utf8Size ≤ pl.span.stop) :
    foldCut? id pl F = some (foldCut id pl F) := by
  rw [foldCut?, minus?_eq h]
  rfl

/-- A node that is folded back has its markers where it stands. -/
theorem Shaped.foldBack?_eq (hs : Shaped t) (ht : t.Housed)
    (hun : (t.node id).isUnfolded = true) : t.foldBack? id = some (t.foldBack id) ∧
      ∀ u events, t.foldBack id = some (u, events) → u.Housed := by
  obtain ⟨F, hf⟩ := Option.isSome_iff_exists.1 hun
  rw [foldBack?, foldBack, bind_eq_of_some (node?_eq (hs.hollow id hun).lt), hf]
  cases hpl : (t.node id).place with
  | none => exact ⟨rfl, fun _ _ h => by cases h⟩
  | some pl =>
    obtain ⟨p, s⟩ := pl
    have hp : p < t.size := (ht id).2 p (by rw [Node.parent, hpl]; rfl)
    dsimp only
    rw [bind_eq_of_some (children?_eq hp)]
    cases hmem : (t.children p).contains id with
    | false => exact ⟨rfl, fun _ _ h => by cases h⟩
    | true =>
      rw [List.contains_iff_mem] at hmem
      obtain ⟨cs, hl⟩ := hs.exists_layout hmem
      obtain ⟨a, b, z, rfl⟩ := hl.exists_unfolded hmem hf
      obtain ⟨-, rfl⟩ := Place.mk.inj (Option.some.inj (hpl.symm.trans hl.place_of_unfolded))
      obtain ⟨hsplice, hhoused⟩ := hl.splice?_foldCut ht
      rw [if_pos rfl, if_pos rfl, bind_eq_of_some (foldCut?_eq (Nat.le_add_left ..)),
        bind_eq_of_some (setChildren?_eq hp _), bind_eq_of_some hsplice]
      refine ⟨rfl, fun u events h => ?_⟩
      obtain ⟨rfl, -⟩ := Prod.mk.inj (Option.some.inj h)
      exact hhoused

theorem Shaped.foldEach?_eq (hs : Shaped t) (ht : t.Housed) (hst : Stacked t folds) :
    foldEach? folds t = some (foldEach folds t) ∧ (foldEach folds t).tree.Housed := by
  induction folds generalizing t with
  | nil => exact ⟨rfl, ht⟩
  | cons id ids ih =>
    have hun := hst.unfolded id List.mem_cons_self
    obtain ⟨hback, hhoused⟩ := hs.foldBack?_eq ht hun
    rw [foldEach?, hback, foldEach]
    rcases hs.foldBack_cases hun with ⟨he, hid⟩ | ⟨events, p, a, b, z, F, hl, hf, he⟩
    · rw [he]
      exact ih hs ht (hst.skip hid)
    · have hF := hl.folding_foldBack (hs.hollow id hun) hf
      obtain ⟨hrest, hhoused⟩ := ih (hF.shaped_fold hs) (hhoused _ _ he) (hF.stacked_fold hst)
      rw [he]
      simp only [Option.bind_eq_bind, Option.bind_some]
      rw [hrest]
      exact ⟨rfl, hhoused⟩

theorem WellFormed.foldAll?_eq (hw : WellFormed t) (ht : t.Housed) :
    t.foldAll? = some t.foldAll ∧ t.foldAll.tree.Housed :=
  (hw.shaped.alike (alike_folds t [])).foldEach?_eq (housed_of_nodes ht rfl)
    (hw.stacked.alike (alike_folds t []))

/-! ## Expanding for good -/

/-- The glyphs of children that are all hidden are pieces of the text. -/
theorem Layout.expandChildren?_eq (h : Layout t x cs) (ht : t.Housed)
    (hf : ∀ c ∈ t.children x, (t.node c).fold = none) :
    t.expandChildren? x = some (t.expandChildren x) ∧ (t.expandChildren x).Housed := by
  have hx := h.lt
  have hids : ∀ i ∈ Cells.ids cs, (t.node i).fold = none := fun i hi =>
    hf i (h.children ▸ h.nested.mem_ids.1 hi)
  have hedits := h.fits.filterMap_span hids
  rw [← h.children] at hedits
  have hgiven : (t.children x).mapM (fun c => do
      let n ← t.node? c
      return n.span.map fun s => (⟨s, n.text⟩ : Edit)) = some ((t.children x).map fun c =>
        (t.node c).span.map fun s => ⟨s, (t.node c).text⟩) :=
    mapM_eq_some fun c hc => by rw [node?_eq (ht.lt_of_mem hc)]; rfl
  have hoff : (t.setChildren x []).Housed := ht.setChildren (by simp)
  have hpieces : Pieces 0 ((t.setChildren x []).node x).text
      (((t.children x).filterMap fun c =>
        (t.node c).span.map (Edit.mk · (t.node c).text)).map Edit.range) := by
    rw [hedits, List.map_map, node_setChildren _ hx, if_pos rfl]
    exact h.text ▸ pieces_marks 0 cs
  unfold expandChildren? expandChildren
  rw [children?_eq hx]
  simp only [Option.bind_eq_bind, Option.bind_some] at hgiven ⊢
  rw [hgiven]
  simp only [Option.bind_some, setChildren?_eq hx, List.reduceOption, List.filterMap_map]
  change ((t.setChildren x []).rewrite? x ((t.children x).filterMap fun c =>
    (t.node c).span.map (Edit.mk · (t.node c).text))).bind _ = _ ∧ _
  rw [rewrite?_eq hoff (by simpa using hx) hpieces, Option.bind_some,
    modify?_some (by simpa using hx)]
  exact ⟨rfl, (hoff.rewrite x _).modify fun hn => hn⟩

theorem Shaped.foldlM_expandChildren? (hs : Shaped t) (ht : t.Housed) (hst : Stacked t []) :
    t.liveOrder.reverse.foldlM expandChildren? t =
        some (t.liveOrder.reverse.foldl expandChildren t) ∧
      (t.liveOrder.reverse.foldl expandChildren t).Housed := by
  refine hs.expandLive_induct (P := fun l u => l.reverse.foldlM expandChildren? t = some u ∧
    u.Housed) hst (fun {l u x cs} h _ _ hlay hkids => ?_) ⟨rfl, ht⟩
  obtain ⟨hx, hhoused⟩ := hlay.expandChildren?_eq h.2 fun c hc => (hkids c hc).1
  refine ⟨?_, hhoused⟩
  rw [List.reverse_cons, List.foldlM_append, h.1]
  change [x].foldlM expandChildren? u = _
  rw [List.foldlM_cons, hx]
  rfl

theorem WellFormed.unhideAll?_eq (hw : WellFormed t) (ht : t.Housed) :
    t.unhideAll? = some t.unhideAll ∧ t.unhideAll.tree.Housed := by
  obtain ⟨hfold, hhoused⟩ := hw.foldAll?_eq ht
  obtain ⟨hrun, -⟩ := hw.folds_foldAll
  have hs := hrun.shaped (hw.shaped.alike (alike_folds t []))
  have hst := hrun.stacked (hw.stacked.alike (alike_folds t []))
  obtain ⟨hall, hexpanded⟩ := hs.foldlM_expandChildren? hhoused hst
  refine ⟨?_, unhideAll_tree t ▸ hexpanded⟩
  rw [unhideAll?, bind_eq_of_some hfold]
  refine Outcome.andThen?_eq fun n _ => ?_
  rw [bind_eq_of_some hs.liveOrder?_eq]
  exact bind_eq_of_some hall _

end Tree

end GlyphTree
