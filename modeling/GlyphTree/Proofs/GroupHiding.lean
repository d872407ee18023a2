import GlyphTree.Proofs.Captures
import GlyphTree.Proofs.Naming
import GlyphTree.Proofs.Relaid

/-!
# Hiding a capture group

What hiding a capture group makes of a tree. It fails as soon as one source has no such group, and
then nothing is changed. Otherwise each source whose group can be hidden has it hidden as it was
before the first of them was cut, although one source may stand in the group of another
(`Reachable.hideGroup_promotes`).
-/

namespace GlyphTree.Tree

open Cells Region

variable {t t' : Tree} {x n : NodeId} {cs : Cells} {s : Span} {name label scope source : Text}
  {glyph : Char} {group : Nat} {ids before after : List NodeId} {circles : Prop}

/-! ## Sources -/

/-- The live nodes in scope that carry a name, in document order. -/
def sourcesOf (t : Tree) (scope source : Text) : List NodeId :=
  t.documentOrder.filter fun x => (t.node x).name = source && (t.isLive x && t.inScope scope x)

/-- The number of capture groups in the table of a node, 0 without a table. -/
def groupCount (t : Tree) (x : NodeId) : Nat := ((t.node x).groups.getD []).length

/-- The table of a node has no group of a number. -/
def Lacks (t : Tree) (group : Nat) (x : NodeId) : Prop := group = 0 ∨ t.groupCount x < group

instance (t : Tree) (group : Nat) (x : NodeId) : Decidable (t.Lacks group x) :=
  inferInstanceAs (Decidable (_ ∨ _))

/-- The node is not unfolded, and its group took part and does not part an unfolded child. -/
def promotable (t : Tree) (group : Nat) (x : NodeId) : Bool :=
  !(t.node x).isUnfolded && ((t.node x).groupSpan? group).any fun s => !t.parts x s

theorem Reached.groupSources_eq (h : Reached t) (scope source : Text) :
    t.groupSources scope source = t.sourcesOf scope source := by
  rw [groupSources, h.named_eq, List.filter_filter, sourcesOf]
  exact List.filter_congr fun x _ => by rw [Bool.and_comm]

theorem exists_span_of_promotable (h : t.promotable group x = true) :
    ∃ s, (t.node x).groupSpan? group = some s ∧ (t.node x).isUnfolded = false ∧
      t.parts x s = false := by
  obtain ⟨hun, hany⟩ := Bool.and_eq_true_iff.1 h
  obtain ⟨s, hs, hparts⟩ := (Option.any_eq_true _ _).1 hany
  exact ⟨s, hs, by simpa using hun, by simpa using hparts⟩

/-! ## Plans -/

/-- The cut that hides a group of a node. -/
def groupCut (t : Tree) (name : Text) (glyph : Char) (group : Nat) (x : NodeId) : Cut :=
  ⟨((t.node x).groupSpan? group).getD ⟨0, 0⟩, glyph, .fresh name none⟩

/-- The plan that hides a group of each node. -/
def promotionPlan (t : Tree) (name : Text) (glyph : Char) (group : Nat) (ids : List NodeId) : Plan :=
  ids.map fun x => (x, [t.groupCut name glyph group x])

theorem groupCut_eq (h : (t.node x).groupSpan? group = some s) :
    t.groupCut name glyph group x = ⟨s, glyph, .fresh name none⟩ := by
  rw [groupCut, h]
  rfl

/-- A cut is kept if it parts no unfolded child. -/
theorem Layout.wholeCuts_singleton (glyph : Char) (o : Origin) (h : Layout t x cs)
    (hs : (t.node x).text.Holds s) :
    t.wholeCuts x [⟨s, glyph, o⟩] = if t.parts x s then [] else [⟨s, glyph, o⟩] := by
  obtain ⟨held, hheld⟩ := Option.isSome_iff_exists.1 (Text.isSome_slice?_iff.2 hs)
  obtain ⟨a, c, ht, rfl⟩ := Text.slice?_eq_some_iff.1 hheld
  obtain ⟨ab, c, rfl, hab, rfl⟩ := exists_of_text_eq_append (h.text.symm.trans ht)
  obtain ⟨a, b, rfl, rfl, rfl⟩ := exists_of_text_eq_append hab
  have hwhole : t.isWhole x ⟨⟨a.text.byteSize, a.text.byteSize + b.text.byteSize⟩, glyph, o⟩ = _ :=
    h.isWhole_eq rfl
  rw [wholeCuts, List.filter_singleton, hwhole]
  dsimp only
  cases t.parts x ⟨a.text.byteSize, a.text.byteSize + b.text.byteSize⟩ <;> rfl

theorem Layout.fitting_group (h : Layout t x cs) (hs : (t.node x).text.Holds s)
    (hparts : t.parts x s = false) (hsolid : s.isEmpty = false) :
    Fitting t x [⟨s, glyph, .fresh name none⟩] := by
  obtain ⟨held, hheld⟩ := Option.isSome_iff_exists.1 (Text.isSome_slice?_iff.2 hs)
  have hwhole := h.wholeCuts_singleton glyph (.fresh name none) hs
  rw [hparts, if_neg Bool.false_ne_true] at hwhole
  rw [← hwhole]
  refine (h.cutting_wholeCuts ?_ fun c hc => ⟨name, none, by rw [List.mem_singleton.1 hc]⟩).fitting
    fun c hc => ?_
  · rw [← h.text, List.map_singleton]
    exact .of_slice? hheld
  · rw [hwhole] at hc
    rw [List.mem_singleton.1 hc]
    exact lt_of_isEmpty_eq_false hsolid

/-- One source of the plan. -/
theorem planGroup_fst (x : NodeId) (ids : List NodeId) :
    (t.planGroup name glyph group (x :: ids)).1 =
      if t.Lacks group x then .error (.groupOutOfRange x group (t.groupCount x))
      else if (t.node x).isUnfolded then (t.planGroup name glyph group ids).1
      else match (t.node x).groupSpan? group with
        | none => (t.planGroup name glyph group ids).1
        | some s =>
          if ((t.node x).text.slice? s).isNone then (t.planGroup name glyph group ids).1
          else (t.planGroup name glyph group ids).1.map
            ((x, t.wholeCuts x [⟨s, glyph, .fresh name none⟩]) :: ·) := by
  rw [planGroup]
  refine (apply_ite Prod.fst _ _ _).trans (ite_congr rfl (fun _ => rfl) fun _ => ?_)
  refine (apply_ite Prod.fst _ _ _).trans (ite_congr rfl (fun _ => rfl) fun _ => ?_)
  cases (t.node x).groupSpan? group with
  | none => rfl
  | some s => exact apply_ite Prod.fst _ _ _

/-- The first source without such a group is reported, whatever there is to hide in those before. -/
theorem planGroup_eq_error (name : Text) (glyph : Char) (after : List NodeId)
    (hlacks : t.Lacks group x) (hbefore : ∀ y ∈ before, ¬ t.Lacks group y) :
    (t.planGroup name glyph group (before ++ x :: after)).1 =
      .error (.groupOutOfRange x group (t.groupCount x)) := by
  induction before with
  | nil => rw [List.nil_append, planGroup_fst, if_pos hlacks]
  | cons y before ih =>
    obtain ⟨hy, hbefore⟩ := List.forall_mem_cons.1 hbefore
    rw [List.cons_append, planGroup_fst, if_neg hy, ih hbefore]
    split
    · rfl
    · split
      · rfl
      · split <;> rfl

section
variable (hs : Shaped t) (hg : t.Grounded)
include hs hg

/-- If every source has the group, what is to be cut is the group of each that can be hidden. -/
theorem Shaped.exists_planGroup (name : Text) (glyph : Char) (hids : ∀ x ∈ ids, x < t.size)
    (hall : ∀ x ∈ ids, ¬ t.Lacks group x) :
    ∃ plan, (t.planGroup name glyph group ids).1 = .ok plan ∧
      plan.filter (fun e => !e.2.isEmpty) =
        t.promotionPlan name glyph group (ids.filter (t.promotable group)) := by
  induction ids with
  | nil => exact ⟨[], rfl, rfl⟩
  | cons x ids ih =>
    obtain ⟨hx, hids⟩ := List.forall_mem_cons.1 hids
    obtain ⟨hhas, hall⟩ := List.forall_mem_cons.1 hall
    obtain ⟨rest, hrest, hfilter⟩ := ih hids hall
    rw [planGroup_fst, if_neg hhas, hrest]
    have hdrop : t.promotable group x = false →
        (x :: ids).filter (t.promotable group) = ids.filter (t.promotable group) :=
      fun hnot => List.filter_cons_of_neg (by simp [hnot])
    cases hun : (t.node x).isUnfolded with
    | true =>
      rw [hdrop (by rw [promotable, hun]; rfl)]
      exact ⟨rest, rfl, hfilter⟩
    | false =>
      rw [if_neg Bool.false_ne_true]
      cases hspan : (t.node x).groupSpan? group with
      | none =>
        rw [hdrop (by rw [promotable, hspan, Option.any_none, Bool.and_false])]
        exact ⟨rest, rfl, hfilter⟩
      | some s =>
        have hholds := hg x hun s (Node.records_of_groupSpan? hspan)
        have hsome : ((t.node x).text.slice? s).isNone = false := by
          rw [Option.isNone_eq_false_iff]
          exact Text.isSome_slice?_iff.2 hholds
        obtain ⟨cs, hl⟩ := hs.layout x hx
        have hcan : t.promotable group x = !t.parts x s := by
          rw [promotable, hun, hspan]
          rfl
        dsimp only
        rw [hsome, if_neg Bool.false_ne_true, hl.wholeCuts_singleton glyph _ hholds]
        refine ⟨_, rfl, ?_⟩
        cases hparts : t.parts x s with
        | true =>
          rw [hdrop (by rw [hcan, hparts]; rfl)]
          exact hfilter
        | false =>
          have hkeep : (x :: ids).filter (t.promotable group) =
              x :: ids.filter (t.promotable group) :=
            List.filter_cons_of_pos (by rw [hcan, hparts]; rfl)
          rw [hkeep, promotionPlan, List.map_cons, groupCut_eq hspan]
          exact congrArg _ hfilter

end

/-! ## Promoted groups -/

/-- What has become of a source `x` whose group is hidden: the group gives way to the glyph of the
fresh node `n`, which holds its text and the children that stood in it. -/
structure PromotedAt (t t' : Tree) (name : Text) (glyph : Char) (group : Nat) (n x : NodeId) :
    Prop where
  text : ∃ l held r, (t.node x).groupSpan? group = some ⟨l.byteSize, l.byteSize + held.byteSize⟩ ∧
    (t.node x).groupText? group = some held ∧ (t.node x).text = l ++ held ++ r ∧
    (t'.node x).text = l ++ glyph :: r ∧ (t'.node n).text = held ∧
    (t'.node n).place = some ⟨x, ⟨l.byteSize, l.byteSize + glyph.utf8Size⟩⟩
  children : ∃ l r, t.children x = l ++ t'.children n ++ r ∧ t'.children x = l ++ n :: r
  adopted : ∀ s, (t.node x).groupSpan? group = some s → t'.children n = t.childrenWithin x s
  name : (t'.node n).name = name
  groups : (t'.node n).groups = none
  fold : (t'.node n).fold = none

theorem Relaid.promotedAt (h : Relaid t t' n x [⟨s, glyph, .fresh name none⟩])
    (hparted : Parted t t' n x [⟨s, glyph, .fresh name none⟩])
    (hfit : Fitting t x [⟨s, glyph, .fresh name none⟩])
    (hspan : (t.node x).groupSpan? group = some s) : PromotedAt t t' name glyph group n x := by
  obtain ⟨rs, z, hl, hcuts, hr⟩ := hfit
  obtain ⟨hl', hfresh⟩ := h rs z hl hcuts hr
  have hmade := hparted.made 0 _ rfl
  rw [Nat.add_zero] at hmade
  -- one cut is that of one region
  rcases rs with _ | ⟨⟨kept, gone, glyph', name', groups'⟩, _ | ⟨r, rs⟩⟩
  · cases hcuts
  · simp only [Region.cuts, Nat.zero_add, List.cons.injEq, Cut.mk.injEq, Origin.fresh.injEq,
      and_true] at hcuts
    obtain ⟨rfl, rfl, rfl, rfl⟩ := hcuts
    have hgone : Layout t' n gone := hfresh 0 _ rfl
    rw [cells_cons] at hl
    change Layout t x (kept ++ gone ++ z) at hl
    change Layout t' x (kept ++ ⟨glyph', some (.glyph n)⟩ :: z) at hl'
    have htext : (t.node x).text = kept.text ++ gone.text ++ z.text := by simpa using hl.text
    obtain ⟨hname, hgroups⟩ := Origin.fresh.inj hmade.origin
    refine ⟨⟨kept.text, gone.text, z.text, hspan, ?_, htext, ?_, hgone.text, ?_⟩,
      ⟨starts kept, starts z, ?_, ?_⟩, fun s hs => ?_, hname.symm, hgroups.symm, hmade.fold⟩
    · rw [Node.groupText?, hspan, htext]
      exact Text.slice?_append ..
    · simpa using hl'.text
    · exact Layout.place_of_folded (F := ⟨glyph', glyph', glyph'⟩) hl'
    · rw [hl.children, hgone.children]
      simp
    · rw [hl'.children]
      simp
    · obtain rfl := Option.some.inj (hspan.symm.trans hs)
      rw [hgone.children, hl.childrenWithin_eq (hr _ List.mem_cons_self).1]
  · cases hcuts

/-- What hiding the groups of `sources`, in this order, makes of a tree. -/
structure GroupHidden (t t' : Tree) (name : Text) (glyph : Char) (group : Nat)
    (sources : List NodeId) : Prop where
  size : t'.size = t.size + sources.length
  promoted : ∀ i x, sources[i]? = some x → PromotedAt t t' name glyph group (t.size + i) x
  spared : ∀ x < t.size, x ∉ sources →
    (t'.node x).text = (t.node x).text ∧ t'.children x = t.children x
  expandedText : ∀ x < t.size, t'.expandedText x = t.expandedText x

theorem regions_promotionPlan (ids : List NodeId) :
    (t.promotionPlan name glyph group ids).regions = ids.length := by
  rw [promotionPlan, regions_map]
  simp

/-- The `i`-th entry of the plan, with those before and after it. -/
theorem promotionPlan_split (t : Tree) (name : Text) (glyph : Char) (group : Nat) {i : Nat}
    (hi : ids[i]? = some x) :
    ∃ before after, t.promotionPlan name glyph group ids =
        before ++ (x, [t.groupCut name glyph group x]) :: after ∧ before.regions = i := by
  obtain ⟨hlt, rfl⟩ := List.getElem?_eq_some_iff.1 hi
  refine ⟨t.promotionPlan name glyph group (ids.take i),
    t.promotionPlan name glyph group (ids.drop (i + 1)), ?_, ?_⟩
  · have hsplit : ids = ids.take i ++ ids[i] :: ids.drop (i + 1) := by
      rw [List.getElem_cons_drop, List.take_append_drop]
    conv_lhs => rw [promotionPlan, hsplit, List.map_append, List.map_cons]
    rfl
  · rw [regions_promotionPlan, List.length_take, Nat.min_eq_left hlt.le]

theorem WellFormed.groupHidden (hw : WellFormed t) (ht : Tied circles t) (hg : t.Grounded)
    (hnd : ids.Nodup) (hids : ∀ x ∈ ids, x < t.size)
    (hcan : ∀ x ∈ ids, t.promotable group x = true)
    (hsolid : ∀ x ∈ ids, ∀ s, (t.node x).groupSpan? group = some s → s.isEmpty = false) :
    GroupHidden t (t.applyPlan (t.promotionPlan name glyph group ids)) name glyph group ids := by
  have hfst : (t.promotionPlan name glyph group ids).map Prod.fst = ids := by
    simp [promotionPlan, Function.comp_def]
  have hfit : ∀ x ∈ ids, Fitting t x [t.groupCut name glyph group x] := fun x hx => by
    obtain ⟨s, hspan, hun, hparts⟩ := exists_span_of_promotable (hcan x hx)
    obtain ⟨cs, hl⟩ := hw.shaped.layout x (hids x hx)
    rw [groupCut_eq hspan]
    exact hl.fitting_group (hg x hun s (Node.records_of_groupSpan? hspan)) hparts
      (hsolid x hx s hspan)
  have hfits : ∀ e ∈ t.promotionPlan name glyph group ids, Fitting t e.1 e.2 := fun e he => by
    obtain ⟨x, hx, rfl⟩ := List.mem_map.1 he
    exact hfit x hx
  have hseparate : Separate t (t.promotionPlan name glyph group ids) := by
    refine ⟨hfst.symm ▸ hnd, fun e he => ?_, fun e he c hc => ?_, fun e _ c => ht.isParent_child⟩
    · obtain ⟨x, hx, rfl⟩ := List.mem_map.1 he
      exact hids x hx
    · obtain ⟨x, hx, rfl⟩ := List.mem_map.1 he
      exact List.mem_singleton.1 hc ▸ rfl
  have hdone := hseparate.carriedOut
  have hrelaid := hseparate.relaid hw hfits
  have hsize := hdone.size
  rw [regions_promotionPlan] at hsize
  refine ⟨hsize, fun i x hi => ?_, fun x hx hnot => ?_, fun x hx => ?_⟩
  · have hx := List.mem_of_getElem? hi
    obtain ⟨s, hspan, -, -⟩ := exists_span_of_promotable (hcan x hx)
    obtain ⟨before, after, hsplit, rfl⟩ := promotionPlan_split t name glyph group hi
    have hparted := hdone.parted
    rw [hsplit] at hparted hrelaid
    have hparted := hparted.middle
    have hrelaid := hrelaid.middle
    have hfit := hfit x hx
    rw [groupCut_eq hspan] at hparted hrelaid hfit
    rw [hsplit, groupCut_eq hspan]
    exact hrelaid.promotedAt hparted hfit hspan
  · have hkept := hdone.preserved x hx
    rw [hfst] at hkept
    exact ⟨hkept.text hnot, hkept.children hnot⟩
  · rw [expandedText_eq (hx.trans_le (hsize ▸ Nat.le_add_right _ _)), expandedText_eq hx,
      hw.reading_applyPlan (hfst.symm ▸ hnd) hfits hx]

/-! ## The whole hide -/

/-- The first of some nodes whose tables have no such group. -/
theorem exists_first_lacking (h : ∃ x ∈ ids, t.Lacks group x) :
    ∃ before x after, ids = before ++ x :: after ∧ (∀ y ∈ before, ¬ t.Lacks group y) ∧
      t.Lacks group x := by
  obtain ⟨x, hx, hlacks⟩ := h
  cases hfind : ids.find? fun x => decide (t.Lacks group x) with
  | none =>
    have := List.find?_eq_none.1 hfind x hx
    simp [hlacks] at this
  | some y =>
    obtain ⟨hy, before, after, hsplit, hbefore⟩ := List.find?_eq_some_iff_append.1 hfind
    exact ⟨before, y, after, hsplit, fun z hz => by simpa using hbefore z hz, of_decide_eq_true hy⟩

section
variable (hglyph : t.labels.glyph label = .ok glyph)
include hglyph

/-- The hide answers as its plan does. -/
theorem Reached.hideGroup_result (h : Reached t) (name scope source : Text) (group : Nat) :
    (t.hideGroup name label group scope source).result =
      (t.planGroup name glyph group (t.sourcesOf scope source)).1.map fun _ => () := by
  rw [Tree.hideGroup, hglyph, h.groupSources_eq]
  dsimp only
  cases hplan : t.planGroup name glyph group (t.sourcesOf scope source) with
  | mk planned events => cases planned <;> rfl

theorem Reached.hideGroup_of_lacking (h : Reached t) (name : Text)
    (hsplit : t.sourcesOf scope source = before ++ x :: after)
    (hbefore : ∀ y ∈ before, ¬ t.Lacks group y) (hlacks : t.Lacks group x) :
    (t.hideGroup name label group scope source).result =
        .error (.groupOutOfRange x group (t.groupCount x)) ∧
      (t.hideGroup name label group scope source).tree = t := by
  have hresult : (t.hideGroup name label group scope source).result =
      .error (.groupOutOfRange x group (t.groupCount x)) := by
    rw [h.hideGroup_result hglyph, hsplit, planGroup_eq_error name glyph after hlacks hbefore]
    rfl
  exact ⟨hresult, hideGroup_error hresult⟩

theorem Reachable.hideGroup_of_all (h : Reachable t) (name : Text)
    (hsolid : ∀ x ∈ t.sourcesOf scope source, t.promotable group x = true →
      ∀ s, (t.node x).groupSpan? group = some s → s.isEmpty = false)
    (hall : ∀ x ∈ t.sourcesOf scope source, ¬ t.Lacks group x) :
    (t.hideGroup name label group scope source).result = .ok () ∧
      GroupHidden t (t.hideGroup name label group scope source).tree name glyph group
        ((t.sourcesOf scope source).filter (t.promotable group)) := by
  have hw := h.wellFormed
  have ht := h.reached.tied
  have hlt : ∀ x ∈ t.sourcesOf scope source, x < t.size := fun x hx =>
    ht.lt_of_mem_documentOrder (List.mem_filter.1 hx).1
  obtain ⟨plan, hplan, hfilter⟩ := hw.shaped.exists_planGroup h.grounded name glyph hlt hall
  have htree : (t.hideGroup name label group scope source).tree = t.applyPlan
      (t.promotionPlan name glyph group
        ((t.sourcesOf scope source).filter (t.promotable group))) := by
    rw [hideGroup_tree, groupToHide, hglyph, h.reached.groupSources_eq]
    dsimp only
    rw [hplan, ← hfilter, applyPlan_filter]
  refine ⟨by rw [h.reached.hideGroup_result hglyph, hplan]; rfl, htree ▸ hw.groupHidden ht h.grounded
    ((ht.nodup_documentOrder.filter _).filter _) (fun x hx => hlt x (List.mem_filter.1 hx).1)
    (fun x hx => (List.mem_filter.1 hx).2) fun x hx => ?_⟩
  obtain ⟨hx, hcan⟩ := List.mem_filter.1 hx
  exact hsolid x hx hcan

end

/-- To hide a capture group fails at the first source in document order that has no such group, and
then changes nothing. If all have it, each source whose group can be hidden gets a child that holds
the group. -/
theorem Reachable.hideGroup_promotes (h : Reachable t) (hglyph : t.labels.glyph label = .ok glyph)
    (hsolid : ∀ x ∈ t.sourcesOf scope source, t.promotable group x = true →
      ∀ s, (t.node x).groupSpan? group = some s → s.isEmpty = false) (name : Text) :
    let o := t.hideGroup name label group scope source
    ((∃ e, o.result = .error e) ↔ ∃ x ∈ t.sourcesOf scope source, t.Lacks group x) ∧
      (∀ before x after, t.sourcesOf scope source = before ++ x :: after →
        (∀ y ∈ before, ¬ t.Lacks group y) → t.Lacks group x →
          o.result = .error (.groupOutOfRange x group (t.groupCount x)) ∧ o.tree = t) ∧
      ((∀ x ∈ t.sourcesOf scope source, ¬ t.Lacks group x) → o.result = .ok () ∧
        GroupHidden t o.tree name glyph group
          ((t.sourcesOf scope source).filter (t.promotable group))) := by
  intro o
  have hsucceed := h.hideGroup_of_all hglyph name hsolid
  refine ⟨⟨?_, fun hsome => ?_⟩,
    fun _ _ _ => h.reached.hideGroup_of_lacking hglyph name, hsucceed⟩
  · rintro ⟨e, he⟩
    by_contra hnone
    have hall : ∀ x ∈ t.sourcesOf scope source, ¬ t.Lacks group x := fun x hx hl => hnone ⟨x, hx, hl⟩
    cases he.symm.trans (hsucceed hall).1
  · obtain ⟨before, x, after, hsplit, hbefore, hlacks⟩ := exists_first_lacking hsome
    exact ⟨_, (h.reached.hideGroup_of_lacking hglyph name hsplit hbefore hlacks).1⟩

/-- Hides two regions with a capture group each, then the first together with what is around it, and
unfolds the second. -/
def hideGroups : List Command :=
  [.hideAll ['k'] ['x', '(', 'b', ')', 'y'] ['#'] ['*'],
    .hideAll ['k'] ['a', '(', '#', ')', 'c'] ['%'] ['*'], .unfold 2 ['<'] ['>']]

/-- The tree with a source in the group of another one, and a source that is unfolded. -/
def groupsWithin : Tree := (ofText ['a', 'x', 'b', 'y', 'c', 'x', 'b', 'y']).after hideGroups

set_option maxRecDepth 20000 in
theorem reachable_groupsWithin : Reachable groupsWithin := by
  refine (Reachable.initial (.ofText _ _)).after ⟨?_, ?_, trivial, trivial⟩
  · exact admits_hideAll (by cbv)
  · exact admits_hideAll (by cbv)

set_option maxRecDepth 20000 in
/-- The group of node 3 is the glyph of node 1, whose group is hidden as well. -/
theorem hideGroup_promotes_groupsWithin :
    let first := groupsWithin.hideGroup ['g'] ['!'] 1 ['*'] ['k']
    let second := groupsWithin.hideGroup ['g'] ['!'] 2 ['*'] ['k']
    Reachable groupsWithin ∧ groupsWithin.sourcesOf ['*'] ['k'] = [3, 1, 2] ∧
      first.result = .ok () ∧ GroupHidden groupsWithin first.tree ['g'] '!' 1 [3, 1] ∧
      first.tree.children 4 = [1] ∧ (first.tree.node 1).text = ['x', '!', 'y'] ∧
      second.result = .error (.groupOutOfRange 3 2 1) ∧ second.tree = groupsWithin := by
  -- all that is to be computed, at once, since each run of `cbv` makes the tree anew
  obtain ⟨hglyph, hsources, hsolids, hlacks₁, hlacks₂, hcount, hcan, hadopted, htext⟩ :
      groupsWithin.labels.glyph ['!'] = .ok '!' ∧
      groupsWithin.sourcesOf ['*'] ['k'] = [3, 1, 2] ∧
      ([3, 1, 2].all fun x => ((groupsWithin.node x).groups.getD []).all fun g =>
        g.all fun s => !s.isEmpty) = true ∧
      decide (∀ x ∈ ([3, 1, 2] : List NodeId), ¬ groupsWithin.Lacks 1 x) = true ∧
      decide (groupsWithin.Lacks 2 3) = true ∧ groupsWithin.groupCount 3 = 1 ∧
      [3, 1, 2].filter (groupsWithin.promotable 1) = [3, 1] ∧
      (groupsWithin.hideGroup ['g'] ['!'] 1 ['*'] ['k']).tree.children 4 = [1] ∧
      ((groupsWithin.hideGroup ['g'] ['!'] 1 ['*'] ['k']).tree.node 1).text = ['x', '!', 'y'] := by
    cbv
  have hsolid : ∀ group, ∀ x ∈ groupsWithin.sourcesOf ['*'] ['k'],
      groupsWithin.promotable group x = true → ∀ s, (groupsWithin.node x).groupSpan? group = some s →
        s.isEmpty = false := by
    intro group x hx _ s hs
    obtain ⟨gs, hgs, hmem⟩ := Node.records_of_groupSpan? hs
    have hx := List.all_eq_true.1 hsolids x (hsources ▸ hx)
    rw [hgs] at hx
    simpa using List.all_eq_true.1 hx _ hmem
  obtain ⟨-, -, hfirst⟩ := Reachable.hideGroup_promotes reachable_groupsWithin hglyph (hsolid 1) ['g']
  obtain ⟨-, hsecond, -⟩ := Reachable.hideGroup_promotes reachable_groupsWithin hglyph (hsolid 2) ['g']
  obtain ⟨hok, hhidden⟩ := hfirst (hsources ▸ of_decide_eq_true hlacks₁)
  obtain ⟨hfail, htree⟩ := hsecond [] 3 [1, 2] hsources (by simp) (of_decide_eq_true hlacks₂)
  rw [hsources, hcan] at hhidden
  rw [hcount] at hfail
  exact ⟨reachable_groupsWithin, hsources, hok, hhidden, hadopted, htext, hfail, htree⟩

end GlyphTree.Tree
