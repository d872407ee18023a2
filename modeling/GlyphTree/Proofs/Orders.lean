import GlyphTree.Proofs.Filing
import GlyphTree.Proofs.Histories

/-!
# The order of live nodes

Hiding puts fresh nodes between nodes and their children, and unfolding and folding back move
children between a node and its parent. None of them changes the order in which the walk from the
root comes upon the nodes that were there before (`Reachable.liveOrder_perform`). Regions that are
empty are no exception here, although they do spoil layouts.
-/

namespace GlyphTree

/-- Whether a command moves nodes from one list of children to another: whether it hides, unfolds or
folds back. -/
def Command.movesNodes : Command → Bool
  | .hideAll .. | .hideAny .. | .hideGroup .. | .hideRest .. | .unfold .. | .foldAll => true
  | _ => false

namespace Tree

open Cells

variable {t t' u f : Tree} {p q x c id : NodeId} {a b d cs : Cells} {F : Fold} {folds : List NodeId}

/-- The walk from a node over children. -/
def walk (t : Tree) (x : NodeId) : List NodeId := preorder t.children t.size x

/-- What walks need of a tree: children know their parent, and no node is below itself. -/
structure Listed (t : Tree) : Prop where
  root : root < t.size
  parent : ∀ p, ∀ c ∈ t.children p, (t.node c).parent = some p
  ranked : Ranked t.children

theorem Shaped.listed (hs : Shaped t) : Listed t := ⟨hs.root, fun _ _ => hs.parent, hs.ranked_children⟩

section
variable (h : Listed t)
include h

theorem Listed.lt (hc : c ∈ t.children p) : c < t.size := lt_size_of_parent (h.parent p c hc)

theorem Listed.parent_unique (hp : c ∈ t.children p) (hq : c ∈ t.children q) : p = q :=
  Option.some.inj ((h.parent p c hp).symm.trans (h.parent q c hq))

theorem Listed.walk_eq (hx : x < t.size) : t.walk x = x :: (t.children x).flatMap t.walk :=
  h.ranked.preorder_eq (fun _ _ => h.lt) hx

theorem Listed.walk_unique {w : NodeId → List NodeId}
    (hw : ∀ y, y < t.size → w y = y :: (t.children y).flatMap w) (hx : x < t.size) :
    w x = t.walk x :=
  preorder_unique (fun _ _ => h.lt) hw (h.ranked.ends (fun _ _ => h.lt) hx) hx

end

/-! ## Hiding -/

section
variable (i : Inserted t t' p) (h : Listed t) (hp : p < t.size)
include i h hp

/-- A fresh node ranks just below the node its children came from. -/
theorem Inserted.ranked : Ranked t'.children := by
  obtain ⟨rank, hr⟩ := h.ranked
  refine ⟨fun x => if x < t.size then 2 * rank x + 1 else 2 * rank p, fun q c hc => ?_⟩
  by_cases hq : q < t.size
  · by_cases hcs : c < t.size
    · have hcq : c ∈ t.children q := by
        by_cases hqp : q = p
        · obtain ⟨s, hs, hcs⟩ := i.kept.kids q (.inl (by simp [hqp])) c hc hcs
          exact hqp ▸ List.mem_singleton.1 hs ▸ hcs
        · exact (i.kept.content q hq (by simpa using hqp)).2.1 ▸ hc
      have := hr q c hcq
      simp only [if_pos hq, if_pos hcs]
      omega
    · -- a fresh node is listed at the node cut
      have hqp : q = p := by
        by_contra hqp
        rw [(i.kept.content q hq (by simpa using hqp)).2.1] at hc
        exact hcs (h.lt hc)
      subst hqp
      simp only [if_pos hq, if_neg hcs]
      omega
  · have hcs := i.fresh q (Nat.not_lt.1 hq) c hc
    obtain ⟨s, hs, hcp⟩ := i.kept.kids q (.inr (Nat.not_lt.1 hq)) c hc hcs
    have := hr p c (List.mem_singleton.1 hs ▸ hcp)
    simp only [if_neg hq, if_pos hcs]
    omega

theorem Inserted.listed : Listed t' where
  root := Nat.lt_of_lt_of_le h.root i.kept.size
  parent q c hc := by
    by_cases hq : q = p ∨ t.size ≤ q
    · exact i.parent q hq c hc
    · rw [not_or, Nat.not_le] at hq
      rw [(i.kept.content q hq.2 (by simpa using hq.1)).2.1] at hc
      rw [Node.parent, (i.kept.stands c (h.lt hc) fun s hs hcs => hq.1 ?_).1]
      · exact h.parent q c hc
      · exact List.mem_singleton.1 hs ▸ h.parent_unique hc hcs
  ranked := i.ranked h hp

/-- Without the fresh nodes the walk is as before. -/
theorem Inserted.walk (hx : x < t.size) : (t'.walk x).filter (· < t.size) = t.walk x := by
  have h' := i.listed h hp
  refine h.walk_unique (w := fun y => (t'.walk y).filter (· < t.size)) (fun y hy => ?_) hx
  have hy' : y < t'.size := Nat.lt_of_lt_of_le hy i.kept.size
  rw [h'.walk_eq hy', List.filter_cons_of_pos (by simpa using hy), List.filter_flatMap]
  congr 1
  by_cases hyp : y = p
  · subst hyp
    rw [← i.flat, List.flatMap_assoc]
    refine List.flatMap_congr fun c hc => ?_
    rcases Nat.lt_or_ge c t.size with hlt | hge
    · simp [lifted_of_lt hlt]
    · -- a fresh node goes, what it has taken over stays
      rw [lifted_of_le hge, h'.walk_eq (h'.lt hc), List.filter_cons_of_neg (by simpa using hge),
        List.filter_flatMap]
  · rw [(i.kept.content y hy (by simpa using hyp)).2.1]

end

/-- Whether the walk from the root comes upon the nodes of a tree in the same order afterwards. -/
def KeepsOrder (t t' : Tree) : Prop := t'.liveOrder.filter (· < t.size) = t.liveOrder

theorem Listed.live_lt (h : Listed t) (hx : x ∈ t.liveOrder) : x < t.size := by
  have hends := h.ranked.ends (fun _ _ => h.lt) h.root
  cases (mem_preorder hends).1 hx with
  | refl => exact h.root
  | tail _ hc => exact h.lt hc

theorem Listed.keepsOrder_refl (h : Listed t) : KeepsOrder t t :=
  List.filter_eq_self.2 fun _ hx => by simpa using h.live_lt hx

theorem KeepsOrder.trans {t'' : Tree} (h : KeepsOrder t t') (h' : KeepsOrder t' t'')
    (hle : t.size ≤ t'.size) : KeepsOrder t t'' := by
  rw [KeepsOrder, ← h, ← h', List.filter_filter]
  refine List.filter_congr fun x _ => ?_
  have : x < t.size → x < t'.size := fun hx => Nat.lt_of_lt_of_le hx hle
  simpa using this

/-- Cuts stay those of regions when another node is cut. -/
theorem Cutting.inserted {l : List Cut} (hc : Cutting t q l) (i : Inserted t t' p) (h : Listed t)
    (hq : q ≠ p) : Cutting t' q l := by
  obtain ⟨rs, z, hl, hcuts, hr⟩ := hc
  exact ⟨rs, z, i.kept.frame hl (by simpa using hq) fun _ hc _ hcs => h.parent_unique hc hcs,
    hcuts, hr⟩

/-- Plans keep the order, even if some of their regions are empty. -/
theorem Listed.keepsOrder_applyPlan {plan : Plan} (h : Listed t)
    (hnd : (plan.map Prod.fst).Nodup) (hc : ∀ x ∈ plan, Cutting t x.1 x.2) :
    KeepsOrder t (t.applyPlan plan) := by
  suffices hs : t.size ≤ (t.applyPlan plan).size ∧ KeepsOrder t (t.applyPlan plan) from hs.2
  induction plan generalizing t with
  | nil => exact ⟨Nat.le_refl _, h.keepsOrder_refl⟩
  | cons x plan ih =>
    obtain ⟨p, l⟩ := x
    obtain ⟨hp, hnd'⟩ := List.nodup_cons.1 hnd
    rw [applyPlan, List.foldl_cons]
    dsimp only
    cases l with
    | nil => exact ih h hnd' fun x hx => hc x (List.mem_cons_of_mem _ hx)
    | cons cut l =>
      obtain ⟨rs, z, hl, hcuts, hr⟩ : Cutting t p (cut :: l) := hc _ List.mem_cons_self
      have hrs : rs ≠ [] := fun e => by simp [e, Region.cuts] at hcuts
      have i := hl.inserted hrs hr
      rw [List.isEmpty_cons, if_neg Bool.false_ne_true, ← hcuts]
      obtain ⟨hsize, hk⟩ := ih (i.listed h hl.lt) hnd' fun x hx =>
        (hc x (List.mem_cons_of_mem _ hx)).inserted i h fun hxp => hp (List.mem_map.2 ⟨x, hx, hxp⟩)
      exact ⟨Nat.le_trans i.kept.size hsize,
        KeepsOrder.trans (i.walk h hl.lt h.root) hk i.kept.size⟩

section
variable (hw : WellFormed t) {name pattern label target : Text}
include hw

theorem WellFormed.keepsOrder_refl : KeepsOrder t t := hw.shaped.listed.keepsOrder_refl

/-- A hide keeps the order, whatever it hides. -/
theorem WellFormed.keepsOrder_planOf (c : Command) : KeepsOrder t (t.applyPlan (t.planOf c)) :=
  hw.shaped.listed.keepsOrder_applyPlan (hw.shaped.nodup_planOf c) fun _ hx =>
    hw.shaped.cutting_planOf hx

theorem WellFormed.keepsOrder_hideMatches :
    KeepsOrder t (t.hideMatches name pattern label target).tree :=
  hideMatches_tree t name pattern label target ▸
    hw.keepsOrder_planOf (.hideAll name pattern label target)

theorem WellFormed.keepsOrder_hideGroup (group : Nat) (scope source : Text) :
    KeepsOrder t (t.hideGroup name label group scope source).tree :=
  hideGroup_tree t name label group scope source ▸
    hw.keepsOrder_planOf (.hideGroup name label group scope source)

theorem WellFormed.keepsOrder_hideRest : KeepsOrder t (t.hideRest name label target).tree :=
  hideRest_tree t name label target ▸ hw.keepsOrder_planOf (.hideRest name label target)

end

/-! ## Folding and unfolding -/

/-- A node comes before its body, whether the body is below it or beside it. -/
theorem Folding.walk (h : Folding u f p id a b d F) (hu : Shaped u) (hf : Shaped f)
    (hx : x < u.size) (hne : x ≠ id) : f.walk x = u.walk x := by
  suffices hw : ∀ y, y < u.size → Function.update f.walk id [id] y =
      y :: (u.children y).flatMap (Function.update f.walk id [id]) by
    have := hu.listed.walk_unique hw hx
    rwa [Function.update_of_ne hne] at this
  have hsame : ∀ l : List NodeId, id ∉ l →
      l.flatMap (Function.update f.walk id [id]) = l.flatMap f.walk := fun l hl =>
    List.flatMap_congr fun c hc => Function.update_of_ne (fun e : c = id => hl (e ▸ hc)) _ _
  intro y hy
  by_cases hyi : y = id
  · rw [hyi, Function.update_self, h.children_hollow]
    rfl
  · rw [Function.update_of_ne hyi, hf.listed.walk_eq (h.size ▸ hy)]
    congr 1
    by_cases hyp : y = p
    · obtain ⟨-, hac, hb⟩ := h.around.unfolded_disjoint
      rw [starts_append, List.mem_append, not_or] at hac
      have hidb : id ∉ starts b := fun hm => (hb id hm).1 rfl
      rw [hyp, h.children_place, h.children_around]
      simp only [List.flatMap_append, List.flatMap_cons, Function.update_self]
      rw [hsame _ hac.1, hsame _ hidb, hsame _ hac.2,
        hf.listed.walk_eq (x := id) (h.size ▸ h.hollow.lt), h.body.children]
      simp
    · rw [h.children_same hyp hyi, hsame]
      exact fun hm => hyp (hu.parent_unique hm (by simp [h.children_around]))

theorem Folding.root_ne (h : Folding u f p id a b d F) (hf : Shaped f) : root ≠ id := fun e =>
  hf.root_not_child (e ▸ h.mem_children_place)

theorem Folding.liveOrder (h : Folding u f p id a b d F) (hu : Shaped u) (hf : Shaped f) :
    f.liveOrder = u.liveOrder := h.walk hu hf hu.root (h.root_ne hf)

theorem WellFormed.keepsOrder_unfold (hw : WellFormed t) (id : NodeId)
    (openLabel closeLabel : Text) : KeepsOrder t (t.unfold id openLabel closeLabel).tree := by
  rcases hw.shaped.unfold_cases id openLabel closeLabel with
    ⟨he, -⟩ | ⟨-, -, p, a, b, c, F, hh, he⟩
  · rw [he]
    exact hw.keepsOrder_refl
  · have hF := hh.folding
    rw [he, KeepsOrder, ← hF.liveOrder (hF.shaped_unfold hw.shaped) hw.shaped]
    exact hw.keepsOrder_refl

theorem Folds.liveOrder (h : Folds t folds t') (hs : Shaped t) : t'.liveOrder = t.liveOrder := by
  induction h with
  | done => rfl
  | skip _ _ ih => exact ih hs
  | back hF _ ih =>
    have hs' := hF.shaped_fold hs
    exact (ih hs').trans (hF.liveOrder hs hs')

theorem WellFormed.keepsOrder_foldAll (hw : WellFormed t) : KeepsOrder t t.foldAll.tree := by
  have hs := hw.shaped.alike (alike_folds t [])
  have : t.foldAll.tree.liveOrder = t.liveOrder := hw.folds_foldAll.1.liveOrder hs
  rw [KeepsOrder, this]
  exact hw.keepsOrder_refl

/-! ## Commands -/

/-- Hiding, unfolding and folding back lose, repeat and reorder no live node: those made by the
command left out, the live nodes are the same in the same order. -/
theorem Reachable.liveOrder_perform (h : Reachable t) {c : Command} (hc : c.movesNodes = true) :
    t.liveOrder.Nodup ∧ (t.perform c).tree.liveOrder.filter (· < t.size) = t.liveOrder := by
  have hw := h.wellFormed
  refine ⟨hw.shaped.nodup_liveOrder, ?_⟩
  cases c with
  | hideAll => exact hw.keepsOrder_hideMatches
  | hideAny => exact hw.keepsOrder_hideMatches
  | hideGroup name label group scope source => exact hw.keepsOrder_hideGroup group scope source
  | hideRest => exact hw.keepsOrder_hideRest
  | unfold id openLabel closeLabel => exact hw.keepsOrder_unfold id openLabel closeLabel
  | foldAll => exact hw.keepsOrder_foldAll
  | _ => cases hc

/-- A hide of matches, most of them empty, among markers of nodes unfolded inside each other. -/
theorem liveOrder_perform_unfoldedTwice :
    let c : Command := .hideAll ['m'] ['y', '*'] ['#'] ['*']
    Reachable unfoldedTwice ∧ c.movesNodes = true ∧ unfoldedTwice.liveOrder = [0, 2, 1, 3, 4] ∧
      unfoldedTwice.liveOrder.Nodup ∧
      (unfoldedTwice.perform c).tree.liveOrder.filter (· < unfoldedTwice.size) =
        unfoldedTwice.liveOrder :=
  ⟨reachable_unfoldedTwice, rfl, by cbv,
    Reachable.liveOrder_perform reachable_unfoldedTwice rfl⟩

end Tree

end GlyphTree
