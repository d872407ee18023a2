import GlyphTree.Proofs.Editing
import Mathlib

/-!
# Replacing in many nodes

Literal text is replaced in one node after the other, but what comes of it can be said of each node
on its own: its text is edited once, and its place follows the edits of the node that lists it
(`WellFormed.replaced`). So the order of the nodes does not matter.
-/

namespace GlyphTree.Tree

open Cells Patch

variable {t t' : Tree} {p q x j : NodeId} {n : Node} {A : Stretch} {cs : Cells}
  {own around : List Edit} {es : NodeId → List Edit} {ids : List NodeId} {old new : Text}

/-! ## Nodes -/

/-- A node after edits of its own text and of the text around it. Where there is nothing to edit
nothing is touched. -/
def carried (own around : List Edit) (n : Node) : Node :=
  let n := if own = [] then n else edited own n
  if around = [] then n else followEdits around n

@[simp] theorem carried_nil (n : Node) : carried [] [] n = n := rfl

theorem carried_eq (own around : List Edit) (n : Node) : carried own around n =
    { n with
      text := applyEdits n.text own
      place := if around = [] then n.place
        else n.place.map fun pl => { pl with span := remapSpan pl.span around }
      groups := (carried own around n).groups } := by
  unfold carried
  by_cases ho : own = [] <;> by_cases ha : around = [] <;> apply Node.ext <;>
    simp [ho, ha, edited, Node.mapGroups, applyEdits_nil]

section
variable (own around : List Edit) (n : Node)

@[simp] theorem carried_name : (carried own around n).name = n.name := by rw [carried_eq]

@[simp] theorem carried_text : (carried own around n).text = applyEdits n.text own := by
  rw [carried_eq]

@[simp] theorem carried_place : (carried own around n).place = if around = [] then n.place
    else n.place.map fun pl => { pl with span := remapSpan pl.span around } := by
  rw [carried_eq]

@[simp] theorem carried_fold : (carried own around n).fold = n.fold := by rw [carried_eq]

@[simp] theorem carried_children : (carried own around n).children = n.children := by
  rw [carried_eq]

@[simp] theorem carried_expanded : (carried own around n).expanded = n.expanded := by
  rw [carried_eq]

end

theorem followEdits_of_folded (h : n.isUnfolded = false) (es : List Edit) : followEdits es n =
    { n with place := n.place.map fun pl => { pl with span := remapSpan pl.span es } } := by
  rw [followEdits_eq]
  simp [h]

theorem groups_carried (h : n.isUnfolded = false) (own around : List Edit) :
    (carried own around n).groups =
      if own = [] then n.groups else (n.mapGroups (some <| remapSpan · own)).groups := by
  have hn : (edited own n).isUnfolded = false := h
  unfold carried
  by_cases ho : own = [] <;> by_cases ha : around = [] <;>
    simp [ho, ha, followEdits_of_folded h, followEdits_of_folded hn]
  all_goals rfl

/-- The edits around a node may come first. -/
theorem carried_carried (h : own ≠ [] → n.isUnfolded = false) :
    carried own [] (carried [] around n) = carried own around n := by
  unfold carried
  by_cases ho : own = []
  · simp [ho]
  · by_cases ha : around = []
    · simp [ha]
    · have hn : (edited own n).isUnfolded = false := h ho
      simp only [ho, ha, if_false, if_true]
      rw [followEdits_of_folded (h ho), followEdits_of_folded hn]
      rfl

/-! ## Trees -/

/-- `t'` is `t` with all texts edited at once. -/
structure Replaced (t t' : Tree) (es : NodeId → List Edit) : Prop where
  size : t'.size = t.size
  stripped : t'.stripped = t.stripped
  listed : ∀ p, ∀ j ∈ t.children p, t'.node j = carried (es j) (es p) (t.node j)
  unlisted : ∀ j, (∀ p, j ∉ t.children p) → t'.node j = carried (es j) [] (t.node j)

section
variable (h : Replaced t t' es)
include h

theorem Replaced.exists_node (j : NodeId) :
    ∃ around, t'.node j = carried (es j) around (t.node j) := by
  by_cases hj : ∃ p, j ∈ t.children p
  · obtain ⟨p, hj⟩ := hj
    exact ⟨_, h.listed p j hj⟩
  · exact ⟨_, h.unlisted j (not_exists.1 hj)⟩

theorem Replaced.children (j : NodeId) : t'.children j = t.children j := by
  obtain ⟨around, hj⟩ := h.exists_node j
  rw [Tree.children, hj, carried_children]
  rfl

theorem Replaced.text (j : NodeId) : (t'.node j).text = applyEdits (t.node j).text (es j) := by
  obtain ⟨around, hj⟩ := h.exists_node j
  rw [hj, carried_text]

theorem Replaced.name (j : NodeId) : (t'.node j).name = (t.node j).name := by
  obtain ⟨around, hj⟩ := h.exists_node j
  rw [hj, carried_name]

theorem Replaced.expanded (j : NodeId) : (t'.node j).expanded = (t.node j).expanded := by
  obtain ⟨around, hj⟩ := h.exists_node j
  rw [hj, carried_expanded]

theorem Replaced.fold (j : NodeId) : (t'.node j).fold = (t.node j).fold := by
  obtain ⟨around, hj⟩ := h.exists_node j
  rw [hj, carried_fold]

/-- A node is laid out as its patches leave it. -/
theorem Replaced.layout (hl : Layout t q A.old) (he : es q = A.edits 0) (hlit : A.Literal) :
    Layout t' q A.new := by
  have hplace : ∀ k ∈ t.children q, (t'.node k).place = if es q = [] then (t.node k).place
      else (t.node k).place.map fun pl => { pl with span := remapSpan pl.span (es q) } :=
    fun k hk => by rw [h.listed q k hk, carried_place]
  by_cases hnil : A.patches = []
  · have hes : es q = [] := by rw [he, Stretch.edits, hnil]; rfl
    have hnew : A.new = A.old := by rw [Stretch.new, Stretch.old, hnil]; rfl
    rw [hnew]
    refine hl.frame (h.size ▸ hl.lt) ?_ (h.children q) fun k hk => ⟨?_, h.fold k⟩
    · rw [h.text, hes, applyEdits_nil]
    · rw [hplace k hk, if_pos hes]
  · have hne : es q ≠ [] := by rw [he]; exact mt edits_eq_nil.1 hnil
    have hedit : Layout (t.rewrite q (es q)) q A.new := he ▸ Layout.edit_literal hl hnil hlit
    have hnode : ∀ k, (t.rewrite q (es q)).node k = if k = q then edited (es q) (t.node q)
        else if k ∈ t.children q then followEdits (es q) (t.node k) else t.node k := fun k => by
      rw [he]
      exact Layout.node_edit hl hnil k
    have hkids : (t.rewrite q (es q)).children q = t.children q := by
      rw [Tree.children, hnode, if_pos rfl]
      rfl
    refine hedit.frame (h.size ▸ hl.lt) ?_ ?_ fun k hk => ?_
    · rw [h.text, hnode, if_pos rfl]
      rfl
    · rw [h.children, hkids]
    · rw [hkids] at hk
      have hkq : k ≠ q := fun e => hl.irrefl (hl.children ▸ e ▸ hk)
      rw [hplace k hk, h.fold, hnode, if_neg hkq, if_pos hk, if_neg hne]
      exact ⟨(followEdits_place _ _).symm, (followEdits_fold _ _).symm⟩

end

/-! ## Replacing -/

/-- The edits of a node in a replacement in the nodes `ids`. -/
def editsIn (t : Tree) (old new : Text) (ids : List NodeId) (q : NodeId) : List Edit :=
  if q ∈ ids then t.replacingEdits old new q else []

theorem editsIn_of_mem (h : q ∈ ids) : t.editsIn old new ids q = t.replacingEdits old new q :=
  if_pos h

theorem editsIn_of_not_mem (h : q ∉ ids) : t.editsIn old new ids q = [] := if_neg h

section
variable (hw : WellFormed t) (hold : old ≠ [])
include hw

theorem WellFormed.editsIn_of_unfolded (hu : (t.node j).isUnfolded = true) :
    t.editsIn old new ids j = [] := by
  rw [editsIn, hw.shaped.replacingEdits_of_unfolded hu, ite_self]

include hold

variable (new) in
theorem WellFormed.node_replacing (hx : x < t.size) (j : NodeId) :
    (t.rewrite x (t.replacingEdits old new x)).node j =
      carried (if j = x then t.replacingEdits old new x else [])
        (if j ∈ t.children x then t.replacingEdits old new x else []) (t.node j) := by
  obtain ⟨ps, z, hl, he, -⟩ := hw.shaped.exists_replacing hx hold new
  rw [← he]
  by_cases hnil : ps = []
  · subst hnil
    rw [show edits 0 [] = [] from rfl, ite_self, ite_self]
    rfl
  · have hne : edits 0 ps ≠ [] := mt edits_eq_nil.1 hnil
    rw [hl.node_edit hnil]
    by_cases hj : j = x
    · have hjx : j ∉ t.children x := fun hm => hl.irrefl (hl.children ▸ hj ▸ hm)
      rw [if_pos hj, if_pos hj, if_neg hjx, carried, if_neg hne, if_pos rfl, hj]
    · rw [if_neg hj, if_neg hj]
      by_cases hjx : j ∈ t.children x
      · rw [if_pos hjx, if_pos hjx, carried, if_pos rfl, if_neg hne]
      · rw [if_neg hjx, if_neg hjx]
        rfl

/-- What is to be replaced in a node does not change with the texts of other nodes. -/
theorem WellFormed.replacingEdits_replacing (hx : x < t.size) (hq : q < t.size) (hne : q ≠ x) :
    (t.rewrite x (t.replacingEdits old new x)).replacingEdits old new q =
      t.replacingEdits old new q := by
  obtain ⟨ps, z, hl, he, -⟩ := hw.shaped.exists_replacing hx hold new
  rw [← he]
  by_cases hnil : ps = []
  · subst hnil
    rfl
  · obtain ⟨cs, hlq⟩ := hw.shaped.layout q hq
    have := (hl.kept_edit hnil).layout hw.shaped hlq (by simpa using hne)
    rw [this.replacingEdits_eq, hlq.replacingEdits_eq]

/-- One node is done, and others are yet to be. -/
theorem WellFormed.replaced_step {E : List Edit} (hE : t.replacingEdits old new x = E)
    (hx : x < t.size) (hr : Replaced (t.rewrite x E) t' es) (hfree : es x = [])
    (hown : ∀ j, es j ≠ [] → (t.node j).isUnfolded = false) :
    Replaced t t' (Function.update es x E) := by
  have hnode := hw.node_replacing new hold hx
  rw [hE] at hnode
  have hkids : ∀ q, (t.rewrite x E).children q = t.children q := fun q => by
    rw [Tree.children, hnode, carried_children]
    rfl
  refine ⟨hr.size.trans (size_rewrite t x E), hr.stripped.trans (stripped_rewrite t x E),
    fun p j hj => ?_, fun j hj => ?_⟩
  · have hjp : j ≠ p := fun e => hw.shaped.not_below_self p (List.mem_append_left _ (e ▸ hj))
    rw [hr.listed p j ((hkids p).symm ▸ hj), hnode]
    by_cases hpx : p = x
    · subst hpx
      rw [if_neg hjp, if_pos hj, hfree, Function.update_self, Function.update_of_ne hjp]
      exact carried_carried (hown j)
    · have hjx : j ∉ t.children x := fun h => hpx (hw.shaped.parent_unique hj h)
      rw [if_neg hjx, Function.update_of_ne hpx]
      by_cases hj : j = x
      · rw [if_pos hj, hj, hfree, Function.update_self]
        rfl
      · rw [if_neg hj, Function.update_of_ne hj, carried_nil]
  · rw [hr.unlisted j fun p => (hkids p).symm ▸ hj p, hnode, if_neg (hj x)]
    by_cases hj : j = x
    · rw [if_pos hj, hj, hfree, Function.update_self]
      rfl
    · rw [if_neg hj, Function.update_of_ne hj, carried_nil]

/-- To replace a text in one node after the other is to edit all texts at once. -/
theorem WellFormed.replaced (hids : ∀ x ∈ ids, x < t.size) (hnd : ids.Nodup) :
    Replaced t (Tree.replaceEach old new ids t).2 (t.editsIn old new ids) ∧
      (Tree.replaceEach old new ids t).1 =
        (ids.map fun q => (t.editsIn old new ids q).length).sum := by
  induction ids generalizing t with
  | nil => exact ⟨⟨rfl, rfl, fun _ _ _ => rfl, fun _ _ => rfl⟩, rfl⟩
  | cons x ids ih =>
    obtain ⟨hx, hids⟩ := List.forall_mem_cons.1 hids
    obtain ⟨hxids, hnd⟩ := List.nodup_cons.1 hnd
    have hw₁ := hw.rewrite_replacingEdits hx hold new
    have hfold : ∀ j, ((t.rewrite x (t.replacingEdits old new x)).node j).fold =
        (t.node j).fold := fun j => by rw [hw.node_replacing _ hold hx, carried_fold]
    obtain ⟨hr, hcount⟩ := ih hw₁ (fun y hy => (size_rewrite t x _).symm ▸ hids y hy) hnd
    -- the edits of the first node come on top of those of the others
    have hes : t.editsIn old new (x :: ids) = Function.update
        ((t.rewrite x (t.replacingEdits old new x)).editsIn old new ids) x
        (t.replacingEdits old new x) := by
      funext q
      by_cases hqx : q = x
      · rw [hqx, editsIn_of_mem List.mem_cons_self, Function.update_self]
      · rw [Function.update_of_ne hqx]
        by_cases hq : q ∈ ids
        · rw [editsIn_of_mem (List.mem_cons_of_mem _ hq), editsIn_of_mem hq,
            hw.replacingEdits_replacing hold hx (hids q hq) hqx]
        · rw [editsIn_of_not_mem (by simp [hqx, hq]), editsIn_of_not_mem hq]
    rw [hes]
    refine ⟨hw.replaced_step hold rfl hx hr (editsIn_of_not_mem hxids) fun j hj => ?_, ?_⟩
    · by_contra hu
      exact hj (hw₁.editsIn_of_unfolded (by
        rw [Node.isUnfolded_congr (hfold j)]
        simpa using hu))
    · rw [List.map_cons, List.sum_cons, Function.update_self]
      refine congrArg (_ + ·) (hcount.trans (congrArg List.sum (List.map_congr_left fun q hq => ?_)))
      rw [Function.update_of_ne fun e : q = x => hxids (e ▸ hq)]

end

/-- Replaces a text in the literal text of some nodes, as `replaceAll` does in its targets: there is
nothing to replace if the text is empty. -/
def replaceIn (t : Tree) (old new : Text) (ids : List NodeId) : Nat × Tree :=
  if old.isEmpty then (0, t) else replaceEach old new ids t

theorem replaceIn_nil : t.replaceIn [] new ids = (0, t) := rfl

theorem replaceIn_of_ne (hold : old ≠ []) :
    t.replaceIn old new ids = replaceEach old new ids t :=
  if_neg (by simpa using hold)

theorem replaceAll_eq (t : Tree) (old new target : Text) :
    (t.replaceAll old new target).tree = (t.replaceIn old new (t.targets target)).2 ∧
      (t.replaceAll old new target).result =
        .ok (t.replaceIn old new (t.targets target)).1 := by
  unfold replaceAll replaceIn
  split <;> exact ⟨rfl, rfl⟩

end GlyphTree.Tree
