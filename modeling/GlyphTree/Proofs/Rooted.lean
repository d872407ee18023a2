import GlyphTree.Proofs.Links

/-!
# What hangs from the root

A node that has been put below itself is cut off from the root, together with the circle it is in:
since no node is in two lists, no list can lead from the root into a circle. So the walks from the
root end and come upon no node twice, whatever circles there may be elsewhere (`Tied.nodup_order`,
`Tied.mem_order`).
-/

namespace GlyphTree.Tree

open Relation

/-! ## Walks from a top -/

section
variable {below below' : NodeId → List NodeId} {n d : Nat} {top x y : NodeId}

theorem lt_of_mem_preorder (hlt : ∀ p, ∀ c ∈ below p, c < n) (hx : x < n)
    (hy : y ∈ preorder below d x) : y < n := by
  induction d generalizing x with
  | zero => cases hy
  | succ d ih =>
    rcases List.mem_cons.1 hy with rfl | hy
    · exact hx
    · obtain ⟨c, hc, hy⟩ := List.mem_flatMap.1 hy
      exact ih (hlt x c hc) hy

/-- A walk depends on what is below its start only. -/
theorem preorder_congr (h : ∀ y, ReflTransGen (Under below) x y → below' y = below y) :
    preorder below' d x = preorder below d x := by
  induction d generalizing x with
  | zero => rfl
  | succ d ih =>
    rw [preorder, preorder, h x .refl]
    exact congrArg _ (List.flatMap_congr fun c hc => ih fun y hy => h y (.head hc hy))

theorem Ends.congr (h : Ends below' d x)
    (hsame : ∀ y, ReflTransGen (Under below) x y → below' y = below y) : Ends below d x := by
  induction d generalizing x with
  | zero => exact h.elim
  | succ d ih =>
    exact fun c hc => ih (h c (hsame x .refl ▸ hc)) fun y hy => hsame y (.head hc hy)

/-- Walks from nodes further down end as well. -/
theorem Ends.further (h : Ends below d x) (hxy : ReflTransGen (Under below) x y) :
    Ends below d y := by
  induction hxy with
  | refl => exact h
  | tail _ hc ih =>
    cases d with
    | zero => exact ih.elim
    | succ d => exact (ih _ hc).succ

theorem Ends.irrefl (h : Ends below d x) : ¬ TransGen (Under below) x x := by
  intro hx
  obtain ⟨c, hc, hcx⟩ := TransGen.head'_iff.1 hx
  induction d with
  | zero => exact h
  | succ d ih => exact ih ((h c hc).further hcx)

open Classical in
/-- What is below nodes, for nodes at and below a top only. -/
noncomputable def hanging (below : NodeId → List NodeId) (top p : NodeId) : List NodeId :=
  if ReflTransGen (Under below) top p then below p else []

theorem hanging_eq (h : ReflTransGen (Under below) top x) : hanging below top x = below x := if_pos h

theorem hanging_sublist (below : NodeId → List NodeId) (top p : NodeId) :
    (hanging below top p).Sublist (below p) := by
  unfold hanging
  split
  · exact .refl _
  · exact List.nil_sublist _

theorem reached_of_hanging (h : Under (hanging below top) x y) :
    ReflTransGen (Under below) top x := by
  unfold Under hanging at h
  split at h
  · assumption
  · cases h

/-- Walks that end at all do so within as many steps as there are nodes. -/
theorem Ends.within (h : Ends below d x) (hlt : ∀ p, ∀ c ∈ below p, c < n) (hx : x < n) :
    Ends below n x := by
  refine Ends.congr (ends_of_irrefl (fun y hy => ?_)
    (fun p c hc => hlt p c ((hanging_sublist below x p).subset hc)) hx) fun _ => hanging_eq
  obtain ⟨c, hc, -⟩ := TransGen.head'_iff.1 hy
  exact (h.further (reached_of_hanging hc)).irrefl
    (TransGen.mono (fun p _ hc => (hanging_sublist below x p).subset hc) _ _ hy)

section
variable (hu : ∀ p q c, c ∈ below p → c ∈ below q → p = q) (htop : ∀ p, top ∉ below p)
include hu htop

/-- If nothing is below two nodes, and the top below none, then no node at or below the top is below
itself. -/
theorem irrefl_of_top (hx : ReflTransGen (Under below) top x) :
    ¬ TransGen (Under below) x x := by
  induction hx with
  | refl =>
    intro hcircle
    obtain ⟨p, -, hp⟩ := TransGen.tail'_iff.1 hcircle
    exact htop p hp
  | @tail y z _ hz ih =>
    intro hcircle
    -- the circle would come to `z` from where the walk does
    obtain ⟨p, hzp, hp⟩ := TransGen.tail'_iff.1 hcircle
    obtain rfl := hu p y z hp hz
    exact ih (.head' hz hzp)

theorem irrefl_hanging (x : NodeId) : ¬ TransGen (Under (hanging below top)) x x := by
  intro hx
  obtain ⟨c, hc, -⟩ := TransGen.head'_iff.1 hx
  exact irrefl_of_top hu htop (reached_of_hanging hc)
    (TransGen.mono (fun p _ hc => (hanging_sublist below top p).subset hc) _ _ hx)

variable (hlt : ∀ p, ∀ c ∈ below p, c < n) (hn : top < n)
include hlt hn

theorem ends_hanging : Ends (hanging below top) n top :=
  ends_of_irrefl (irrefl_hanging hu htop)
    (fun p c hc => hlt p c ((hanging_sublist below top p).subset hc)) hn

theorem ends_of_top : Ends below n top :=
  (ends_hanging hu htop hlt hn).congr fun _ => hanging_eq

theorem nodup_preorder_of_top (hnd : ∀ p, (below p).Nodup) : (preorder below n top).Nodup := by
  rw [← preorder_congr fun _ => hanging_eq]
  have hsub := hanging_sublist below top
  exact nodup_preorder (irrefl_hanging hu htop)
    (fun p q c hp hq => hu p q c ((hsub p).subset hp) ((hsub q).subset hq))
    (fun p => (hsub p).nodup (hnd p)) (ends_hanging hu htop hlt hn)

end

end

/-! ## Walks from the root -/

variable {t : Tree} {p c x y : NodeId} {circles : Prop} {rank : NodeId → Nat}
  {below : NodeId → List NodeId}

theorem Tied.root_lt (h : Tied circles t) : Tree.root < t.size := by
  obtain ⟨rank, h⟩ := h
  exact h.root

theorem Tied.parent_below (h : Tied circles t) (hc : c ∈ t.below p) : t.IsParent c p := by
  obtain ⟨rank, h⟩ := h
  exact h.parent p c hc

theorem Tied.isParent_child (h : Tied circles t) (hc : c ∈ t.children p) : t.IsParent c p :=
  h.parent_below (List.mem_append_left _ hc)

theorem Tied.below_nodup (h : Tied circles t) (p : NodeId) : (t.below p).Nodup := by
  obtain ⟨rank, h⟩ := h
  exact h.nodup p

theorem Tied.root_not_below (h : Tied circles t) (p : NodeId) : Tree.root ∉ t.below p := by
  obtain ⟨rank, h⟩ := h
  exact fun hp => h.ne_root (h.parent p _ hp) rfl

section
variable (h : Tied circles t) (hsub : ∀ p, (below p).Sublist (t.below p))
include h hsub

theorem Tied.lt_of_mem_order (hx : x ∈ preorder below t.size Tree.root) : x < t.size :=
  lt_of_mem_preorder (fun p _ hc => (h.parent_below ((hsub p).subset hc)).lt) h.root_lt hx

theorem Tied.ends_order : Ends below t.size Tree.root :=
  ends_of_top (fun p q _ hp hq =>
      (h.parent_below ((hsub p).subset hp)).unique (h.parent_below ((hsub q).subset hq)))
    (fun p hp => h.root_not_below p ((hsub p).subset hp))
    (fun p _ hc => (h.parent_below ((hsub p).subset hc)).lt) h.root_lt

theorem Tied.mem_order :
    x ∈ preorder below t.size Tree.root ↔ ReflTransGen (Under below) Tree.root x :=
  mem_preorder (h.ends_order hsub)

theorem Tied.nodup_order : (preorder below t.size Tree.root).Nodup :=
  nodup_preorder_of_top (fun p q _ hp hq =>
      (h.parent_below ((hsub p).subset hp)).unique (h.parent_below ((hsub q).subset hq)))
    (fun p hp => h.root_not_below p ((hsub p).subset hp))
    (fun p _ hc => (h.parent_below ((hsub p).subset hc)).lt) h.root_lt
    fun p => (hsub p).nodup (h.below_nodup p)

end

section
variable (h : Tied circles t)
include h

theorem Tied.mem_liveOrder : x ∈ t.liveOrder ↔ ReflTransGen (Under t.children) Tree.root x :=
  h.mem_order fun _ => List.sublist_append_left _ _

theorem Tied.nodup_liveOrder : t.liveOrder.Nodup :=
  h.nodup_order fun _ => List.sublist_append_left _ _

theorem Tied.live_lt (hx : x ∈ t.liveOrder) : x < t.size :=
  h.lt_of_mem_order (fun _ => List.sublist_append_left _ _) hx

theorem Tied.mem_documentOrder :
    x ∈ t.documentOrder ↔ ReflTransGen (Under t.below) Tree.root x := h.mem_order fun _ => .refl _

theorem Tied.nodup_documentOrder : t.documentOrder.Nodup := h.nodup_order fun _ => .refl _

theorem Tied.lt_of_mem_documentOrder (hx : x ∈ t.documentOrder) : x < t.size :=
  h.lt_of_mem_order (fun _ => .refl _) hx

/-- What is live is in the document. -/
theorem Tied.live_subset (hx : x ∈ t.liveOrder) : x ∈ t.documentOrder :=
  h.mem_documentOrder.2 <| ReflTransGen.mono
    (fun p c (hc : c ∈ t.children p) => (List.mem_append_left _ hc : c ∈ t.below p)) _ _
    (h.mem_liveOrder.1 hx)

end

/-! ## Liveness -/

theorem isLiveWithin_succ {steps : Nat} (h : t.isLiveWithin steps x = true) :
    t.isLiveWithin (steps + 1) x = true := by
  induction steps generalizing x with
  | zero => cases h
  | succ steps ih =>
    rw [isLiveWithin] at h ⊢
    split
    · rfl
    · rename_i hx
      rw [if_neg hx] at h
      split at h
      · cases h
      · obtain ⟨hmem, hp⟩ := Bool.and_eq_true_iff.1 h
        exact Bool.and_eq_true_iff.2 ⟨hmem, ih hp⟩

section
variable (h : Tied circles t)
include h

/-- A walk over children comes from live nodes to live nodes. -/
theorem Tied.isLiveWithin_of_mem {d steps : Nat} (hx : t.isLiveWithin steps x = true)
    (hy : y ∈ preorder t.children d x) : t.isLiveWithin (steps + d) y = true := by
  induction d generalizing x steps with
  | zero => cases hy
  | succ d ih =>
    rcases List.mem_cons.1 hy with rfl | hy
    · exact Nat.le_induction (m := steps) hx (fun _ _ => isLiveWithin_succ) _ (Nat.le_add_right _ _)
    · obtain ⟨c, hc, hy⟩ := List.mem_flatMap.1 hy
      rw [← Nat.succ_add_eq_add_succ]
      refine ih ?_ hy
      rw [isLiveWithin]
      split
      · rfl
      · rw [show (t.node c).parent = some x from h.isParent_child hc]
        exact Bool.and_eq_true_iff.2 ⟨by simpa using hc, hx⟩

theorem Tied.isLive_of_mem (hx : x ∈ t.liveOrder) : t.isLive x = true := by
  have hroot : t.isLiveWithin 1 Tree.root = true := by rw [isLiveWithin, if_pos rfl]
  have := h.isLiveWithin_of_mem hroot hx
  rwa [Nat.add_comm] at this

/-- A live node is not its own parent. -/
theorem Tied.not_mem_children_self (hx : t.isLive x = true) (hroot : x ≠ Tree.root) :
    x ∉ t.children x := by
  intro hself
  rw [isLive] at hx
  have hparent : (t.node x).parent = some x := h.isParent_child hself
  generalize t.size + 1 = steps at hx
  induction steps with
  | zero => cases hx
  | succ steps ih =>
    rw [isLiveWithin, if_neg hroot, hparent] at hx
    exact ih (Bool.and_eq_true_iff.1 hx).2

end

end GlyphTree.Tree
