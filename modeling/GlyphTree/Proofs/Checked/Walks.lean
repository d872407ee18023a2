import GlyphTree.Proofs.Checked.Content

/-!
# Checked walks

Orders, liveness, scope and depth with checks. The walks go over a stack, and liveness, scope and
depth are found by going up from parent to parent; there is no result if a number is not that of a
node, or if more steps would be taken than there are nodes. A parent that lists its child ranks above
it, so going up ends as long as each parent lists the node that it is reached from, as is so for all
nodes of the document.
-/

namespace GlyphTree.Tree

open Relation

variable {t : Tree} {p c x id : NodeId} {d n steps : Nat} {stack : List NodeId}

/-! ## Definitions -/

/-- The children expanded into a node. -/
def expandedChildren? (t : Tree) (id : NodeId) : Option (List NodeId) :=
  (t.node? id).map Node.expanded

/-- The hidden, unfolded and expanded children of a node. -/
def below? (t : Tree) (id : NodeId) : Option (List NodeId) := do
  return (← t.children? id) ++ (← t.expandedChildren? id)

/-- The walk as a loop over a stack. -/
def walk? (below : NodeId → Option (List NodeId)) : Nat → List NodeId → Option (List NodeId)
  | _, [] => some []
  | 0, _ :: _ => none
  | steps + 1, id :: stack => do
    let ids ← below id
    return id :: (← walk? below steps (ids ++ stack))

/-- All nodes of the document. -/
def documentOrder? (t : Tree) : Option (List NodeId) := walk? t.below? t.size [root]

/-- The live nodes. -/
def liveOrder? (t : Tree) : Option (List NodeId) := walk? t.children? t.size [root]

/-- The nodes of the document with a name, in document order. -/
def named? (t : Tree) (name : Text) : Option (List NodeId) :=
  t.documentOrder?.map fun ids => ids.filter (t.names.ids name).contains

/-- Whether a filter selects a node as target. -/
def isTarget? (t : Tree) (filter : Text) (id : NodeId) : Option Bool :=
  if t.config.isWildcard filter then some !t.isIgnored id
  else (t.node? id).map fun n => decide (n.name = filter)

/-- The live nodes that a filter selects, in live order. -/
def targets? (t : Tree) (filter : Text) : Option (List NodeId) := do
  filter? (t.isTarget? filter) (← t.liveOrder?)

/-- Liveness, found by going up to the root. -/
def isLiveWithin? (t : Tree) : Nat → NodeId → Option Bool
  | 0, _ => none
  | steps + 1, id =>
    if id = root then some true
    else match (t.node id).parent with
      | none => some false
      | some p => do
        if (← t.children? p).contains id then t.isLiveWithin? steps p else return false

/-- Whether a node can be reached from the root through lists of children. -/
def isLive? (t : Tree) (id : NodeId) : Option Bool := t.isLiveWithin? (t.size + 1) id

/-- Whether a node is in a scope. -/
def inScope? (t : Tree) (scope : Text) (id : NodeId) : Option Bool :=
  t.scopeLoop scope (t.size + 1) id

/-- The number of parents above a node. -/
def depth? (t : Tree) (id : NodeId) : Option Nat := t.depthLoop t.size id

/-! ## Going down -/

theorem expandedChildren?_eq (h : id < t.size) :
    t.expandedChildren? id = some (t.expandedChildren id) := by
  rw [expandedChildren?, node?_eq h]
  rfl

theorem below?_eq (h : id < t.size) : t.below? id = some (t.below id) := by
  rw [below?, children?_eq h, expandedChildren?_eq h]
  rfl

/-- The lists that are looked up are those of nodes. -/
theorem walk?_eq_stackWalk {below : NodeId → List NodeId} {below? : NodeId → Option (List NodeId)}
    (hb : ∀ x, x < n → below? x = some (below x)) (hlt : ∀ p, ∀ c ∈ below p, c < n)
    (hs : ∀ x ∈ stack, x < n) : walk? below? steps stack = stackWalk below steps stack := by
  induction steps generalizing stack with
  | zero => cases stack <;> rfl
  | succ steps ih =>
    cases stack with
    | nil => rfl
    | cons x stack =>
      obtain ⟨hx, hs⟩ := List.forall_mem_cons.1 hs
      have hpush : ∀ y ∈ below x ++ stack, y < n := fun y hy =>
        (List.mem_append.1 hy).elim (hlt x y) (hs y)
      rw [walk?, stackWalk, push_eq, hb x hx]
      simp only [Option.bind_eq_bind, Option.bind_some]
      rw [ih hpush]
      cases stackWalk below steps (below x ++ stack) <;> rfl

section
variable (h : Shaped t)
include h

/-- A walk over some of what is below the nodes takes no more steps than there are nodes. -/
theorem Shaped.walk?_eq {below : NodeId → List NodeId} {below? : NodeId → Option (List NodeId)}
    (hb : ∀ x, x < t.size → below? x = some (below x))
    (hsub : ∀ p, (below p).Sublist (t.below p)) :
    walk? below? t.size [Tree.root] = some (preorder below t.size Tree.root) := by
  have hlt : ∀ p, ∀ c ∈ below p, c < t.size := fun p c hc => (h.below_lt p c ((hsub p).subset hc)).2
  have hr : Ranked below := h.ranked.imp fun _ hr p c hc => hr p c ((hsub p).subset hc)
  have hroot : ∀ x ∈ [Tree.root], x < t.size := by simpa using h.root
  have hnd : (preorder below t.size Tree.root).Nodup :=
    nodup_preorder hr.irrefl
      (fun p q c hp hq => h.below_unique p q c ((hsub p).subset hp) ((hsub q).subset hq))
      (fun p => (hsub p).nodup (h.below_nodup p)) (hr.ends hlt h.root)
  have hlen : (preorder below t.size Tree.root).length ≤ t.size :=
    length_le_of_nodup hnd fun x hx => by
      rcases ((mem_preorder (hr.ends hlt h.root)).1 hx).cases_tail with rfl | ⟨p, -, hx⟩
      · exact h.root
      · exact hlt p x hx
  rw [walk?_eq_stackWalk hb hlt hroot,
    stackWalk_eq hlt (fun x hx => hr.preorder_eq hlt hx) hroot (by simpa using hlen)]
  simp

theorem Shaped.documentOrder?_eq : t.documentOrder? = some t.documentOrder := by
  rw [documentOrder_eq]
  exact h.walk?_eq (fun _ hx => below?_eq hx) fun _ => List.Sublist.refl _

theorem Shaped.liveOrder?_eq : t.liveOrder? = some t.liveOrder :=
  h.walk?_eq (fun _ hx => children?_eq hx) fun _ => List.sublist_append_left ..

theorem Shaped.named?_eq (name : Text) : t.named? name = some (t.named name) := by
  rw [named?, h.documentOrder?_eq]
  rfl

theorem Shaped.targets?_eq (filter : Text) : t.targets? filter = some (t.targets filter) := by
  rw [targets?, h.liveOrder?_eq]
  refine filter?_eq fun id hid => ?_
  rw [isTarget?, isTarget]
  split
  · rfl
  · rw [node?_eq (h.lt_of_mem_documentOrder (h.live_subset hid))]
    rfl

end

/-! ## Going up -/

/-- The parent of a node, if it lists the node. -/
def listedUp (t : Tree) (id : NodeId) : List NodeId :=
  (t.up id).filter fun p => (t.below p).contains id

theorem mem_listedUp : p ∈ t.listedUp c ↔ (t.node c).parent = some p ∧ c ∈ t.below p := by
  rw [listedUp, List.mem_filter, up, Option.mem_toList, List.contains_iff_mem]

section
variable (h : Shaped t)
include h

/-- A parent that lists a node ranks above it. -/
theorem Shaped.ends_listedUp (hx : x < t.size) : Ends t.listedUp t.size x := by
  obtain ⟨rank, hr⟩ := h.ranked
  have hup : ∀ x y, TransGen (Under t.listedUp) x y → rank x < rank y := fun x y hxy => by
    induction hxy with
    | single hy => exact hr _ _ (mem_listedUp.1 hy).2
    | tail _ hy ih => exact ih.trans (hr _ _ (mem_listedUp.1 hy).2)
  refine ends_of_irrefl (fun x hxx => lt_irrefl _ (hup x x hxx)) (fun c p hp => ?_) hx
  exact (h.below_lt p c (mem_listedUp.1 hp).2).1

/-- Above a node of the document all parents list the node that they are reached from. -/
theorem Shaped.ends_up (hx : x ∈ t.documentOrder) : Ends t.up t.size x := by
  have hends := h.ends_listedUp (h.lt_of_mem_documentOrder hx)
  generalize t.size = d at hends
  induction d generalizing x with
  | zero => exact hends.elim
  | succ d ih =>
    intro p hp
    rw [up, Option.mem_toList] at hp
    rcases (h.mem_documentOrder.1 hx).cases_tail with rfl | ⟨q, hq, hc⟩
    · rw [Node.parent, h.top] at hp
      cases hp
    · obtain rfl : p = q := Option.some.inj (hp.symm.trans (h.parent_below hc))
      exact ih (h.mem_documentOrder.2 hq) (hends p (mem_listedUp.2 ⟨hp, hc⟩))

theorem Shaped.inScope?_eq (scope : Text) (hx : x ∈ t.documentOrder) :
    t.inScope? scope x = some (t.inScope scope x) := by
  rw [inScope?, scopeLoop, inScope]
  split
  · rfl
  · exact underLoop_eq (h.ends_up hx) (Nat.le_succ _) (Nat.le_succ _)

theorem Shaped.depth?_eq (hx : x ∈ t.documentOrder) : t.depth? x = some (t.depth x) :=
  depthLoop_eq (h.ends_up hx) le_rfl le_rfl

omit h in
theorem isLiveWithin?_eq {steps' : Nat} (ht : t.Housed) (h : Ends t.listedUp d x) (hs : d ≤ steps)
    (hs' : d ≤ steps') : t.isLiveWithin? steps x = some (t.isLiveWithin steps' x) := by
  induction d generalizing x steps steps' with
  | zero => exact h.elim
  | succ d ih =>
    obtain ⟨steps, rfl⟩ : ∃ n, steps = n + 1 := ⟨steps - 1, by omega⟩
    obtain ⟨steps', rfl⟩ : ∃ n, steps' = n + 1 := ⟨steps' - 1, by omega⟩
    rw [isLiveWithin?, isLiveWithin]
    split
    · rfl
    · cases hp : (t.node x).parent with
      | none => rfl
      | some p =>
        dsimp only
        rw [bind_eq_of_some (children?_eq ((ht x).2 p hp))]
        cases hc : (t.children p).contains x with
        | false => rfl
        | true =>
          rw [if_pos rfl, Bool.true_and]
          exact ih (h p (mem_listedUp.2 ⟨hp, List.mem_append_left _ (List.contains_iff_mem.1 hc)⟩))
            (Nat.le_of_succ_le_succ hs) (Nat.le_of_succ_le_succ hs')

theorem Shaped.isLive?_eq (ht : t.Housed) (x : NodeId) : t.isLive? x = some (t.isLive x) := by
  rcases Nat.lt_or_ge x t.size with hx | hx
  · exact isLiveWithin?_eq ht (h.ends_listedUp hx) (Nat.le_succ _) (Nat.le_succ _)
  · have hend : Ends t.listedUp (t.size + 1) x := fun p hp => by
      have := (mem_listedUp.1 hp).1
      rw [node_eq_default hx] at this
      cases this
    exact isLiveWithin?_eq ht hend le_rfl le_rfl

end

end GlyphTree.Tree
