import GlyphTree.Proofs.Folding
import GlyphTree.Proofs.Walks

/-!
# Well-formed trees

Every node of a well-formed tree is laid out, no node is below itself, and the stack of unfolded
nodes holds each of them that is listed anywhere, once. An operation that changes only some nodes
(`Kept`) leaves the layouts of all others as they are, so what is left to prove of it is how it
changes those few.
-/

namespace GlyphTree.Tree

open Cells

/-- The nodes directly below a node in document order. -/
def below (t : Tree) (p : NodeId) : List NodeId := t.children p ++ t.expandedChildren p

theorem documentOrder_eq (t : Tree) : t.documentOrder = preorder t.below t.size root := rfl

/-- No node is its own ancestor. -/
def Acyclic (t : Tree) : Prop := ∀ x, ¬ Relation.TransGen (Under t.below) x x

/-- What holds of a well-formed tree apart from its stack of unfolded nodes. -/
structure Shaped (t : Tree) : Prop where
  root : root < t.size
  top : (t.node Tree.root).place = none
  topFold : (t.node Tree.root).fold = none
  layout : ∀ p, p < t.size → ∃ cs, Layout t p cs
  hollow : ∀ p, (t.node p).isUnfolded = true → Layout t p []
  expandedNodup : ∀ p, (t.expandedChildren p).Nodup
  expandedParent : ∀ p, ∀ c ∈ t.expandedChildren p,
    (t.node c).parent = some p ∧ c ∉ t.children p
  ranked : Ranked t.below

/-- A list holds just once each unfolded node that is in a list of children, and only unfolded
nodes. -/
structure Stacked (t : Tree) (folds : List NodeId) : Prop where
  nodup : folds.Nodup
  unfolded : ∀ c ∈ folds, (t.node c).isUnfolded = true
  listed : ∀ p, ∀ c ∈ t.children p, (t.node c).isUnfolded = true → c ∈ folds

/-- A tree in which all nodes are laid out and nothing is below itself. -/
structure WellFormed (t : Tree) : Prop where
  shaped : Shaped t
  stacked : Stacked t t.folds

section
variable {t t' : Tree} {p q c : NodeId} {S folds : List NodeId} {cs : Cells}

/-! ## Nodes in lists -/

theorem Shaped.exists_layout (h : Shaped t) (hc : c ∈ t.children p) : ∃ cs, Layout t p cs :=
  h.layout p (lt_size_of_mem_children hc)

theorem Shaped.parent (h : Shaped t) (hc : c ∈ t.children p) : (t.node c).parent = some p := by
  obtain ⟨cs, hl⟩ := h.exists_layout hc
  exact hl.parent hc

theorem Shaped.parent_unique (h : Shaped t) (hp : c ∈ t.children p) (hq : c ∈ t.children q) :
    p = q := Option.some.inj ((h.parent hp).symm.trans (h.parent hq))

theorem Shaped.parent_below (h : Shaped t) (hc : c ∈ t.below p) : (t.node c).parent = some p := by
  rcases List.mem_append.1 hc with hc | hc
  · exact h.parent hc
  · exact (h.expandedParent p c hc).1

theorem lt_size_of_mem_expanded (h : c ∈ t.expandedChildren p) : p < t.size := by
  rcases Nat.lt_or_ge p t.size with hlt | hge
  · exact hlt
  · rw [expandedChildren, node_eq_default hge] at h
    cases h

/-- The root is below no node. -/
theorem Shaped.root_not_below (h : Shaped t) : Tree.root ∉ t.below p := by
  intro hc
  have := h.parent_below hc
  rw [Node.parent, h.top] at this
  cases this

theorem Shaped.root_not_child (h : Shaped t) : Tree.root ∉ t.children p := fun hc =>
  h.root_not_below (List.mem_append_left _ hc)

theorem Shaped.below_lt (h : Shaped t) : ∀ p, ∀ c ∈ t.below p, p < t.size ∧ c < t.size := by
  intro p c hc
  refine ⟨?_, lt_size_of_parent (h.parent_below hc)⟩
  rcases List.mem_append.1 hc with hc | hc
  · exact lt_size_of_mem_children hc
  · exact lt_size_of_mem_expanded hc

theorem Shaped.children_nodup (h : Shaped t) (p : NodeId) : (t.children p).Nodup := by
  rcases Nat.lt_or_ge p t.size with hlt | hge
  · obtain ⟨cs, hl⟩ := h.layout p hlt
    rw [hl.children]
    exact hl.nested.nodup
  · rw [children, node_eq_default hge]
    exact .nil

theorem Shaped.below_nodup (h : Shaped t) (p : NodeId) : (t.below p).Nodup := by
  refine List.nodup_append.2 ⟨h.children_nodup p, h.expandedNodup p, ?_⟩
  rintro c hc d hd rfl
  exact (h.expandedParent p c hd).2 hc

theorem Shaped.below_unique (h : Shaped t) :
    ∀ p q c, c ∈ t.below p → c ∈ t.below q → p = q := fun _ _ _ hp hq =>
  Option.some.inj ((h.parent_below hp).symm.trans (h.parent_below hq))

theorem Shaped.not_below_self (h : Shaped t) (p : NodeId) : p ∉ t.below p := fun hp =>
  h.ranked.irrefl p (.single hp)

/-- Walks as deep as there are nodes go as deep as there are nodes below nodes. -/
theorem Shaped.ends (h : Shaped t) (hp : p < t.size) : Ends t.below t.size p :=
  h.ranked.ends (fun p c hc => (h.below_lt p c hc).2) hp

/-! ## Orders -/

theorem Shaped.ranked_children (h : Shaped t) : Ranked t.children :=
  h.ranked.imp fun _ hr p c hc => hr p c (List.mem_append_left _ hc)

theorem Shaped.lt_of_under (h : Shaped t) (hp : p < t.size)
    (hx : Relation.ReflTransGen (Under t.below) p c) : c < t.size := by
  cases hx with
  | refl => exact hp
  | tail _ hc => exact (h.below_lt _ _ hc).2

theorem Shaped.mem_documentOrder (h : Shaped t) :
    c ∈ t.documentOrder ↔ Relation.ReflTransGen (Under t.below) Tree.root c :=
  mem_preorder (h.ends h.root)

theorem Shaped.nodup_documentOrder (h : Shaped t) : t.documentOrder.Nodup :=
  nodup_preorder h.ranked.irrefl h.below_unique h.below_nodup (h.ends h.root)

theorem Shaped.ends_children (h : Shaped t) (hp : p < t.size) : Ends t.children t.size p :=
  h.ranked_children.ends (fun p c hc => (h.below_lt p c (List.mem_append_left _ hc)).2) hp

theorem Shaped.mem_liveOrder (h : Shaped t) :
    c ∈ t.liveOrder ↔ Relation.ReflTransGen (Under t.children) Tree.root c :=
  mem_preorder (h.ends_children h.root)

theorem Shaped.nodup_liveOrder (h : Shaped t) : t.liveOrder.Nodup :=
  nodup_preorder h.ranked_children.irrefl (fun _ _ _ => h.parent_unique) h.children_nodup
    (h.ends_children h.root)

/-- What is live is in the document. -/
theorem Shaped.live_subset (h : Shaped t) (hc : c ∈ t.liveOrder) : c ∈ t.documentOrder :=
  h.mem_documentOrder.2 <| Relation.ReflTransGen.mono
    (fun p c (hc : c ∈ t.children p) => (List.mem_append_left _ hc : c ∈ t.below p)) _ _
    (h.mem_liveOrder.1 hc)

theorem Shaped.lt_of_mem_documentOrder (h : Shaped t) (hc : c ∈ t.documentOrder) : c < t.size :=
  h.lt_of_under h.root (h.mem_documentOrder.1 hc)

/-! ## Changes to some nodes -/

/-- `t'` is `t` after changes to the nodes `S`, to what is listed there, and by fresh nodes. -/
structure Kept (S : List NodeId) (t t' : Tree) : Prop where
  size : t.size ≤ t'.size
  content : ∀ j, j < t.size → j ∉ S →
    (t'.node j).text = (t.node j).text ∧ t'.children j = t.children j ∧
      (t'.node j).fold = (t.node j).fold
  stands : ∀ j, j < t.size → (∀ q ∈ S, j ∉ t.children q) →
    (t'.node j).place = (t.node j).place ∧ (t'.node j).fold = (t.node j).fold
  kids : ∀ q, q ∈ S ∨ t.size ≤ q → ∀ c ∈ t'.children q, c < t.size → ∃ s ∈ S, c ∈ t.children s

/-- A node that is not changed itself is laid out as before, if its children are listed nowhere
else. -/
theorem Kept.frame (k : Kept S t t') (hl : Layout t q cs) (hq : q ∉ S)
    (hu : ∀ c ∈ t.children q, ∀ s, c ∈ t.children s → q = s) : Layout t' q cs := by
  obtain ⟨ht, hc, -⟩ := k.content q hl.lt hq
  apply hl.frame (Nat.lt_of_lt_of_le hl.lt k.size) ht hc
  intro i hi
  exact k.stands i (hl.lt_size hi) fun s hs his => hq (hu i hi s his ▸ hs)

theorem Kept.layout (k : Kept S t t') (h : Shaped t) (hl : Layout t q cs) (hq : q ∉ S) :
    Layout t' q cs :=
  k.frame hl hq fun _ hi _ his => h.parent_unique hi his

/-- Where an old node is listed, it was listed before. -/
theorem Kept.listed (k : Kept S t t') (hc : c ∈ t'.children q) (hlt : c < t.size) :
    ∃ s, c ∈ t.children s := by
  by_cases hq : q ∈ S ∨ t.size ≤ q
  · obtain ⟨s, -, hs⟩ := k.kids q hq c hc hlt
    exact ⟨s, hs⟩
  · rw [not_or] at hq
    exact ⟨q, (k.content q (Nat.not_le.1 hq.2) hq.1).2.1 ▸ hc⟩

/-- Expanded nodes stay where they are. -/
theorem Kept.expandedParent (k : Kept S t t') (h : Shaped t)
    (hc : c ∈ t.expandedChildren p) : (t'.node c).parent = some p ∧ c ∉ t'.children p := by
  obtain ⟨hpar, hnot⟩ := h.expandedParent p c hc
  have hlt := lt_size_of_parent hpar
  have hfree : ∀ s, c ∉ t.children s := fun s hs =>
    hnot (Option.some.inj (hpar.symm.trans (h.parent hs)) ▸ hs)
  refine ⟨?_, fun hc' => ?_⟩
  · rw [Node.parent, (k.stands c hlt fun s _ => hfree s).1]
    exact hpar
  · obtain ⟨s, hs⟩ := k.listed hc' hlt
    exact hfree s hs

theorem Shaped.kept (h : Shaped t) (k : Kept S t t')
    (hl : ∀ q, q ∈ S ∨ t.size ≤ q → q < t'.size → ∃ cs, Layout t' q cs)
    (hh : ∀ q, q ∈ S ∨ t.size ≤ q → (t'.node q).isUnfolded = true → Layout t' q [])
    (he : ∀ p, t'.expandedChildren p = t.expandedChildren p) (hr : Ranked t'.below) :
    Shaped t' where
  root := Nat.lt_of_lt_of_le h.root k.size
  top := (k.stands Tree.root h.root fun _ _ => h.root_not_child).1.trans h.top
  topFold := (k.stands Tree.root h.root fun _ _ => h.root_not_child).2.trans h.topFold
  layout p hp := by
    by_cases hS : p ∈ S ∨ t.size ≤ p
    · exact hl p hS hp
    · rw [not_or] at hS
      obtain ⟨cs, hcs⟩ := h.layout p (Nat.not_le.1 hS.2)
      exact ⟨cs, k.layout h hcs hS.1⟩
  hollow p hp := by
    by_cases hS : p ∈ S ∨ t.size ≤ p
    · exact hh p hS hp
    · rw [not_or] at hS
      obtain ⟨-, -, hf⟩ := k.content p (Nat.not_le.1 hS.2) hS.1
      rw [Node.isUnfolded_congr hf] at hp
      exact k.layout h (h.hollow p hp) hS.1
  expandedNodup p := he p ▸ h.expandedNodup p
  expandedParent p c hc := k.expandedParent h (he p ▸ hc)
  ranked := hr

theorem Stacked.kept (h : Stacked t folds) (k : Kept S t t')
    (hu : ∀ j, (t'.node j).isUnfolded = (t.node j).isUnfolded) : Stacked t' folds where
  nodup := h.nodup
  unfolded c hc := (hu c).trans (h.unfolded c hc)
  listed p c hc hcu := by
    rw [hu] at hcu
    have hlt : c < t.size := by
      rcases Nat.lt_or_ge c t.size with hlt | hge
      · exact hlt
      · rw [node_eq_default hge] at hcu
        cases hcu
    obtain ⟨s, hs⟩ := k.listed hc hlt
    exact h.listed s c hs hcu

end

/-! ## Trees that differ in names and groups only -/

/-- The trees differ at most in names, in group tables, and beside their nodes. -/
structure Alike (t t' : Tree) : Prop where
  size : t'.size = t.size
  node : ∀ j, ∃ name groups, t'.node j = { t.node j with name, groups }

section
variable {t t' t'' : Tree} {p j : NodeId} {cs : Cells} {folds : List NodeId}

theorem Alike.refl (t : Tree) : Alike t t := ⟨rfl, fun _ => ⟨_, _, rfl⟩⟩

theorem Alike.trans (h : Alike t t') (h' : Alike t' t'') : Alike t t'' := by
  refine ⟨h'.size.trans h.size, fun j => ?_⟩
  obtain ⟨n, g, hn⟩ := h.node j
  obtain ⟨n', g', hn'⟩ := h'.node j
  exact ⟨n', g', by rw [hn', hn]⟩

theorem Alike.text (h : Alike t t') (j : NodeId) : (t'.node j).text = (t.node j).text := by
  obtain ⟨n, g, hn⟩ := h.node j
  rw [hn]

theorem Alike.children (h : Alike t t') (j : NodeId) : t'.children j = t.children j := by
  obtain ⟨n, g, hn⟩ := h.node j
  rw [Tree.children, hn]
  rfl

theorem Alike.expandedChildren (h : Alike t t') (j : NodeId) :
    t'.expandedChildren j = t.expandedChildren j := by
  obtain ⟨n, g, hn⟩ := h.node j
  rw [Tree.expandedChildren, hn]
  rfl

theorem Alike.place (h : Alike t t') (j : NodeId) : (t'.node j).place = (t.node j).place := by
  obtain ⟨n, g, hn⟩ := h.node j
  rw [hn]

theorem Alike.fold (h : Alike t t') (j : NodeId) : (t'.node j).fold = (t.node j).fold := by
  obtain ⟨n, g, hn⟩ := h.node j
  rw [hn]

theorem Alike.kept (h : Alike t t') : Kept [] t t' where
  size := Nat.le_of_eq h.size.symm
  content j _ _ := ⟨h.text j, h.children j, h.fold j⟩
  stands j _ _ := ⟨h.place j, h.fold j⟩
  kids q hq c hc _ := by
    have hge : t'.size ≤ q := by
      rcases hq with hq | hq
      · cases hq
      · exact h.size ▸ hq
    rw [Tree.children, node_eq_default hge] at hc
    cases hc

theorem Alike.below (h : Alike t t') : t'.below = t.below := by
  funext j
  rw [Tree.below, Tree.below, h.children, h.expandedChildren]

theorem Alike.documentOrder (h : Alike t t') : t'.documentOrder = t.documentOrder := by
  rw [documentOrder_eq, documentOrder_eq, h.below, h.size]

theorem Shaped.alike (hs : Shaped t) (h : Alike t t') : Shaped t' :=
  hs.kept h.kept
    (fun q hq hlt => hs.layout q (h.size ▸ hlt) |>.imp fun _ hl => h.kept.layout hs hl (by simp))
    (fun q _ hu => by
      rw [Node.isUnfolded_congr (h.fold q)] at hu
      exact h.kept.layout hs (hs.hollow q hu) (by simp))
    h.expandedChildren (h.below ▸ hs.ranked)

theorem Stacked.alike (hs : Stacked t folds) (h : Alike t t') : Stacked t' folds :=
  hs.kept h.kept fun j => Node.isUnfolded_congr (h.fold j)

/-- A change of names and groups keeps a tree well-formed, if it keeps the stack. -/
theorem WellFormed.alike (hw : WellFormed t) (h : Alike t t') (hf : t'.folds = t.folds) :
    WellFormed t' := ⟨hw.shaped.alike h, hf ▸ hw.stacked.alike h⟩

end

end GlyphTree.Tree
