import GlyphTree.Proofs.Failures

/-!
# Links

Three records say how nodes are linked: the parent that a node names, the lists of hidden and unfolded
children, and the lists of expanded ones. `Linked` says that the lists agree with the parents and that
parents lead to no circle; `Tied` says so too, but may leave circles out of the question. Neither
says anything about texts and spans, so they outlast what spoils layouts: empty regions, and content
moved to or from unfolded nodes. A node whose parent no longer lists it keeps the parent it had.

Whatever changes links is built from two moves: taking nodes off lists (`Pruned`), and putting a node
that is on no list below another one (`Joined`).
-/

namespace GlyphTree.Tree

open Relation

variable {t t' t'' : Tree} {p q c id j : NodeId} {rank : NodeId → Nat} {f : Node → Node}
  {circles : Prop}

/-- `p` is the parent that `c` names. -/
def IsParent (t : Tree) (c p : NodeId) : Prop := (t.node c).parent = some p

/-- `p` is on the chain of parents that starts at `c`. -/
def Above (t : Tree) (c p : NodeId) : Prop := TransGen t.IsParent c p

/-- A node is in no list of children, hidden or expanded. -/
def Unlisted (t : Tree) (c : NodeId) : Prop := ∀ p, c ∉ t.below p

/-- The lists agree with the parents, and ranks rise from each parent to its children. -/
structure LinkedBy (rank : NodeId → Nat) (t : Tree) : Prop where
  root : root < t.size
  top : (t.node Tree.root).parent = none
  parent : ∀ p, ∀ c ∈ t.below p, t.IsParent c p
  nodup : ∀ p, (t.below p).Nodup
  housed : ∀ c p, t.IsParent c p → p < t.size
  rises : ∀ c p, t.IsParent c p → rank p < rank c

/-- The lists agree with the parents, and no node is its own ancestor. -/
def Linked (t : Tree) : Prop := ∃ rank, LinkedBy rank t

/-- The lists agree with the parents, and ranks rise from each parent to its children. Nothing is said
about ranks if there may be `circles`. -/
structure TiedBy (circles : Prop) (rank : NodeId → Nat) (t : Tree) : Prop where
  root : root < t.size
  top : (t.node Tree.root).parent = none
  parent : ∀ p, ∀ c ∈ t.below p, t.IsParent c p
  nodup : ∀ p, (t.below p).Nodup
  housed : ∀ c p, t.IsParent c p → p < t.size
  rises : ∀ c p, t.IsParent c p → circles ∨ rank p < rank c

/-- The lists agree with the parents, and unless there may be `circles` no node is its own
ancestor. -/
def Tied (circles : Prop) (t : Tree) : Prop := ∃ rank, TiedBy circles rank t

/-! ## Chains of parents -/

theorem IsParent.lt (h : t.IsParent c p) : c < t.size := lt_size_of_parent h

theorem IsParent.unique (h : t.IsParent c p) (h' : t.IsParent c q) : p = q :=
  Option.some.inj (h.symm.trans h')

theorem LinkedBy.rank_lt (h : LinkedBy rank t) (ha : t.Above c p) : rank p < rank c := by
  induction ha with
  | single hp => exact h.rises _ _ hp
  | tail _ hp ih => exact Nat.lt_trans (h.rises _ _ hp) ih

theorem LinkedBy.not_above_self (h : LinkedBy rank t) (c : NodeId) : ¬ t.Above c c := fun ha =>
  Nat.lt_irrefl _ (h.rank_lt ha)

theorem LinkedBy.tiedBy (h : LinkedBy rank t) : TiedBy circles rank t :=
  { h with rises := fun c p hc => .inr (h.rises c p hc) }

/-- Links without circles are a case of links. -/
theorem linkedBy_iff : LinkedBy rank t ↔ TiedBy False rank t :=
  ⟨fun h => h.tiedBy,
    fun h => { h with rises := fun c p hc => (h.rises c p hc).resolve_left id }⟩

theorem linked_iff : Linked t ↔ Tied False t := exists_congr fun _ => linkedBy_iff

theorem Linked.tied (h : Linked t) : Tied False t := linked_iff.1 h

section
variable (h : TiedBy circles rank t)
include h

theorem TiedBy.linkedBy (hno : ¬ circles) : LinkedBy rank t :=
  { h with rises := fun c p hc => (h.rises c p hc).resolve_left hno }

theorem TiedBy.isParent_child (hc : c ∈ t.children p) : t.IsParent c p :=
  h.parent p c (List.mem_append_left _ hc)

theorem TiedBy.child_iff (hc : t.IsParent c p) (hq : c ∈ t.children q) : q = p :=
  (h.isParent_child hq).unique hc

theorem TiedBy.nodup_children (p : NodeId) : (t.children p).Nodup :=
  (List.nodup_append.1 (h.nodup p)).1

theorem TiedBy.lt_of_below (hc : c ∈ t.below p) : c < t.size := (h.parent p c hc).lt

theorem TiedBy.unlisted_of_le (hc : t.size ≤ c) : t.Unlisted c := fun _ hp =>
  Nat.not_lt.2 hc (h.lt_of_below hp)

theorem TiedBy.ne_root (hc : t.IsParent c p) : c ≠ Tree.root := by
  rintro rfl
  cases hc.symm.trans h.top

/-- There is room between a node and its children for the rank of a fresh node, or of one of the
children themselves. -/
theorem TiedBy.between (hp : p < t.size) (hq : t.IsParent q p ∨ t.size ≤ q) :
    ∃ rank', TiedBy circles rank' t ∧ (circles ∨ rank' p < rank' q) ∧
      ∀ c, t.IsParent c p → c ≠ q → circles ∨ rank' q < rank' c := by
  by_cases hcircles : circles
  · exact ⟨rank, h, .inl hcircles, fun _ _ _ => .inl hcircles⟩
  replace h := h.linkedBy hcircles
  have hpq : p ≠ q := by
    rintro rfl
    exact hq.elim (fun hq => h.not_above_self p (.single hq)) fun hq => Nat.not_lt.2 hq hp
  refine ⟨fun j => if j = q then 2 * rank p + 1 else 2 * rank j,
    { h with rises := fun c r hr => .inr ?_ }, .inr ?_, fun c hc hne => .inr ?_⟩
  · have hlt := h.rises c r hr
    by_cases hcq : c = q
    · -- the only parent of `q` is `p`
      subst hcq
      obtain rfl : r = p :=
        hq.elim (fun hq => hr.unique hq) fun hq => absurd hr.lt (Nat.not_lt.2 hq)
      simp only [if_pos, if_neg hpq]
      omega
    · by_cases hrq : r = q
      · subst hrq
        have hrise := hq.elim (h.rises r p) fun hq => absurd (h.housed c r hr) (Nat.not_lt.2 hq)
        simp only [if_neg hcq, if_pos]
        omega
      · simp only [if_neg hcq, if_neg hrq]
        omega
  · simp only [if_pos, if_neg hpq]
    omega
  · have hrise := h.rises c p hc
    simp only [if_pos, if_neg hne]
    omega

end

theorem TiedBy.tied (h : TiedBy circles rank t) : Tied circles t := ⟨rank, h⟩

theorem LinkedBy.ne_root (h : LinkedBy rank t) (hc : t.IsParent c p) : c ≠ Tree.root :=
  (linkedBy_iff.1 h).ne_root hc

/-! ## Taking nodes off lists -/

/-- Nodes may go off lists and from one list of a node to the other. -/
theorem TiedBy.of_below (h : TiedBy circles rank t) (hsize : t'.size = t.size)
    (hparent : ∀ j, (t'.node j).parent = (t.node j).parent)
    (hbelow : ∀ p, (t'.below p).Subperm (t.below p)) : TiedBy circles rank t' where
  root := hsize ▸ h.root
  top := (hparent _).trans h.top
  parent p c hc := (hparent c).trans (h.parent p c ((hbelow p).subset hc))
  nodup p := by
    obtain ⟨l, hl, hs⟩ := hbelow p
    exact hl.nodup_iff.1 ((h.nodup p).sublist hs)
  housed c p hc := hsize ▸ h.housed c p ((hparent c).symm.trans hc)
  rises c p hc := h.rises c p ((hparent c).symm.trans hc)

/-- `t'` is `t` with some nodes taken off lists of children, if not just with other texts, spans or
names. -/
structure Pruned (t t' : Tree) : Prop where
  size : t'.size = t.size
  parent : ∀ j, (t'.node j).parent = (t.node j).parent
  children : ∀ p, (t'.children p).Sublist (t.children p)
  expanded : ∀ p, t'.expandedChildren p = t.expandedChildren p

theorem Pruned.refl (t : Tree) : Pruned t t :=
  ⟨rfl, fun _ => rfl, fun _ => .refl _, fun _ => rfl⟩

theorem Pruned.trans (h : Pruned t t') (h' : Pruned t' t'') : Pruned t t'' :=
  ⟨h'.size.trans h.size, fun j => (h'.parent j).trans (h.parent j), fun p =>
    (h'.children p).trans (h.children p), fun p => (h'.expanded p).trans (h.expanded p)⟩

theorem Pruned.isParent (h : Pruned t t') : t'.IsParent c p ↔ t.IsParent c p := by
  rw [IsParent, IsParent, h.parent]

theorem Pruned.below (h : Pruned t t') (p : NodeId) : (t'.below p).Sublist (t.below p) := by
  rw [Tree.below, Tree.below, h.expanded]
  exact (h.children p).append_right _

theorem Pruned.unlisted (h : Pruned t t') (hc : t.Unlisted c) : t'.Unlisted c := fun p hp =>
  hc p ((h.below p).subset hp)

theorem TiedBy.pruned (h : TiedBy circles rank t) (hp : Pruned t t') : TiedBy circles rank t' :=
  h.of_below hp.size hp.parent fun p => (hp.below p).subperm

theorem Tied.pruned (h : Tied circles t) (hp : Pruned t t') : Tied circles t' := by
  obtain ⟨rank, h⟩ := h
  exact (h.pruned hp).tied

/-- A child taken off its parent's list is on no list. -/
theorem TiedBy.unlisted (h : TiedBy circles rank t) (hp : Pruned t t') (hc : c ∈ t.children p)
    (hnot : c ∉ t'.children p) : t'.Unlisted c := by
  intro q hq
  have hcq := h.parent q c ((hp.below q).subset hq)
  obtain rfl := (h.parent p c (List.mem_append_left _ hc)).unique hcq
  rcases List.mem_append.1 hq with hq | hq
  · exact hnot hq
  · exact (List.nodup_append.1 (h.nodup p)).2.2 c hc c (hp.expanded p ▸ hq) rfl

/-- Links are all between nodes, whatever stands beside these. -/
theorem pruned_of_nodes (hn : t'.nodes = t.nodes) : Pruned t t' := by
  have hnode : t'.node = t.node := by
    funext j
    rw [node, node, hn]
  refine ⟨congrArg Array.size hn, fun j => by rw [hnode], fun p => ?_, fun p => ?_⟩
  · rw [Tree.children, hnode]
    exact .refl _
  · rw [expandedChildren, hnode]
    rfl

theorem pruned_modify (hparent : (f (t.node id)).parent = (t.node id).parent)
    (hchildren : (f (t.node id)).children.Sublist (t.node id).children)
    (hexpanded : (f (t.node id)).expanded = (t.node id).expanded) : Pruned t (t.modify id f) := by
  refine ⟨size_modify t id f, fun j => ?_, fun p => ?_, fun p => ?_⟩
  · rw [node_modify]
    split
    · rename_i hj
      exact hj.1 ▸ hparent
    · rfl
  · rw [Tree.children, node_modify]
    split
    · rename_i hp
      exact hp.1 ▸ hchildren
    · exact .refl _
  · rw [expandedChildren, node_modify]
    split
    · rename_i hp
      exact hp.1 ▸ hexpanded
    · rfl

theorem pruned_foldl {α : Type} {g : Tree → α → Tree} (hg : ∀ t x, Pruned t (g t x)) (l : List α)
    (t : Tree) : Pruned t (l.foldl g t) := by
  induction l generalizing t with
  | nil => exact .refl t
  | cons x l ih => exact (hg t x).trans (ih (g t x))

theorem pruned_setChildren {ks : List NodeId} (h : ks.Sublist (t.children p)) :
    Pruned t (t.setChildren p ks) := pruned_modify rfl h rfl

theorem pruned_followEdits (es : List Edit) (t : Tree) (c : NodeId) :
    Pruned t (t.modify c (followEdits es)) := by
  refine pruned_modify ?_ ?_ (by rw [followEdits_expanded])
  · rw [Node.parent, followEdits_place, Node.parent, Option.map_map]
    rfl
  · rw [followEdits_children]

/-- Rewriting a text changes no link. -/
theorem pruned_rewrite (t : Tree) (p : NodeId) (es : List Edit) : Pruned t (t.rewrite p es) := by
  unfold rewrite
  split
  · exact .refl t
  · have htext : Pruned t (t.modify p fun n => { n with text := applyEdits n.text es }) :=
      pruned_modify rfl (.refl _) rfl
    have hfollow := htext.trans (pruned_foldl (pruned_followEdits es)
      ((t.modify p fun n => { n with text := applyEdits n.text es }).children p) _)
    have hgroups : ∀ u : Tree, Pruned u (u.modify p fun n => n.mapGroups (some <| remapSpan · es)) :=
      fun u => pruned_modify rfl (.refl _) rfl
    exact hfollow.trans (hgroups _)

theorem pruned_rename (t : Tree) (id : NodeId) (name : Text) : Pruned t (t.rename id name) := by
  have h := alike_rename t id name
  refine ⟨h.size, fun j => ?_, fun p => ?_, h.expandedChildren⟩
  · rw [Node.parent, h.place, Node.parent]
  · rw [h.children]

/-- A child taken off its parent's list. -/
theorem TiedBy.takenOff (h : TiedBy circles rank t) (hid : id ∈ t.children p) :
    let t' := t.setChildren p ((t.children p).filter (· != id))
    Pruned t t' ∧ t'.Unlisted id := by
  have hoff : Pruned t (t.setChildren p ((t.children p).filter (· != id))) :=
    pruned_setChildren List.filter_sublist
  refine ⟨hoff, h.unlisted hoff hid ?_⟩
  rw [children, node_setChildren _ (lt_size_of_mem_children hid), if_pos rfl]
  simp

/-! ## Putting a node below another one -/

/-- `t'` is `t` with `c` put below `q`. -/
structure Joined (t t' : Tree) (q c : NodeId) : Prop where
  size : t'.size = t.size
  parent : ∀ j, (t'.node j).parent = if j = c then some q else (t.node j).parent
  below : ∀ r, (t'.below r).Perm (if r = q then c :: t.below r else t.below r)

theorem Joined.isParent (h : Joined t t' q c) (hj : j ≠ c) :
    t'.IsParent j p ↔ t.IsParent j p := by
  rw [IsParent, h.parent, if_neg hj, IsParent]

theorem Joined.unlisted (h : Joined t t' q c) (hj : t.Unlisted j) (hne : j ≠ c) :
    t'.Unlisted j := by
  intro r hr
  have hmem := (h.below r).subset hr
  split at hmem
  · exact (List.mem_cons.1 hmem).elim hne (hj r)
  · exact hj r hmem

/-- A node that is on no list may be put below one of lower rank. -/
theorem TiedBy.joined (h : TiedBy circles rank t) (hj : Joined t t' q c) (hq : q < t.size)
    (hroot : c ≠ Tree.root) (hfree : t.Unlisted c) (hrank : circles ∨ rank q < rank c) :
    TiedBy circles rank t' where
  root := hj.size ▸ h.root
  top := by rw [hj.parent, if_neg hroot.symm, h.top]
  parent p i hi := by
    have hmem := (hj.below p).subset hi
    rw [IsParent, hj.parent]
    by_cases hic : i = c
    · rw [if_pos hic]
      by_cases hpq : p = q
      · rw [hpq]
      · rw [if_neg hpq, hic] at hmem
        exact absurd hmem (hfree p)
    · rw [if_neg hic]
      split at hmem
      · exact h.parent p i ((List.mem_cons.1 hmem).resolve_left hic)
      · exact h.parent p i hmem
  nodup p := by
    refine (hj.below p).nodup_iff.2 ?_
    split
    · exact List.nodup_cons.2 ⟨hfree p, h.nodup p⟩
    · exact h.nodup p
  housed i p hi := by
    rw [IsParent, hj.parent] at hi
    rw [hj.size]
    split at hi
    · exact Option.some.inj hi ▸ hq
    · exact h.housed i p hi
  rises i p hi := by
    rw [IsParent, hj.parent] at hi
    split at hi
    · rename_i hic
      exact Option.some.inj hi ▸ hic ▸ hrank
    · exact h.rises i p hi

theorem insertByStart_perm (t : Tree) (c : NodeId) (l : List NodeId) :
    (t.insertByStart c l).Perm (c :: l) := by
  induction l with
  | nil => exact .refl _
  | cons k l ih =>
    rw [insertByStart]
    split
    · exact .refl _
    · exact (ih.cons k).trans (.swap c k l)

theorem joined_putChild (hq : q < t.size) (hc : c < t.size) (s : Span) :
    Joined t (t.putChild q c s) q c := by
  have hnode : ∀ j, (t.modify c fun n => { n with place := some ⟨q, s⟩ }).node j =
      if j = c then { t.node j with place := some ⟨q, s⟩ } else t.node j := fun j => by
    rw [node_modify]
    by_cases hj : j = c
    · rw [if_pos ⟨hj, hj ▸ hc⟩, if_pos hj]
    · rw [if_neg fun e => hj e.1, if_neg hj]
  rw [putChild]
  generalize hu : (t.modify c fun n => { n with place := some ⟨q, s⟩ }) = u at hnode ⊢
  have hsize : u.size = t.size := hu ▸ size_modify t c _
  have hkids : ∀ r, u.children r = t.children r ∧ u.expandedChildren r = t.expandedChildren r :=
    fun r => by
      rw [children, expandedChildren, hnode]
      split <;> exact ⟨rfl, rfl⟩
  refine ⟨(size_setChildren u q _).trans hsize, fun j => ?_, fun r => ?_⟩
  · have hparent : ((u.setChildren q (u.insertByStart c (u.children q))).node j).parent =
        (u.node j).parent := by
      rw [node_setChildren _ (hsize ▸ hq)]
      split
      · rename_i hj
        rw [hj]
        rfl
      · rfl
    rw [hparent, hnode]
    split <;> rfl
  · rw [Tree.below, children, expandedChildren, node_setChildren _ (hsize ▸ hq)]
    split
    · rename_i hr
      subst hr
      have hperm := (insertByStart_perm u c (u.children r)).append_right (u.expandedChildren r)
      rw [Tree.below, ← (hkids r).1, ← (hkids r).2]
      exact hperm
    · rw [Tree.below, ← (hkids r).1, ← (hkids r).2]
      exact .refl _

/-! ## Moving children -/

/-- Nodes other than those in `S` keep their parents, and come onto no list. -/
structure Elsewhere (S : List NodeId) (t t' : Tree) : Prop where
  size : t.size ≤ t'.size
  parent : ∀ j, j < t.size → j ∉ S → (t'.node j).parent = (t.node j).parent
  unlisted : ∀ j, j < t.size → j ∉ S → t.Unlisted j → t'.Unlisted j

theorem Elsewhere.trans {S S' : List NodeId} (h : Elsewhere S t t') (h' : Elsewhere S' t' t'') :
    Elsewhere (S ++ S') t t'' where
  size := h.size.trans h'.size
  parent j hj hS := by
    rw [List.mem_append, not_or] at hS
    exact (h'.parent j (hj.trans_le h.size) hS.2).trans (h.parent j hj hS.1)
  unlisted j hj hS hu := by
    rw [List.mem_append, not_or] at hS
    exact h'.unlisted j (hj.trans_le h.size) hS.2 (h.unlisted j hj hS.1 hu)

theorem Elsewhere.refl (t : Tree) : Elsewhere [] t t := ⟨le_rfl, fun _ _ _ => rfl, fun _ _ _ => id⟩

theorem Elsewhere.weaken {S S' : List NodeId} (h : Elsewhere S t t') (hS : S ⊆ S') :
    Elsewhere S' t t' :=
  ⟨h.size, fun j hj hjS => h.parent j hj (mt (@hS j) hjS), fun j hj hjS =>
    h.unlisted j hj (mt (@hS j) hjS)⟩

theorem Elsewhere.isParent {S : List NodeId} (h : Elsewhere S t t') (hc : t.IsParent c p)
    (hS : c ∉ S) : t'.IsParent c p := (h.parent c hc.lt hS).trans hc

theorem Pruned.elsewhere (h : Pruned t t') : Elsewhere [] t t' :=
  ⟨h.size.ge, fun j _ _ => h.parent j, fun _ _ _ => h.unlisted⟩

theorem Joined.elsewhere (h : Joined t t' q c) : Elsewhere [c] t t' where
  size := h.size.ge
  parent j _ hj := by rw [h.parent, if_neg (mt List.mem_singleton.2 hj)]
  unlisted j _ hj hu := h.unlisted hu (mt List.mem_singleton.2 hj)

section
variable (h : TiedBy circles rank t)
include h

theorem TiedBy.putChild (hq : q < t.size) (hc : c < t.size) (hroot : c ≠ Tree.root)
    (hfree : t.Unlisted c) (hrank : circles ∨ rank q < rank c) (s : Span) :
    TiedBy circles rank (t.putChild q c s) ∧ Elsewhere [c] t (t.putChild q c s) :=
  have hj := joined_putChild hq hc s
  ⟨h.joined hj hq hroot hfree hrank, hj.elsewhere⟩

theorem TiedBy.moveChild (hq : q < t.size) (hc : t.IsParent c p) (hfree : t.Unlisted c)
    (hrank : circles ∨ rank q < rank c) (sub add : Nat) :
    TiedBy circles rank (t.moveChild q sub add c) ∧ Elsewhere [c] t (t.moveChild q sub add c) := by
  have hmove : Pruned t (if (t.node c).isUnfolded then t.modify c (moveGroups sub add) else t) := by
    split
    · exact pruned_modify rfl (.refl _) rfl
    · exact .refl t
  unfold Tree.moveChild
  dsimp only
  generalize (if (t.node c).isUnfolded then t.modify c (moveGroups sub add) else t) = u at hmove ⊢
  split
  · have hput := (h.pruned hmove).putChild (hmove.size ▸ hq) (hmove.size ▸ hc.lt) (h.ne_root hc)
      (hmove.unlisted hfree) hrank
    exact ⟨(hput _).1, hmove.elsewhere.trans (hput _).2⟩
  · exact ⟨h.pruned hmove, hmove.elsewhere.weaken (List.nil_subset _)⟩

/-- Moving nodes that are on no list below one of lower rank. -/
theorem TiedBy.gather {ks : List NodeId} (hnd : ks.Nodup) (hq : q < t.size)
    (hks : ∀ c ∈ ks, t.IsParent c p ∧ t.Unlisted c ∧ (circles ∨ rank q < rank c)) (sub add : Nat) :
    TiedBy circles rank (ks.foldl (fun t c => t.moveChild q sub add c) t) ∧
      Elsewhere ks t (ks.foldl (fun t c => t.moveChild q sub add c) t) := by
  induction ks generalizing t with
  | nil => exact ⟨h, .refl t⟩
  | cons c ks ih =>
    obtain ⟨hc, hnd⟩ := List.nodup_cons.1 hnd
    obtain ⟨⟨hparent, hfree, hrank⟩, hks⟩ := List.forall_mem_cons.1 hks
    obtain ⟨h', hapart⟩ := h.moveChild hq hparent hfree hrank sub add
    obtain ⟨h'', hrest⟩ := ih h' hnd (hq.trans_le hapart.size) fun i hi => by
      obtain ⟨hp, hf, hr⟩ := hks i hi
      have hic : i ∉ [c] := fun e => hc (List.mem_singleton.1 e ▸ hi)
      exact ⟨hapart.isParent hp hic, hapart.unlisted i hp.lt hic hf, hr⟩
    exact ⟨h'', hapart.trans hrest⟩

end

/-! ## Collapsing regions -/

/-- A fresh node that stands nowhere has no links. -/
theorem links_alloc {n : Node} (hn : n.place = none ∧ n.children = [] ∧ n.expanded = []) :
    (∀ j, ((t.alloc n).node j).parent = (t.node j).parent) ∧
      ∀ r, (t.alloc n).below r = t.below r := by
  obtain ⟨hplace, hkids, hexpanded⟩ := hn
  refine ⟨fun j => ?_, fun r => ?_⟩
  · rw [node_alloc]
    split
    · rename_i hj
      rw [hj, node_eq_default le_rfl, Node.parent, hplace]
      rfl
    · rfl
  · rw [Tree.below, Tree.below, children, children, expandedChildren, expandedChildren, node_alloc]
    split
    · rename_i hr
      rw [hr, node_eq_default le_rfl, hkids, hexpanded]
      rfl
    · rfl

theorem TiedBy.alloc (h : TiedBy circles rank t) {n : Node}
    (hn : n.place = none ∧ n.children = [] ∧ n.expanded = []) : TiedBy circles rank (t.alloc n) := by
  obtain ⟨hparent, hbelow⟩ := links_alloc (t := t) hn
  have hsize : t.size ≤ (t.alloc n).size := by simp
  refine ⟨h.root.trans_le hsize, (hparent _).trans h.top, fun r c hc => ?_, fun r => ?_,
    fun c r hc => ?_, fun c r hc => ?_⟩
  · rw [hbelow] at hc
    exact (hparent c).trans (h.parent r c hc)
  · rw [hbelow]
    exact h.nodup r
  · exact (h.housed c r ((hparent c).symm.trans hc)).trans_le hsize
  · exact h.rises c r ((hparent c).symm.trans hc)

theorem elsewhere_alloc {n : Node} (hn : n.place = none ∧ n.children = [] ∧ n.expanded = []) :
    Elsewhere [] t (t.alloc n) where
  size := by simp
  parent j _ _ := (links_alloc hn).1 j
  unlisted j _ _ hj r := by
    rw [(links_alloc hn).2]
    exact hj r

/-- A node that is on no list takes over children of `p`, and goes on the list of `p`. -/
theorem TiedBy.takeIn (h : TiedBy circles rank t) {ks : List NodeId} (hp : p < t.size)
    (hq : q < t.size) (hroot : q ≠ Tree.root) (hfree : t.Unlisted q) (hqks : q ∉ ks)
    (hpq : circles ∨ rank p < rank q) (hnd : ks.Nodup)
    (hks : ∀ c ∈ ks, t.IsParent c p ∧ t.Unlisted c ∧ (circles ∨ rank q < rank c)) (sub : Nat)
    (s : Span) :
    let t' := (ks.foldl (fun t c => t.moveChild q sub 0 c) t).putChild p q s
    TiedBy circles rank t' ∧ Elsewhere (ks ++ [q]) t t' := by
  obtain ⟨h', hapart⟩ := h.gather hnd hq hks sub 0
  obtain ⟨h'', hput⟩ := h'.putChild (hp.trans_le hapart.size) (hq.trans_le hapart.size) hroot
    (hapart.unlisted q hq hqks hfree) hpq s
  exact ⟨h'', hapart.trans hput⟩

section
variable {cut : Cut} {moved : List NodeId} (h : Tied circles t) (hp : p < t.size)
include h hp

/-- A fresh node takes over children of `p` that have been taken off its list. -/
theorem Tied.settle_fresh (hcut : ∃ name groups, cut.origin = .fresh name groups)
    (hnd : moved.Nodup) (hm : ∀ c ∈ moved, t.IsParent c p ∧ t.Unlisted c) (text : Text)
    (es : List Edit) :
    Tied circles (t.settle p text es cut moved) ∧
      Elsewhere moved t (t.settle p text es cut moved) := by
  obtain ⟨range, glyph, origin⟩ := cut
  obtain ⟨name, groups, rfl⟩ : ∃ name groups, origin = .fresh name groups := hcut
  obtain ⟨rank, h⟩ := h
  obtain ⟨rank', h, hpq, hrank⟩ := h.between (q := t.size) hp (.inr le_rfl)
  have hn : (⟨name, text.slice range, none, groups, none, [], []⟩ : Node).place = none ∧
    ([] : List NodeId) = [] ∧ ([] : List NodeId) = [] := ⟨rfl, rfl, rfl⟩
  have hfresh := elsewhere_alloc (t := t) hn
  have hfree : (t.alloc ⟨name, text.slice range, none, groups, none, [], []⟩).Unlisted t.size :=
    fun r hr => h.unlisted_of_le le_rfl r ((links_alloc hn).2 r ▸ hr)
  obtain ⟨h', hapart⟩ := (h.alloc hn).takeIn (q := t.size) (hp.trans_le hfresh.size) (by simp)
    (Nat.ne_of_gt h.root) hfree (fun hin => Nat.lt_irrefl _ (hm _ hin).1.lt) hpq hnd (fun c hc => by
      obtain ⟨hparent, hfree⟩ := hm c hc
      exact ⟨hfresh.isParent hparent (by simp), hfresh.unlisted c hparent.lt (by simp) hfree,
        hrank c hparent (Nat.ne_of_lt hparent.lt)⟩) range.start
    (Cut.landing es ⟨range, glyph, .fresh name groups⟩)
  have hall := hfresh.trans hapart
  have hout : ∀ j < t.size, j ∉ moved → j ∉ [] ++ (moved ++ [t.size]) := fun j hj hjm => by
    simpa [hjm] using Nat.ne_of_lt hj
  exact ⟨h'.tied, hall.size, fun j hj hjm => hall.parent j hj (hout j hj hjm),
    fun j hj hjm => hall.unlisted j hj (hout j hj hjm)⟩

/-- A child of `p` takes over others, when all of them have been taken off its list. -/
theorem Tied.settle_back {node : NodeId} {inner : Span} (hcut : cut.origin = .back node inner)
    (hnode : t.IsParent node p) (hfree : t.Unlisted node) (hnd : moved.Nodup)
    (hm : ∀ c ∈ moved, c ≠ node ∧ t.IsParent c p ∧ t.Unlisted c) (text : Text) (es : List Edit) :
    Tied circles (t.settle p text es cut moved) := by
  obtain ⟨range, glyph, origin⟩ := cut
  obtain rfl : origin = .back node inner := hcut
  obtain ⟨rank, h⟩ := h
  obtain ⟨rank', h, hpq, hrank⟩ := h.between hp (.inl hnode)
  have hbody : Pruned t (t.modify node fun n =>
      moveGroups inner.start 0 { n with text := text.slice inner, fold := none }) :=
    pruned_modify rfl (.refl _) rfl
  refine ((h.pruned hbody).takeIn (hbody.size ▸ hp) (hbody.size ▸ hnode.lt) (h.ne_root hnode)
    (hbody.unlisted hfree) (fun hin => (hm _ hin).1 rfl) hpq hnd (fun c hc => ?_) _ _).1.tied
  obtain ⟨hne, hparent, hfree⟩ := hm c hc
  exact ⟨hbody.isParent.2 hparent, hbody.unlisted hfree, hrank c hparent hne⟩

/-- Cuts of fresh nodes, settled one after the other. Children that one of the cuts takes over have
been taken off the list. -/
theorem Tied.settleAll {cuts : List Cut} {kids : List (NodeId × Span)}
    (hcuts : ∀ cut ∈ cuts, ∃ name groups, cut.origin = .fresh name groups)
    (hnd : (kids.map Prod.fst).Nodup) (hk : ∀ k ∈ kids, t.IsParent k.1 p)
    (hfree : ∀ k ∈ kids, ∀ cut ∈ cuts, cut.range.encloses k.2 = true → t.Unlisted k.1)
    (text : Text) (es : List Edit) : Tied circles (settleAll p text es cuts kids t) := by
  induction cuts generalizing t kids with
  | nil => exact h
  | cons cut cuts ih =>
    obtain ⟨hcut, hcuts⟩ := List.forall_mem_cons.1 hcuts
    have hsub : ((kids.filter fun k => cut.range.encloses k.2).map Prod.fst).Sublist
      (kids.map Prod.fst) := List.filter_sublist.map _
    obtain ⟨h', hapart⟩ := h.settle_fresh hp hcut (hsub.nodup hnd) (fun c hc => by
      obtain ⟨k, hk', rfl⟩ := List.mem_map.1 hc
      obtain ⟨hmem, henc⟩ := List.mem_filter.1 hk'
      exact ⟨hk k hmem, hfree k hmem cut (List.mem_cons_self ..) henc⟩) text es
    -- a child that stays behind is not among those taken over, since none is listed twice
    have hout : ∀ k ∈ kids.filter (fun k => !cut.range.encloses k.2),
        k ∈ kids ∧ k.1 ∉ (kids.filter fun k => cut.range.encloses k.2).map Prod.fst := by
      intro k hk'
      obtain ⟨hmem, hnot⟩ := List.mem_filter.1 hk'
      refine ⟨hmem, fun hin => ?_⟩
      obtain ⟨k', hk'', he⟩ := List.mem_map.1 hin
      obtain ⟨hmem', henc⟩ := List.mem_filter.1 hk''
      obtain rfl := List.inj_on_of_nodup_map hnd hmem' hmem he
      simp [henc] at hnot
    refine ih h' (hp.trans_le hapart.size) hcuts ?_ (fun k hk' => ?_) fun k hk' c hc henc => ?_
    · exact (List.filter_sublist.map _).nodup hnd
    · obtain ⟨hmem, hin⟩ := hout k hk'
      exact hapart.isParent (hk k hmem) hin
    · obtain ⟨hmem, hin⟩ := hout k hk'
      exact hapart.unlisted k.1 (hk k hmem).lt hin
        (hfree k hmem c (List.mem_cons_of_mem _ hc) henc)

end

/-- The children whose spans fulfil a condition, picked out along with their spans. -/
theorem filter_spans_fst {α β : Type} (f : β → Bool) (g : α → β) (l : List α) :
    ((l.map fun c => (c, g c)).filter fun k => f k.2).map Prod.fst = l.filter fun c => f (g c) := by
  rw [List.filter_map, List.map_map]
  simp [Function.comp_def]

section
variable (h : Tied circles t) (hp : p < t.size)
include h hp

/-- What splicing starts from: the children outside all cuts are listed, those inside are not. -/
theorem Tied.cleared (es : List Edit) (f : NodeId → Bool) :
    let t' := (t.setChildren p ((t.children p).filter f)).rewrite p es
    Tied circles t' ∧ p < t'.size ∧ (∀ c ∈ t.children p, t'.IsParent c p) ∧
      ∀ c ∈ t.children p, f c = false → t'.Unlisted c := by
  obtain ⟨rank, h⟩ := h
  have hcut : Pruned t (t.setChildren p ((t.children p).filter f)) :=
    pruned_setChildren List.filter_sublist
  have hall := hcut.trans (pruned_rewrite _ p es)
  have hparent : ∀ c ∈ t.children p, t.IsParent c p := fun c hc =>
    h.parent p c (List.mem_append_left _ hc)
  refine ⟨(h.pruned hall).tied, hall.size ▸ hp, fun c hc => hall.isParent.2 (hparent c hc),
    fun c hc hf => ?_⟩
  refine (pruned_rewrite _ p es).unlisted (h.unlisted hcut hc fun hmem => ?_)
  rw [children, node_setChildren _ hp, if_pos rfl] at hmem
  exact Bool.noConfusion (hf.symm.trans (List.mem_filter.1 hmem).2)

theorem Tied.splice {cuts : List Cut}
    (hcuts : ∀ cut ∈ cuts, ∃ name groups, cut.origin = .fresh name groups) :
    Tied circles (t.splice p cuts) := by
  obtain ⟨h', hp', hparent, hfree⟩ := h.cleared hp (cuts.map Cut.edit)
    fun c => !cuts.any fun cut => cut.range.encloses ((t.node c).span.getD ⟨0, 0⟩)
  have hnd : (t.children p).Nodup := by
    obtain ⟨rank, h⟩ := h
    exact (List.nodup_append.1 (h.nodup p)).1
  unfold Tree.splice
  dsimp only
  rw [filter_spans_fst (fun r => !cuts.any fun c => c.range.encloses r)]
  refine h'.settleAll hp' hcuts ?_ (fun k hk => ?_) (fun k hk cut hcut henc => ?_) _ _
  · simpa [Function.comp_def] using hnd
  · obtain ⟨c, hc, rfl⟩ := List.mem_map.1 hk
    exact hparent c hc
  · obtain ⟨c, hc, rfl⟩ := List.mem_map.1 hk
    refine hfree c hc ?_
    rw [Bool.not_eq_false']
    exact List.any_eq_true.2 ⟨cut, hcut, henc⟩

end

/-- A plan of fresh nodes. -/
theorem Tied.applyPlan {plan : Plan} (h : Tied circles t) (hplan : ∀ x ∈ plan, x.1 < t.size ∧
    ∀ cut ∈ x.2, ∃ name groups, cut.origin = .fresh name groups) :
    Tied circles (t.applyPlan plan) := by
  induction plan generalizing t with
  | nil => exact h
  | cons x plan ih =>
    obtain ⟨p, cuts⟩ := x
    obtain ⟨⟨hp, hcuts⟩, hplan⟩ := List.forall_mem_cons.1 hplan
    rw [Tree.applyPlan, List.foldl_cons]
    dsimp only
    split
    · exact ih h hplan
    · refine ih (h.splice hp hcuts) fun y hy => ⟨?_, (hplan y hy).2⟩
      rw [size_splice]
      exact (hplan y hy).1.trans_le (Nat.le_add_right _ _)

/-! ## Folding and unfolding -/

/-- A child of `p` goes back onto its list as the node of a cut, with those that the cut encloses. -/
theorem Tied.splice_back (h : Tied circles t) {cut : Cut} {inner : Span}
    (hcut : cut.origin = .back id inner) (hid : id ∈ t.children p) :
    Tied circles ((t.setChildren p ((t.children p).filter (· != id))).splice p [cut]) := by
  have hp := lt_size_of_mem_children hid
  obtain ⟨rank, h⟩ := h
  have hnd : (t.children p).Nodup := (List.nodup_append.1 (h.nodup p)).1
  obtain ⟨hoff, hfree⟩ := h.takenOff hid
  have hkids : (t.setChildren p ((t.children p).filter (· != id))).children p =
      (t.children p).filter (· != id) := by
    rw [children, node_setChildren _ hp, if_pos rfl]
  have hidp : t.IsParent id p := h.parent p id (List.mem_append_left _ hid)
  have hu := (h.pruned hoff).tied
  have hidu := hoff.isParent.2 hidp
  rw [← hoff.size] at hp
  generalize t.setChildren p ((t.children p).filter (· != id)) = u at hp hkids hfree hu hidu
  let stays := fun c => !List.any [cut] fun cut =>
    cut.range.encloses ((u.node c).span.getD ⟨0, 0⟩)
  have hcut' : Pruned u ((u.setChildren p ((u.children p).filter stays)).rewrite p
      ([cut].map Cut.edit)) := (pruned_setChildren List.filter_sublist).trans (pruned_rewrite _ p _)
  obtain ⟨h', hp', hparent, hcleared⟩ := hu.cleared hp ([cut].map Cut.edit) stays
  unfold Tree.splice
  dsimp only [settleAll]
  rw [filter_spans_fst (fun r => !List.any [cut] fun c => c.range.encloses r)]
  refine h'.settle_back hp' hcut (hcut'.isParent.2 hidu) (hcut'.unlisted hfree) ?_ (fun c hc => ?_)
    _ _
  · refine (List.filter_sublist.map _).nodup ?_
    simpa [Function.comp_def, hkids] using hnd.filter _
  · obtain ⟨k, hk, rfl⟩ := List.mem_map.1 hc
    obtain ⟨hmem, henc⟩ := List.mem_filter.1 hk
    obtain ⟨c, hcu, rfl⟩ := List.mem_map.1 hmem
    refine ⟨?_, hparent c hcu, hcleared c hcu (by simpa [stays] using henc)⟩
    rw [hkids] at hcu
    simpa using (List.mem_filter.1 hcu).2

theorem Tied.foldBack (h : Tied circles t) {events : List Event}
    (hf : t.foldBack id = some (t', events)) : Tied circles t' := by
  unfold Tree.foldBack at hf
  split at hf
  · split at hf
    · rename_i hmem
      obtain ⟨rfl, -⟩ := Prod.mk.inj (Option.some.inj hf)
      exact h.splice_back rfl (by simpa using hmem)
    · cases hf
  · cases hf

theorem Tied.restack (h : Tied circles t) (folds : List NodeId) : Tied circles { t with folds } :=
  h.pruned (pruned_of_nodes rfl)

theorem Tied.foldEach {ids : List NodeId} (h : Tied circles t) :
    Tied circles (foldEach ids t).tree := by
  induction ids generalizing t with
  | nil => exact h
  | cons id ids ih =>
    rw [Tree.foldEach]
    split
    · exact ih h
    · rename_i hf
      exact ih (h.foldBack hf)

theorem Tied.foldAll (h : Tied circles t) : Tied circles t.foldAll.tree :=
  (h.restack []).foldEach

/-- A node hands its children on to its parent, whose list it goes back onto. -/
theorem TiedBy.giveOut (h : TiedBy circles rank t) {ks : List NodeId} (hnd : ks.Nodup)
    (hid : t.IsParent id p) (hfree : t.Unlisted id) (hself : id ∉ ks)
    (hks : ∀ c ∈ ks, t.IsParent c id ∧ t.Unlisted c)
    (hf : ∀ u : Tree, Pruned u (u.modify id f)) (add : Nat) (s : Span) :
    TiedBy circles rank
      (((ks.foldl (fun t c => t.moveChild p 0 add c) t).modify id f).putChild p id s) := by
  have hp := h.housed id p hid
  obtain ⟨h', hapart⟩ := h.gather hnd hp (fun c hc => ⟨(hks c hc).1, (hks c hc).2,
    (h.rises id p hid).elim .inl fun hlt => (h.rises c id (hks c hc).1).imp_right hlt.trans⟩) 0 add
  have hfold := hf (ks.foldl (fun t c => t.moveChild p 0 add c) t)
  exact ((h'.pruned hfold).putChild (hfold.size ▸ hp.trans_le hapart.size)
    (hfold.size ▸ hid.lt.trans_le hapart.size) (h.ne_root hid)
    (hfold.unlisted (hapart.unlisted id hid.lt hself hfree)) (h.rises id p hid) s).1

/-- The children of a node go to its parent's list, and so does the node itself, which is listed
there already. -/
theorem Tied.unfoldAt (h : Tied circles t) {pl : Place} (hid : id ∈ t.children pl.parent)
    (hself : id ∉ t.children id) (F : Fold) : Tied circles (t.unfoldAt id pl F) := by
  obtain ⟨rank, h⟩ := h
  have hp := lt_size_of_mem_children hid
  have hidp : t.IsParent id pl.parent := h.parent _ id (List.mem_append_left _ hid)
  obtain ⟨hoff, hfree⟩ := h.takenOff hid
  unfold Tree.unfoldAt
  dsimp only
  generalize [Edit.mk pl.span (F.opening :: (t.node id).text ++ [F.closing])] = es
  have hrewrite := hoff.trans (pruned_rewrite _ pl.parent es)
  replace hfree := (pruned_rewrite _ pl.parent es).unlisted hfree
  generalize (t.setChildren pl.parent ((t.children pl.parent).filter (· != id))).rewrite pl.parent
    es = u at hrewrite hfree
  have hempty : Pruned u (u.modify id fun n => { n with text := [], children := [] }) :=
    pruned_modify rfl (List.nil_sublist _) rfl
  have hall := hrewrite.trans hempty
  have hkids : ∀ c ∈ t.children id,
      t.IsParent c id ∧ (u.modify id fun n => { n with text := [], children := [] }).Unlisted c :=
    fun c hc => ⟨h.parent id c (List.mem_append_left _ hc), h.unlisted hall hc (by
      rw [children, node_modify, if_pos ⟨rfl, hrewrite.size ▸ hidp.lt⟩]
      exact List.not_mem_nil)⟩
  refine Tied.restack ⟨rank, ?_⟩ _
  refine (h.pruned hall).giveOut (List.nodup_append.1 (h.nodup id)).1 (hall.isParent.2 hidp)
    (hempty.unlisted hfree) hself (fun c hc => ?_) (fun u => pruned_modify rfl (.refl _) rfl) _ _
  exact ⟨hall.isParent.2 (hkids c hc).1, (hkids c hc).2⟩

/-! ## Expanding for good -/

/-- The children of a node go from the one list of it to the other. -/
theorem Tied.expandChildren (h : Tied circles t) (id : NodeId) :
    Tied circles (t.expandChildren id) := by
  obtain ⟨rank, h⟩ := h
  unfold Tree.expandChildren
  dsimp only
  generalize (t.children id).filterMap _ = es
  have hempty : Pruned t (t.setChildren id []) := pruned_setChildren (List.nil_sublist _)
  have hrewrite := pruned_rewrite (t.setChildren id []) id es
  have hpruned := hempty.trans hrewrite
  generalize (t.setChildren id []).rewrite id es = u at hrewrite hpruned
  refine ⟨rank, h.of_below ?_ (fun j => ?_) fun p => ?_⟩
  · rw [size_modify, hpruned.size]
  · rw [← hpruned.parent, node_modify]
    split <;> rfl
  · by_cases hp : p = id ∧ p < u.size
    · obtain ⟨rfl, hlt⟩ := hp
      have hnil : (t.setChildren p []).children p = [] := by
        rw [children, node_setChildren _ (hpruned.size ▸ hlt), if_pos rfl]
      replace hnil : u.children p = [] := List.sublist_nil.1 (hnil ▸ hrewrite.children p)
      rw [Tree.below, children, expandedChildren, node_modify, if_pos ⟨rfl, hlt⟩]
      change (u.children p ++ (u.expandedChildren p ++ t.children p)).Subperm _
      rw [hnil, hpruned.expanded, List.nil_append]
      exact List.perm_append_comm.subperm
    · rw [Tree.below, children, expandedChildren, node_modify, if_neg hp]
      exact (hpruned.below p).subperm

theorem Tied.unhideAll (h : Tied circles t) : Tied circles t.unhideAll.tree := by
  rw [unhideAll_tree]
  generalize t.foldAll.tree.liveOrder.reverse = ids
  have hfold := h.foldAll
  generalize t.foldAll.tree = u at hfold
  induction ids generalizing u with
  | nil => exact hfold
  | cons id ids ih => exact ih _ (hfold.expandChildren id)

end GlyphTree.Tree
