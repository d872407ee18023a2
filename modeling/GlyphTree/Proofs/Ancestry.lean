import GlyphTree.Proofs.Orders
import GlyphTree.Proofs.Rooted

/-!
# Ancestry

Content that moves from one node to another takes its children along, so a node would come to be
below itself if it took over the content of one above it. Nothing else that can be done to a tree
puts its links out of order, whatever regions it collapses and whichever nodes are unfolded: a tree
that commands lead to without such a move is `Orderly`, and all its links agree (`Orderly.linked`).
With such moves lists agree with parents still (`Reached.tied`), but there may be circles.
-/

namespace GlyphTree.Tree

open Relation

variable {t : Tree} {rank : NodeId → Nat} {p q c j id target source a b : NodeId} {filter : Text}
  {circles : Prop}

/-! ## Hiding -/

theorem LinkedBy.ranked (h : LinkedBy rank t) : Ranked t.below := by
  have hup : ∀ {x y}, TransGen (Under t.below) x y → rank x < rank y := fun hxy => by
    induction hxy with
    | single hc => exact h.rises _ _ (h.parent _ _ hc)
    | tail _ hc ih => exact ih.trans (h.rises _ _ (h.parent _ _ hc))
  exact ranked_of_irrefl (n := t.size) (fun x hx => Nat.lt_irrefl _ (hup hx)) fun p c hc =>
    ⟨h.housed c p (h.parent p c hc), (h.parent p c hc).lt⟩

theorem Linked.listed (h : Linked t) : Listed t := by
  obtain ⟨rank, h⟩ := h
  obtain ⟨rank', hr⟩ := h.ranked
  exact ⟨h.root, fun p c hc => h.parent p c (List.mem_append_left _ hc), rank', fun p c hc =>
    hr p c (List.mem_append_left _ hc)⟩

theorem Tied.lt_of_target (h : Tied circles t) (hid : id ∈ t.targets filter) : id < t.size :=
  h.live_lt (List.mem_filter.1 hid).1

theorem Tied.lt_of_isLive (h : Tied circles t) (hid : t.isLive id = true) : id < t.size := by
  by_cases hroot : id = Tree.root
  · exact hroot ▸ h.root_lt
  · obtain ⟨q, hq, -⟩ := mem_children_of_isLive hid hroot
    exact lt_size_of_parent hq

theorem Tied.lt_planOf (h : Tied circles t) {command : Command} {e : NodeId × List Cut}
    (he : e ∈ t.planOf command) : e.1 < t.size :=
  (live_of_mem_planOf he).elim h.live_lt h.lt_of_isLive

theorem Tied.applyPlan_planOf (h : Tied circles t) (command : Command) :
    Tied circles (t.applyPlan (t.planOf command)) :=
  h.applyPlan fun _ he => ⟨h.lt_planOf he, fun _ hcut => origin_of_mem_planOf he hcut⟩

theorem Tied.hideMatches (h : Tied circles t) (name pattern label target : Text) :
    Tied circles (t.hideMatches name pattern label target).tree :=
  hideMatches_tree t name pattern label target ▸
    h.applyPlan_planOf (.hideAll name pattern label target)

theorem Tied.hideGroup (h : Tied circles t) (name label : Text) (group : Nat) (scope source : Text) :
    Tied circles (t.hideGroup name label group scope source).tree :=
  hideGroup_tree t name label group scope source ▸
    h.applyPlan_planOf (.hideGroup name label group scope source)

theorem Tied.hideRest (h : Tied circles t) (name label target : Text) :
    Tied circles (t.hideRest name label target).tree :=
  hideRest_tree t name label target ▸ h.applyPlan_planOf (.hideRest name label target)

theorem Tied.replaceAll (h : Tied circles t) (old new target : Text) :
    Tied circles (t.replaceAll old new target).tree := by
  unfold Tree.replaceAll
  split
  · exact h
  · change Tied circles (replaceEach old new (t.targets target) t).2
    generalize t.targets target = ids
    induction ids generalizing t with
    | nil => exact h
    | cons id ids ih => exact ih (h.pruned (pruned_rewrite t id _))

/-! ## Content -/

theorem adopted_parent (h : t.IsParent c p) (target : NodeId) :
    (adopted target (t.node c)).parent = some target := by
  obtain ⟨pl, hpl, -⟩ := Option.map_eq_some_iff.1 h
  rw [adopted, Node.parent, hpl]
  rfl

@[simp] theorem size_replaceContent_eq (t : Tree) (target source : NodeId) :
    (t.replaceContent target source).size = t.size := by
  by_cases hne : target = source
  · rw [replaceContent, if_pos hne]
  · exact size_replaceContent hne

section
variable (h : TiedBy circles rank t)
include h

/-- The children of `source` go to `target`, and nothing else changes. -/
theorem TiedBy.links_replaceContent (hne : target ≠ source) (ht : target < t.size)
    (hs : source < t.size) :
    (∀ j, ((t.replaceContent target source).node j).parent =
      if j ∈ t.children source then some target else (t.node j).parent) ∧
    ∀ p, (t.replaceContent target source).below p =
      (if p = target then t.children source else if p = source then [] else t.children p) ++
        t.expandedChildren p := by
  have hnode := node_replaceContent_of_nodup hne ht hs (h.nodup_children source) fun k hk =>
    (h.isParent_child hk).lt
  refine ⟨fun j => ?_, fun p => ?_⟩
  · rw [hnode]
    change (if j ∈ t.children source then adopted target (t.node j) else t.node j).parent = _
    rw [apply_ite Node.parent]
    exact ite_congr rfl (fun hj => adopted_parent (h.isParent_child hj) target) fun _ => rfl
  · have hexpanded : (if p ∈ t.children source then adopted target (t.node p)
        else t.node p).expanded = t.expandedChildren p := by
      split <;> rfl
    rw [below, children, expandedChildren, hnode, hexpanded]

open Classical in
/-- If content comes from no node above the one it moves to, ranks can be raised for what moves. -/
theorem TiedBy.exists_rank_replaceContent (hne : target ≠ source) (ht : target < t.size)
    (hs : source < t.size) (hnot : circles ∨ ¬ t.Above target source) :
    ∃ rank' : NodeId → Nat, ∀ c p, (t.replaceContent target source).IsParent c p →
      circles ∨ rank' p < rank' c := by
  obtain ⟨hparent, -⟩ := h.links_replaceContent hne ht hs
  rcases hnot with hcircles | hnot
  · exact ⟨rank, fun _ _ _ => .inl hcircles⟩
  let moved := fun j => ∃ c ∈ t.children source, ReflTransGen t.IsParent j c
  have hstays : ¬ moved target := by
    rintro ⟨c, hc, hup⟩
    exact hnot (.tail' hup (h.isParent_child hc))
  have hup : ∀ {c p}, t.IsParent c p → moved p → moved c := by
    rintro c p hc ⟨k, hk, hp⟩
    exact ⟨k, hk, .head hc hp⟩
  refine ⟨fun j => if moved j then rank j + rank target + 1 else rank j, fun c p hc => ?_⟩
  rw [IsParent, hparent] at hc
  dsimp only
  split at hc
  · rename_i hmem
    obtain rfl := Option.some.inj hc
    rw [if_neg hstays, if_pos ⟨c, hmem, .refl⟩]
    exact .inr (by omega)
  · refine (h.rises c p hc).imp_right fun hlt => ?_
    by_cases hp : moved p
    · rw [if_pos hp, if_pos (hup hc hp)]
      omega
    · rw [if_neg hp]
      split <;> omega

/-- Content may move to any node that the one it comes from is not above. -/
theorem TiedBy.replaceContent (ht : target < t.size) (hs : source < t.size)
    (hnot : circles ∨ ¬ t.Above target source) : Tied circles (t.replaceContent target source) := by
  by_cases hne : target = source
  · rw [Tree.replaceContent, if_pos hne]
    exact h.tied
  obtain ⟨hparent, hbelow⟩ := h.links_replaceContent hne ht hs
  obtain ⟨rank', hrises⟩ := h.exists_rank_replaceContent hne ht hs hnot
  have hchild : ∀ {c p}, t.IsParent c p → p ≠ source → c ∉ t.children source := fun hc hp hmem =>
    hp (h.child_iff hc hmem).symm
  have hsize := size_replaceContent (t := t) hne
  refine ⟨rank', hsize ▸ h.root, ?_, fun p c hc => ?_, fun p => ?_, fun c p hc => ?_, hrises⟩
  · rw [hparent, if_neg, h.top]
    exact fun hroot => h.ne_root (h.isParent_child hroot) rfl
  · rw [hbelow] at hc
    rw [IsParent, hparent]
    rcases List.mem_append.1 hc with hc | hc
    · by_cases hp : p = target
      · rw [if_pos hp] at hc
        rw [if_pos hc, hp]
      · rw [if_neg hp] at hc
        by_cases hps : p = source
        · rw [if_pos hps] at hc
          cases hc
        · rw [if_neg hps] at hc
          rw [if_neg (hchild (h.isParent_child hc) hps)]
          exact h.isParent_child hc
    · have hcp := h.parent p c (List.mem_append_right _ hc)
      rw [if_neg, hcp]
      intro hmem
      obtain rfl := h.child_iff hcp hmem
      exact (List.nodup_append.1 (h.nodup source)).2.2 c hmem c hc rfl
  · rw [hbelow]
    by_cases hp : p = target
    · subst hp
      rw [if_pos rfl]
      refine List.nodup_append.2 ⟨h.nodup_children source, (List.nodup_append.1 (h.nodup p)).2.1, ?_⟩
      rintro c hc _ hexp rfl
      exact hne ((h.parent p c (List.mem_append_right _ hexp)).unique (h.isParent_child hc))
    · rw [if_neg hp]
      by_cases hps : p = source
      · rw [if_pos hps, List.nil_append]
        exact (List.nodup_append.1 (h.nodup p)).2.1
      · rw [if_neg hps]
        exact h.nodup p
  · rw [IsParent, hparent] at hc
    rw [hsize]
    split at hc
    · exact Option.some.inj hc ▸ ht
    · exact h.housed c p hc

/-- Chains from nodes that the source is not above stay as they are. -/
theorem TiedBy.above_replaceContent (hne : target ≠ source) (ht : target < t.size)
    (hs : source < t.size) (hj : ¬ t.Above j source)
    (ha : (t.replaceContent target source).Above j p) : t.Above j p := by
  obtain ⟨hparent, -⟩ := h.links_replaceContent hne ht hs
  have hstep : ∀ {c q}, ¬ t.Above c source → (t.replaceContent target source).IsParent c q →
      t.IsParent c q := fun {c q} hc hq => by
    rwa [IsParent, hparent, if_neg fun hmem => hc (.single (h.isParent_child hmem))] at hq
  induction ha using TransGen.head_induction_on with
  | single hp => exact .single (hstep hj hp)
  | head hq _ ih =>
    have hq := hstep hj hq
    exact .head hq (ih fun ha => hj (.head hq ha))

end

theorem Tied.replaceContent (h : Tied circles t) (ht : target < t.size) (hs : source < t.size)
    (hnot : circles ∨ ¬ t.Above target source) : Tied circles (t.replaceContent target source) := by
  obtain ⟨rank, h⟩ := h
  exact h.replaceContent ht hs hnot

theorem Tied.replaceNode (h : Tied circles t) (hnot : circles ∨ ¬ t.Above target source) :
    Tied circles (t.replaceNode target source).tree := by
  unfold Tree.replaceNode
  split
  · split
    · exact h.replaceContent ‹_› ‹_› hnot
    · exact h
  · exact h

/-- A fresh node is above no node, and no node is above it. -/
theorem Tied.detached (h : Tied circles t) (text : Text) : Tied circles (t.detached text).2 := by
  obtain ⟨rank, h⟩ := h
  exact (h.alloc ⟨rfl, rfl, rfl⟩).tied

theorem above_detached {text : Text} : (t.detached text).2.Above c p ↔ t.Above c p := by
  have hparent : (t.detached text).2.IsParent = t.IsParent := by
    funext c p
    rw [IsParent, IsParent]
    exact congrArg (· = some p) ((links_alloc ⟨rfl, rfl, rfl⟩).1 c)
  rw [Above, Above, hparent]

/-- Contents may go round three nodes, the first of which is on no chain, if neither of the others is
above the other. -/
theorem LinkedBy.rotate {k : NodeId} (h : LinkedBy rank t) (hk : k < t.size) (ha : a < t.size)
    (hb : b < t.size) (hka : k ≠ a) (hin : ¬ t.Above k a) (hout : ∀ x, ¬ t.Above x k)
    (hab : a ≠ b → ¬ t.Above a b ∧ ¬ t.Above b a) :
    Tied False (((t.replaceContent k a).replaceContent a b).replaceContent b k) := by
  have h₀ := linkedBy_iff.1 h
  obtain ⟨rank₁, h₁⟩ := h₀.replaceContent hk ha (.inr hin)
  have hchain := fun j p => h₀.above_replaceContent (j := j) (p := p) hka hk ha
  rw [← size_replaceContent (t := t) hka] at hk ha hb
  generalize t.replaceContent k a = u at h₁ hchain hk ha hb
  by_cases heq : a = b
  · subst heq
    rw [show u.replaceContent a a = u from if_pos rfl]
    exact h₁.replaceContent ha hk (.inr fun hx => hout a (hchain a k (h.not_above_self a) hx))
  · obtain ⟨hnab, hnba⟩ := hab heq
    obtain ⟨rank₂, h₂⟩ := h₁.replaceContent ha hb
      (.inr fun hx => hnab (hchain a b (h.not_above_self a) hx))
    refine h₂.replaceContent ?_ ?_ (.inr fun hx => ?_)
    · rwa [size_replaceContent heq]
    · rwa [size_replaceContent heq]
    · have hx := h₁.above_replaceContent heq ha hb ((linkedBy_iff.2 h₁).not_above_self b) hx
      exact hout b (hchain b k hnba hx)

/-- Contents may change places if neither node is above the other, or there may be circles. -/
theorem Tied.swap (h : Tied circles t)
    (hab : circles ∨ (a ≠ b → ¬ t.Above a b ∧ ¬ t.Above b a)) : Tied circles (t.swap a b).tree := by
  unfold Tree.swap
  split
  · split
    · rename_i ha hb
      have hk : t.size < (t.detached []).2.size := (size_alloc t _).symm ▸ Nat.lt_succ_self _
      change Tied circles ((((t.detached []).2.replaceContent t.size a).replaceContent a
        b).replaceContent b t.size)
      by_cases hcircles : circles
      · have h₁ := (h.detached []).replaceContent hk (ha.trans hk) (.inl hcircles)
        have h₂ : Tied circles (((t.detached []).2.replaceContent t.size a).replaceContent a b) :=
          h₁.replaceContent (by simpa using ha.trans hk) (by simpa using hb.trans hk) (.inl hcircles)
        exact h₂.replaceContent (by simpa using hb.trans hk) (by simpa using hk) (.inl hcircles)
      · obtain ⟨rank, h₀⟩ := h.detached []
        -- the fresh node is on no chain
        have hout : ∀ x, ¬ (t.detached []).2.Above x t.size := fun x hx => by
          obtain ⟨rank, h⟩ := h
          obtain ⟨y, -, hy⟩ := TransGen.tail'_iff.1 (above_detached.1 hx)
          exact Nat.lt_irrefl _ (h.housed y t.size hy)
        have hin : ¬ (t.detached []).2.Above t.size a := fun hx => by
          obtain ⟨y, hy, -⟩ := TransGen.head'_iff.1 (above_detached.1 hx)
          exact Nat.lt_irrefl _ (IsParent.lt hy)
        have hrotate := (h₀.linkedBy hcircles).rotate hk (ha.trans hk) (hb.trans hk) ha.ne' hin hout
          fun hne => (hab.resolve_left hcircles hne).imp (mt above_detached.1) (mt above_detached.1)
        exact hrotate.imp fun _ h => (linkedBy_iff.2 h).tiedBy
    · exact h
  · exact h

/-! ## Commands -/

/-- Whether a command puts no node below itself: content comes from no node above the one it goes
to. -/
def KeepsAncestry (t : Tree) : Command → Prop
  | .replaceNode target source => ¬ t.Above target source
  | .swap a b => a ≠ b → ¬ t.Above a b ∧ ¬ t.Above b a
  | _ => True

/-- A tree that commands lead to none of which puts a node below itself. Regions may be empty, and
contents may move to and from nodes that are unfolded. -/
inductive Orderly : Tree → Prop where
  | initial {t : Tree} : Initial t → Orderly t
  | step {t : Tree} {c : Command} : Orderly t → t.KeepsAncestry c → Orderly (t.perform c).tree

/-- A tree that commands lead to, whatever they are. -/
inductive Reached : Tree → Prop where
  | initial {t : Tree} : Initial t → Reached t
  | step {t : Tree} {c : Command} : Reached t → Reached (t.perform c).tree

theorem Reached.after (h : Reached t) (history : List Command) : Reached (t.after history) := by
  induction history generalizing t with
  | nil => exact h
  | cons c cs ih => exact ih h.step

theorem passInvariant_tied (circles : Prop) : PassInvariant False (Tied circles) where
  beside h hn _ := h.pruned (pruned_of_nodes hn)
  rename id name h := h.pruned (pruned_rename _ id name)
  hideMatches h _ := h.hideMatches _ _ _ _
  hideGroup h _ := h.hideGroup _ _ _ _ _
  hideRest name label target h := h.hideRest name label target
  replaceAll old new target h := h.replaceAll old new target

theorem Tied.unfold (h : Tied circles t) (id : NodeId) (openLabel closeLabel : Text) :
    Tied circles (t.unfold id openLabel closeLabel).tree := by
  unfold Tree.unfold
  split <;> try exact h
  rename_i n _ _ hn _ _
  split
  · exact h
  · rename_i pl hpl
    split
    · exact h
    · split
      · exact h
      · rename_i hid
        simp only [not_or, Bool.not_eq_true', Bool.not_eq_false] at hid
        obtain ⟨q, hq, hmem⟩ := mem_children_of_isLive hid.2.1 hid.1
        have hnode : t.node id = n := by rw [node, show t.nodes[id]? = some n from hn]; rfl
        rw [hnode, Node.parent, hpl] at hq
        exact h.unfoldAt (Option.some.inj hq ▸ hmem) (h.not_mem_children_self hid.2.1 hid.1) _

/-- No command tears links, and none makes a circle unless it puts a node below itself. -/
theorem Tied.perform (h : Tied circles t) {c : Command} (hc : circles ∨ t.KeepsAncestry c) :
    Tied circles (t.perform c).tree := by
  have hi := passInvariant_tied circles
  cases c with
  | define label => exact hi.define h label
  | defineMacro label body => exact hi.defineMacro h label body
  | hideAll => exact h.hideMatches _ _ _ _
  | hideAny => exact h.hideMatches _ _ _ _
  | hideGroup => exact h.hideGroup _ _ _ _ _
  | hideRest => exact h.hideRest _ _ _
  | unhideAll => exact h.unhideAll
  | unfold => exact h.unfold _ _ _
  | foldAll => exact h.foldAll
  | replaceAll => exact h.replaceAll _ _ _
  | ignoreAll => exact hi.beside h rfl rfl
  | unignoreAll => exact hi.beside h rfl rfl
  | renameAll => exact hi.renameAll h _ _ _
  | renameNode id name =>
    simp only [Tree.perform, renameNode, Outcome.reply]
    split
    · exact hi.rename id name h
    · exact h
  | replaceNode => exact h.replaceNode hc
  | swap => exact h.swap hc
  | detached text => exact h.detached text
  | getNode name =>
    simp only [Tree.perform, Tree.getNode]
    split <;> exact hi.beside h rfl rfl
  | resetNode => exact hi.beside h rfl rfl
  | run pipeline => exact hi.runFrom h 0 fun hf => hf.elim

/-! ## Trees at the start -/

theorem tied_ofText (text : Text) (config : Config) : Tied circles (ofText text config) := by
  have hnode : ∀ j, ((ofText text config).node j).place = none ∧
      (ofText text config).below j = [] := fun j => by
    rw [Tree.below, children, expandedChildren, ofText, node_alloc]
    split <;> exact ⟨rfl, rfl⟩
  have hnone : ∀ c p, ¬ (ofText text config).IsParent c p := fun c p h => by
    rw [IsParent, Node.parent, (hnode c).1] at h
    cases h
  refine ⟨fun _ => 0, Nat.zero_lt_one, by rw [Node.parent, (hnode _).1]; rfl, fun p c hc => ?_,
    fun p => ?_, fun c p hc => absurd hc (hnone c p), fun c p hc => absurd hc (hnone c p)⟩
  · rw [(hnode p).2] at hc
    cases hc
  · rw [(hnode p).2]
    exact .nil

/-- One more child of the root. -/
theorem Tied.addChild (h : Tied circles t) (width : Nat) (child : (Text × Text) × Nat) :
    Tied circles (t.addChild width child) := by
  obtain ⟨⟨name, text⟩, start⟩ := child
  obtain ⟨rank, h⟩ := h
  obtain ⟨rank, h, hroot, -⟩ := h.between (q := t.size) h.root (.inr le_rfl)
  have hnone : (⟨name, text, none, none, none, [], []⟩ : Node).place = none ∧
    ([] : List NodeId) = [] ∧ ([] : List NodeId) = [] := ⟨rfl, rfl, rfl⟩
  obtain ⟨hparent, hbelow⟩ := links_alloc (t := t) hnone
  have hsize : (t.alloc ⟨name, text, none, none, none, [], []⟩).size = t.size + 1 := size_alloc t _
  refine ⟨rank, (h.alloc hnone).joined (q := Tree.root) (c := t.size) ⟨?_, fun j => ?_, fun r => ?_⟩
    ((h.alloc hnone).root) (Nat.ne_of_gt h.root) (fun r hr => ?_) hroot⟩
  · rw [hsize]
    exact (size_setChildren _ _ _).trans (size_alloc t _)
  · rw [node_addChild h.root, hparent]
    split
    · rfl
    · split
      · rename_i hj
        rw [hj]
        rfl
      · rfl
  · rw [hbelow, Tree.below, children_addChild h.root, (same_addChild h.root r).2.1]
    split
    · rename_i hr
      rw [hr, Tree.below, List.append_assoc, List.singleton_append]
      exact List.perm_middle
    · exact .refl _
  · rw [hbelow] at hr
    exact h.unlisted_of_le le_rfl r hr

theorem Initial.tied (h : Initial t) : Tied circles t :=
  h.induct tied_ofText (fun name _ hl => hl.pruned (pruned_rename _ Tree.root name))
    fun width child _ hl => hl.addChild width child

/-- All links of a tree agree as long as no command has put a node below itself. -/
theorem Orderly.linked (h : Orderly t) : Linked t := by
  rw [linked_iff]
  induction h with
  | initial h => exact h.tied
  | step _ hc ih => exact ih.perform (.inr hc)

/-- The lists of a tree agree with the parents whatever commands there have been. -/
theorem Reached.tied (h : Reached t) : Tied True t := by
  induction h with
  | initial h => exact h.tied
  | step _ ih => exact ih.perform (.inl trivial)

/-- Nothing is above a child of the root but the root. -/
theorem Reached.eq_root_of_above (h : Reached t) (hx : t.IsParent x root) (ha : t.Above x p) :
    p = root := by
  obtain ⟨rank, ht⟩ := h.tied
  obtain ⟨q, hq, hup⟩ := TransGen.head'_iff.1 ha
  obtain rfl := hq.unique hx
  rcases hup.cases_head with hp | ⟨r, hr, -⟩
  · exact hp.symm
  · exact absurd rfl (ht.ne_root hr)

theorem Orderly.reached (h : Orderly t) : Reached t := by
  induction h with
  | initial h => exact .initial h
  | step _ _ ih => exact ih.step

theorem Reachable.reached (h : Reachable t) : Reached t := by
  induction h with
  | initial h => exact .initial h
  | step _ _ ih => exact ih.step

end GlyphTree.Tree
