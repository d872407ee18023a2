import GlyphTree.Proofs.Ancestry

/-!
# Views of the links

Liveness, scope and depth are found by going up from parent to parent, the text a node stands for by
going down from child to child, and the orders by a loop over a stack. None of these loops has a
bound of its own. Where links agree they all end, within as many steps as there are nodes, with what
the bounded recursions of the model give; and what they say about a node fits together
(`Orderly.agreeing`).
-/

namespace GlyphTree.Tree

open Relation

variable {t : Tree} {p c x : NodeId} {d d' steps : Nat}

/-! ## Loops -/

/-- Liveness, found by going up to the root. There is no result if the steps run out. -/
def liveLoop (t : Tree) : Nat → NodeId → Option Bool
  | 0, _ => none
  | steps + 1, id =>
    if id = root then some true
    else match (t.node id).parent with
      | none => some false
      | some p => if (t.children p).contains id then t.liveLoop steps p else some false

/-- Whether a node or one above it carries a name, found by going up. -/
def underLoop (t : Tree) (name : Text) : Nat → NodeId → Option Bool
  | 0, _ => none
  | steps + 1, id =>
    match t.node? id with
    | none => some false
    | some n =>
      if n.name = name then some true
      else match n.parent with
        | none => some false
        | some p => t.underLoop name steps p

/-- Scope, found by going up. -/
def scopeLoop (t : Tree) (scope : Text) (steps : Nat) (id : NodeId) : Option Bool :=
  if t.config.isWildcard scope then some (!t.isIgnored id) else t.underLoop scope steps id

/-- Depth, found by going up. -/
def depthLoop (t : Tree) : Nat → NodeId → Option Nat
  | 0, _ => none
  | steps + 1, id =>
    match (t.node id).parent with
    | none => some 0
    | some p => (t.depthLoop steps p).map (· + 1)

/-- The edits that resolve a child, if there is a text for it where one is needed. -/
def childEdits (t : Tree) (resolved : NodeId → Option Text) (c : NodeId) : Option (List Edit) :=
  if (t.node c).isUnfolded then some ((t.node c).atoms.map (⟨·, []⟩))
  else match (t.node c).span with
    | none => some []
    | some s => (resolved c).map fun text => [⟨s, text⟩]

/-- The text that a node stands for, found by going down. -/
def resolveLoop (t : Tree) : Nat → NodeId → Option Text
  | 0, _ => none
  | steps + 1, id =>
    ((t.children id).mapM (t.childEdits (t.resolveLoop steps))).map fun edits =>
      applyEdits (t.node id).text (sortByKey (·.range.start) edits.flatten)

/-- The walk as a loop over a stack: a node is taken off, and those below it are put on, the last of
them first. -/
def stackWalk (below : NodeId → List NodeId) : Nat → List NodeId → Option (List NodeId)
  | _, [] => some []
  | 0, _ :: _ => none
  | steps + 1, id :: stack =>
    (stackWalk below steps ((below id).reverse.foldl (fun stack c => c :: stack) stack)).map (id :: ·)

/-- The recursive walk, with the level of each node. -/
def levels (below : NodeId → List NodeId) : Nat → Nat → NodeId → List (NodeId × Nat)
  | 0, _, _ => []
  | depth + 1, level, id => (id, level) :: (below id).flatMap (levels below depth (level + 1))

/-! ## Going up -/

theorem isLive_root : t.isLive root = true := by
  rw [isLive, isLiveWithin, if_pos rfl]

/-- The parent of a node, as a list. -/
def up (t : Tree) (id : NodeId) : List NodeId := (t.node id).parent.toList

theorem under_up : Under t.up c p ↔ t.IsParent c p := by
  rw [Under, up, Option.mem_toList, IsParent]

theorem ends_up_of_none (h : (t.node x).parent = none) : Ends t.up 1 x := fun c hc => by
  rw [up, h] at hc
  cases hc

theorem Linked.ends_up (h : Linked t) (hx : x < t.size) : Ends t.up t.size x := by
  obtain ⟨rank, h⟩ := h
  refine ends_of_irrefl (fun y hy => h.not_above_self y ?_) (fun c p hp => ?_) hx
  · exact TransGen.mono (fun _ _ => under_up.1) _ _ hy
  · exact h.housed c p (under_up.1 hp)

/-- All chains of parents end. -/
theorem Linked.ends_up_succ (h : Linked t) (x : NodeId) : Ends t.up (t.size + 1) x := by
  by_cases hx : x < t.size
  · exact (h.ends_up hx).succ
  · refine (ends_up_of_none ?_).mono (Nat.le_add_left _ _)
    rw [node_eq_default (Nat.not_lt.1 hx)]
    rfl

theorem Ends.parent (h : Ends t.up (d + 1) x) (hp : (t.node x).parent = some p) : Ends t.up d p :=
  h p (under_up.2 hp)

theorem liveLoop_eq (h : Ends t.up d x) (hs : d ≤ steps) (hd : d ≤ d') :
    t.liveLoop steps x = some (t.isLiveWithin d' x) := by
  induction d generalizing x steps d' with
  | zero => exact h.elim
  | succ d ih =>
    obtain ⟨steps, rfl⟩ : ∃ n, steps = n + 1 := ⟨steps - 1, by omega⟩
    obtain ⟨d', rfl⟩ : ∃ n, d' = n + 1 := ⟨d' - 1, by omega⟩
    rw [liveLoop, isLiveWithin]
    split
    · rfl
    · cases hp : (t.node x).parent with
      | none => rfl
      | some p =>
        dsimp only
        cases (t.children p).contains x with
        | false => rfl
        | true =>
          rw [if_pos rfl, Bool.true_and]
          exact ih (h.parent hp) (Nat.le_of_succ_le_succ hs) (Nat.le_of_succ_le_succ hd)

theorem underLoop_eq {name : Text} (h : Ends t.up d x) (hs : d ≤ steps) (hd : d ≤ d') :
    t.underLoop name steps x = some (t.isUnderWithin name d' x) := by
  induction d generalizing x steps d' with
  | zero => exact h.elim
  | succ d ih =>
    obtain ⟨steps, rfl⟩ : ∃ n, steps = n + 1 := ⟨steps - 1, by omega⟩
    obtain ⟨d', rfl⟩ : ∃ n, d' = n + 1 := ⟨d' - 1, by omega⟩
    rw [underLoop, isUnderWithin]
    cases hn : t.node? x with
    | none => rfl
    | some n =>
      dsimp only
      split
      · rfl
      · cases hp : n.parent with
        | none => rfl
        | some p =>
          have hnode : t.node x = n := by rw [node, show t.nodes[x]? = some n from hn]; rfl
          exact ih (h.parent (hnode ▸ hp)) (Nat.le_of_succ_le_succ hs)
            (Nat.le_of_succ_le_succ hd)

theorem depthLoop_eq (h : Ends t.up d x) (hs : d ≤ steps) (hd : d ≤ d') :
    t.depthLoop steps x = some (t.depthWithin d' x) := by
  induction d generalizing x steps d' with
  | zero => exact h.elim
  | succ d ih =>
    obtain ⟨steps, rfl⟩ : ∃ n, steps = n + 1 := ⟨steps - 1, by omega⟩
    obtain ⟨d', rfl⟩ : ∃ n, d' = n + 1 := ⟨d' - 1, by omega⟩
    rw [depthLoop, depthWithin]
    cases hp : (t.node x).parent with
    | none => rfl
    | some p =>
      dsimp only
      rw [ih (h.parent hp) (Nat.le_of_succ_le_succ hs) (Nat.le_of_succ_le_succ hd),
        Option.map_some]

section
variable (h : Linked t)
include h

theorem Linked.liveLoop (hs : t.size < steps) (x : NodeId) :
    t.liveLoop steps x = some (t.isLive x) := liveLoop_eq (h.ends_up_succ x) hs le_rfl

theorem Linked.scopeLoop (hs : t.size < steps) (scope : Text) (x : NodeId) :
    t.scopeLoop scope steps x = some (t.inScope scope x) := by
  unfold Tree.scopeLoop inScope
  split
  · rfl
  · exact underLoop_eq (h.ends_up_succ x) hs le_rfl

theorem Linked.depthLoop (hs : t.size < steps) (x : NodeId) :
    t.depthLoop steps x = some (t.depth x) := by
  by_cases hx : x < t.size
  · exact depthLoop_eq (h.ends_up hx) (Nat.le_of_lt hs) le_rfl
  · have hnone : (t.node x).parent = none := by
      rw [node_eq_default (Nat.not_lt.1 hx)]
      rfl
    obtain ⟨rank, h⟩ := h
    exact depthLoop_eq (ends_up_of_none hnone) (Nat.one_le_of_lt hs) (Nat.one_le_of_lt h.root)

/-- A node is live if its parent lists it and is live. -/
theorem Linked.isLive_eq (hp : t.IsParent x p) :
    t.isLive x = ((t.children p).contains x && t.isLive p) := by
  have hroot : x ≠ Tree.root := by
    obtain ⟨rank, h⟩ := h
    exact h.ne_root hp
  have hx := h.liveLoop (Nat.lt_succ_of_lt (Nat.lt_succ_self t.size)) x
  rw [Tree.liveLoop, if_neg hroot, hp] at hx
  dsimp only at hx
  rw [h.liveLoop (Nat.lt_succ_self t.size)] at hx
  refine Option.some.inj (hx.symm.trans ?_)
  cases (t.children p).contains x <;> rfl

theorem Linked.depth_eq (hp : t.IsParent x p) : t.depth x = t.depth p + 1 := by
  have hx := h.depthLoop (Nat.lt_succ_of_lt (Nat.lt_succ_self t.size)) x
  rw [Tree.depthLoop, hp] at hx
  dsimp only at hx
  rw [h.depthLoop (Nat.lt_succ_self t.size)] at hx
  exact Option.some.inj hx.symm

theorem Linked.depth_root : t.depth Tree.root = 0 := by
  have hx := h.depthLoop (Nat.lt_succ_self t.size) Tree.root
  obtain ⟨rank, h⟩ := h
  rw [Tree.depthLoop, h.top] at hx
  exact Option.some.inj hx.symm

end

/-! ## Going down -/

theorem mapM_eq_some {α β : Type} {f : α → Option β} {g : α → β} {l : List α}
    (h : ∀ x ∈ l, f x = some (g x)) : l.mapM f = some (l.map g) := by
  induction l with
  | nil => rfl
  | cons x l ih =>
    obtain ⟨hx, hl⟩ := List.forall_mem_cons.1 h
    rw [List.mapM_cons, hx, ih hl]
    rfl

/-- The children that resolving a node goes down to: an unfolded child is there in the text. -/
def hiddenChildren (t : Tree) (x : NodeId) : List NodeId :=
  (t.children x).filter fun c => !(t.node c).isUnfolded

theorem mem_hiddenChildren :
    c ∈ t.hiddenChildren x ↔ c ∈ t.children x ∧ (t.node c).isUnfolded = false := by
  simp [hiddenChildren]

theorem resolveLoop_eq (h : Ends t.hiddenChildren d x) (hs : d ≤ steps) (hd : d ≤ d') :
    t.resolveLoop steps x = some (t.resolve d' x) := by
  induction d generalizing x steps d' with
  | zero => exact h.elim
  | succ d ih =>
    obtain ⟨steps, rfl⟩ : ∃ n, steps = n + 1 := ⟨steps - 1, by omega⟩
    obtain ⟨d', rfl⟩ : ∃ n, d' = n + 1 := ⟨d' - 1, by omega⟩
    have hkids : ∀ c ∈ t.children x, t.childEdits (t.resolveLoop steps) c =
        some (if (t.node c).isUnfolded then (t.node c).atoms.map (⟨·, []⟩)
          else (t.node c).atoms.map (⟨·, t.resolve d' c⟩)) := by
      intro c hc
      rw [childEdits]
      split
      · rfl
      · rename_i hun
        have hfold : (t.node c).fold = none := by simpa [Node.isUnfolded] using hun
        rw [ih (h c (mem_hiddenChildren.2 ⟨hc, by simpa using hun⟩)) (Nat.le_of_succ_le_succ hs)
          (Nat.le_of_succ_le_succ hd), Node.span, Node.atoms, hfold]
        cases (t.node c).place <;> rfl
    rw [resolveLoop, resolve, mapM_eq_some hkids, resolvingEdits, List.flatMap]
    rfl

theorem isSome_of_mapM {α β : Type} {f : α → Option β} {l : List α} (h : (l.mapM f).isSome) :
    ∀ x ∈ l, (f x).isSome := by
  induction l with
  | nil => exact fun x hx => absurd hx List.not_mem_nil
  | cons y l ih =>
    rw [List.mapM_cons] at h
    cases hy : f y with
    | none => simp [hy] at h
    | some z =>
      cases hl : l.mapM f with
      | none => simp [hy, hl] at h
      | some zs => exact List.forall_mem_cons.2 ⟨by rw [hy]; rfl, ih (by rw [hl]; rfl)⟩

/-- There is a result only if the ways down end. -/
theorem Tied.ends_of_resolveLoop {circles : Prop} (h : Tied circles t)
    (hr : (t.resolveLoop steps x).isSome) : Ends t.hiddenChildren steps x := by
  induction steps generalizing x with
  | zero => cases hr
  | succ steps ih =>
    intro c hc
    obtain ⟨hc, hun⟩ := mem_hiddenChildren.1 hc
    rw [resolveLoop, Option.isSome_map] at hr
    have hedits := isSome_of_mapM hr c hc
    obtain ⟨pl, hpl, -⟩ := Option.map_eq_some_iff.1 (h.isParent_child hc)
    rw [childEdits, hun, if_neg Bool.false_ne_true, Node.span, hpl] at hedits
    exact ih (by simpa using hedits)

theorem Linked.resolveLoop (h : Linked t) (hs : t.size < steps) (hx : x < t.size) :
    t.resolveLoop steps x = t.expandedText x := by
  have hl := h.listed
  rw [expandedText, if_pos hx]
  have hsub : ∀ p, (t.hiddenChildren p).Sublist (t.children p) := fun _ => List.filter_sublist
  have hr : Ranked t.hiddenChildren := hl.ranked.imp fun _ hr p c hc => hr p c ((hsub p).subset hc)
  exact resolveLoop_eq (hr.ends (fun p c hc => hl.lt ((hsub p).subset hc)) hx) (Nat.le_of_lt hs)
    le_rfl

/-! ## Walking -/

section
variable {below : NodeId → List NodeId} {n : Nat} {walk : NodeId → List NodeId}
  {stack : List NodeId}

theorem push_eq (l stack : List NodeId) :
    l.reverse.foldl (fun stack c => c :: stack) stack = l ++ stack := by
  induction l with
  | nil => rfl
  | cons x l ih => rw [List.reverse_cons, List.foldl_append, ih]; rfl

/-- A loop over a stack visits, for each node on the stack, what the walk from it visits. -/
theorem stackWalk_eq (hlt : ∀ p, ∀ c ∈ below p, c < n)
    (hw : ∀ x, x < n → walk x = x :: (below x).flatMap walk) (hs : ∀ x ∈ stack, x < n)
    (hsteps : (stack.flatMap walk).length ≤ steps) :
    stackWalk below steps stack = some (stack.flatMap walk) := by
  induction steps generalizing stack with
  | zero =>
    cases stack with
    | nil => rfl
    | cons x stack => simp [hw x (hs x (List.mem_cons_self ..))] at hsteps
  | succ steps ih =>
    cases stack with
    | nil => rfl
    | cons x stack =>
      obtain ⟨hx, hs⟩ := List.forall_mem_cons.1 hs
      have hall : (x :: stack).flatMap walk = x :: (below x ++ stack).flatMap walk := by
        rw [List.flatMap_cons, hw x hx, List.flatMap_append]
        rfl
      rw [hall] at hsteps ⊢
      have hpush : ∀ y ∈ below x ++ stack, y < n := fun y hy =>
        (List.mem_append.1 hy).elim (hlt x y) (hs y)
      rw [stackWalk, push_eq, ih hpush (Nat.le_of_succ_le_succ hsteps), Option.map_some]

end

theorem length_le_of_nodup {l : List NodeId} {n : Nat} (hnd : l.Nodup) (h : ∀ x ∈ l, x < n) :
    l.length ≤ n := by
  have hsub := (hnd.subperm fun x hx => List.mem_range.2 (h x hx)).length_le
  rwa [List.length_range] at hsub

section
variable (h : Linked t)
include h

theorem Linked.parent_below (hc : c ∈ t.below p) : t.IsParent c p := h.tied.parent_below hc

theorem Linked.below_lt (hc : c ∈ t.below p) : c < t.size := (h.parent_below hc).lt

theorem Linked.root_lt : Tree.root < t.size := h.tied.root_lt

theorem Linked.below_nodup (p : NodeId) : (t.below p).Nodup := h.tied.below_nodup p

theorem Linked.ranked : Ranked t.below := by
  obtain ⟨rank, h⟩ := h
  exact h.ranked

/-- Of the lists at all nodes, no two share a node. -/
theorem Linked.nodup_lists : ((List.range t.size).flatMap t.below).Nodup := by
  refine List.nodup_flatMap.2 ⟨fun p _ => h.below_nodup p, List.nodup_range.imp ?_⟩
  intro p q hne c hp hq
  exact hne ((h.parent_below hp).unique (h.parent_below hq))

section
variable {below : NodeId → List NodeId} (hsub : ∀ p, (below p).Sublist (t.below p))
include hsub

theorem Linked.lt_of_mem_preorder (hx : x ∈ preorder below t.size Tree.root) : x < t.size :=
  h.tied.lt_of_mem_order hsub hx

theorem Linked.nodup_order : (preorder below t.size Tree.root).Nodup := h.tied.nodup_order hsub

theorem Linked.stackWalk (hs : t.size ≤ steps) :
    stackWalk below steps [Tree.root] = some (preorder below t.size Tree.root) := by
  have hlt : ∀ p, ∀ c ∈ below p, c < t.size := fun p c hc => h.below_lt ((hsub p).subset hc)
  have hr : Ranked below := h.ranked.imp fun _ hr p c hc => hr p c ((hsub p).subset hc)
  have hflat : [Tree.root].flatMap (preorder below t.size) = preorder below t.size Tree.root := by simp
  rw [← hflat]
  refine stackWalk_eq hlt (fun x hx => hr.preorder_eq hlt hx) ?_ ?_
  · simpa using h.root_lt
  · rw [hflat]
    exact (length_le_of_nodup (h.nodup_order hsub) fun x => h.lt_of_mem_preorder hsub).trans hs

end

/-- What is live at and below a node comes first by the lists of children, and nothing below a node
that is not live is. -/
theorem Linked.filter_isLive (d : Nat) (x : NodeId) : (preorder t.below d x).filter t.isLive =
    if t.isLive x then preorder t.children d x else [] := by
  induction d generalizing x with
  | zero => split <;> rfl
  | succ d ih =>
    rw [preorder, preorder, List.filter_cons, List.filter_flatMap]
    have hlisted : ∀ c ∈ t.below x, t.isLive c = ((t.children x).contains c && t.isLive x) :=
      fun c hc => h.isLive_eq (h.parent_below hc)
    split
    · rename_i hx
      have hkids : (t.children x).flatMap (fun c => (preorder t.below d c).filter t.isLive) =
          (t.children x).flatMap (preorder t.children d) := by
        refine List.flatMap_congr fun c hc => ?_
        rw [ih, if_pos]
        rw [hlisted c (List.mem_append_left _ hc), hx, Bool.and_true]
        simpa using hc
      have hexpanded : (t.expandedChildren x).flatMap
          (fun c => (preorder t.below d c).filter t.isLive) = [] := by
        refine List.flatMap_eq_nil_iff.2 fun c hc => ?_
        rw [ih, if_neg]
        rw [hlisted c (List.mem_append_right _ hc), hx, Bool.and_true]
        have hdisj := (List.nodup_append.1 (h.below_nodup x)).2.2
        simpa using fun hmem => hdisj c hmem c hc rfl
      rw [Tree.below, List.flatMap_append, hkids, hexpanded, List.append_nil]
    · rename_i hx
      refine List.flatMap_eq_nil_iff.2 fun c hc => ?_
      rw [ih, if_neg]
      rw [hlisted c hc, Bool.eq_false_iff.2 hx, Bool.and_false]
      exact Bool.false_ne_true

theorem Linked.levels_eq (d : Nat) (x : NodeId) :
    levels t.below d (t.depth x) x = (preorder t.below d x).map fun y => (y, t.depth y) := by
  induction d generalizing x with
  | zero => rfl
  | succ d ih =>
    rw [levels, preorder, List.map_cons, List.map_flatMap]
    refine congrArg _ (List.flatMap_congr fun c hc => ?_)
    rw [← ih, h.depth_eq (h.parent_below hc)]

end

/-! ## Agreement -/

/-- All views of the links of a tree fit together. -/
structure Agreeing (t : Tree) : Prop where
  /-- No node is twice in the lists of hidden and expanded children, all of them taken together. -/
  listedOnce : ((List.range t.size).flatMap t.below).Nodup
  /-- A node that is listed has the node that lists it for parent. -/
  parent : ∀ p, ∀ c ∈ t.children p ++ t.expandedChildren p, (t.node c).parent = some p
  /-- No node is its own ancestor. -/
  acyclic : ∀ x, ¬ TransGen t.IsParent x x
  /-- The loops that go up or down from a node end. -/
  loops : ∀ steps, t.size < steps → ∀ x,
    t.liveLoop steps x = some (t.isLive x) ∧
      (∀ scope, t.scopeLoop scope steps x = some (t.inScope scope x)) ∧
      t.depthLoop steps x = some (t.depth x) ∧
      (x < t.size → t.resolveLoop steps x = t.expandedText x ∧ (t.expandedText x).isSome)
  /-- The loops over a stack end, and give the document and the live nodes in order. -/
  walks : ∀ steps, t.size ≤ steps → stackWalk t.below steps [root] = some t.documentOrder ∧
    stackWalk t.children steps [root] = some t.liveOrder
  /-- The order of the document is the recursive pre-order: a node, what comes of its hidden children,
  what comes of its expanded ones. -/
  recursive : ∃ walk : NodeId → List NodeId, t.documentOrder = walk root ∧ ∀ x, x < t.size →
    walk x = x :: ((t.children x).flatMap walk ++ (t.expandedChildren x).flatMap walk)
  /-- No node is visited twice. -/
  visitedOnce : t.documentOrder.Nodup
  /-- The live nodes are the nodes of the document that are live. -/
  live : t.liveOrder = t.documentOrder.filter t.isLive
  /-- Depths are levels of the pre-order. -/
  depths : t.documentOrder.map (fun x => (x, t.depth x)) = levels t.below t.size 0 root

/-- The views agree on every tree that commands lead to without putting a node below itself. -/
theorem Orderly.agreeing (h : Orderly t) : Agreeing t where
  listedOnce := h.linked.nodup_lists
  parent _ _ hc := h.linked.parent_below hc
  acyclic x := by
    obtain ⟨rank, h⟩ := h.linked
    exact h.not_above_self x
  loops steps hs x := ⟨h.linked.liveLoop hs x, fun scope => h.linked.scopeLoop hs scope x,
    h.linked.depthLoop hs x, fun hx => ⟨h.linked.resolveLoop hs hx, by
      rw [expandedText, if_pos hx]
      rfl⟩⟩
  walks steps hs := ⟨h.linked.stackWalk (fun _ => .refl _) hs,
    h.linked.stackWalk (fun _ => List.sublist_append_left _ _) hs⟩
  recursive := by
    refine ⟨preorder t.below t.size, rfl, fun x hx => ?_⟩
    rw [← List.flatMap_append]
    exact h.linked.ranked.preorder_eq (fun p c hc => h.linked.below_lt hc) hx
  visitedOnce := h.linked.nodup_order fun _ => .refl _
  live := by
    refine ((h.linked.filter_isLive t.size root).trans ?_).symm
    rw [if_pos isLive_root]
    rfl
  depths := by
    rw [← h.linked.depth_root, h.linked.levels_eq]
    rfl

/-- Hides a part of a text and expands it for good, then hides and unfolds another part. -/
def expandAndUnfold : List Command :=
  [.hideAll ['k'] ['a'] ['#'] ['*'], .unhideAll, .hideAll ['m'] ['b'] ['#'] ['*'],
    .unfold 2 ['<'] ['>']]

/-- The content of an expanded node moves to an unfolded one. -/
theorem agreeing_expandAndUnfold :
    let t := (((ofText ['a', 'b']).after expandAndUnfold).perform (.replaceNode 2 1)).tree
    Orderly t ∧ t.documentOrder = [0, 2, 1] ∧ t.liveOrder = [0, 2] ∧ t.unfolded = [2] ∧
      Agreeing t := by
  have h : Orderly ((ofText ['a', 'b']).after expandAndUnfold) :=
    .step (.step (.step (.step (.initial (.ofText _ _)) trivial) trivial) trivial) trivial
  -- the node is right below the root, and the root is all that is above it
  have hparent : (((ofText ['a', 'b']).after expandAndUnfold).node 2).parent = some root := by cbv
  have hkeeps : ((ofText ['a', 'b']).after expandAndUnfold).KeepsAncestry (.replaceNode 2 1) :=
    fun hup => absurd (h.reached.eq_root_of_above hparent hup) (by decide)
  exact ⟨h.step hkeeps, by cbv, by cbv, by cbv, Orderly.agreeing (h.step hkeeps)⟩

end GlyphTree.Tree
