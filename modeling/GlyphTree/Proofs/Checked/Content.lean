import GlyphTree.Proofs.Checked.Texts
import GlyphTree.Proofs.Views

/-!
# Checked moves

The views of a node's text and the moves on which all changes of a tree are built, with checks. They
are safe if every number that the nodes of a tree refer to is that of a node (`Housed`), if edits cut
pieces out of the text, and if a child that moves stands no sooner than where it moves from.
-/

namespace GlyphTree

/-! ## Folds in `Option` -/

/-- A loop whose steps give results gives what the loop over these gives. What the steps need holds
at the start and is kept. -/
theorem foldlM_eq_some {α β : Type} {P : β → Prop} {f : β → α → Option β} {g : β → α → β}
    {l : List α} {b : β} (h : P b)
    (hstep : ∀ b, P b → ∀ x ∈ l, f b x = some (g b x) ∧ P (g b x)) :
    l.foldlM f b = some (l.foldl g b) ∧ P (l.foldl g b) := by
  induction l generalizing b with
  | nil => exact ⟨rfl, h⟩
  | cons x l ih =>
    obtain ⟨hx, hP⟩ := hstep b h x List.mem_cons_self
    rw [List.foldlM_cons, bind_eq_of_some hx, List.foldl_cons]
    exact ih hP fun b hb y hy => hstep b hb y (List.mem_cons_of_mem x hy)

/-- The elements of a list that pass a test. -/
def filter? {α : Type} (f : α → Option Bool) : List α → Option (List α)
  | [] => some []
  | x :: l => do
    let keep ← f x
    let rest ← filter? f l
    return if keep then x :: rest else rest

theorem filter?_eq {α : Type} {f : α → Option Bool} {g : α → Bool} {l : List α}
    (h : ∀ x ∈ l, f x = some (g x)) : filter? f l = some (l.filter g) := by
  induction l with
  | nil => rfl
  | cons x l ih =>
    obtain ⟨hx, hl⟩ := List.forall_mem_cons.1 h
    rw [filter?, hx, ih hl, List.filter_cons]
    rfl

/-- `Option.mapM` of a function that always gives a result. -/
theorem mapM_option_eq_some {α β : Type} {f : α → Option β} {g : α → β} (h : ∀ x, f x = some (g x))
    (o : Option α) : o.mapM f = some (o.map g) := by
  cases o with
  | none => rfl
  | some x => simp [h]

/-! ## Nodes -/

namespace Node

/-- The stretches of the parent's text that are not literal because of the node. -/
def atoms? (n : Node) : Option (List Span) :=
  match n.place, n.fold with
  | none, _ => some []
  | some p, none => some [p.span]
  | some p, some f => do
    let closing ← minus? p.span.stop f.closing.utf8Size
    return [⟨p.span.start, p.span.start + f.opening.utf8Size⟩, ⟨closing, p.span.stop⟩]

/-- The node with the span of every group that has one changed. -/
def mapGroups? (n : Node) (f : Span → Option Span) : Option Node := do
  return { n with groups := ← n.groups.mapM fun gs => gs.mapM fun g => g.mapM f }

/-- The node with its span changed. -/
def mapSpan? (n : Node) (f : Span → Option Span) : Option Node := do
  return { n with place := ← n.place.mapM fun p => do return { p with span := ← f p.span } }

/-- Nothing that the node refers to has a number from `size` on. -/
def Housed (n : Node) (size : Nat) : Prop :=
  (∀ c ∈ n.children, c < size) ∧ ∀ p, n.parent = some p → p < size

variable {n : Node} {size : Nat} {f : Span → Option Span} {g : Span → Span}

theorem Housed.mapGroups (h : n.Housed size) : (n.mapGroups f).Housed size := h

theorem mapGroups?_eq (h : ∀ s, f s = some (g s)) (n : Node) :
    n.mapGroups? f = some (n.mapGroups fun s => some (g s)) := by
  have hs : ∀ s : Option Span, s.mapM f = some (s.bind fun s => some (g s)) := fun s => by
    rw [mapM_option_eq_some h]
    cases s <;> rfl
  have hgs : ∀ gs : List (Option Span), (gs.mapM fun s => s.mapM f) =
      some (gs.map (Option.bind · fun s => some (g s))) := fun gs =>
    Tree.mapM_eq_some fun s _ => hs s
  rw [mapGroups?, mapM_option_eq_some hgs]
  rfl

theorem mapSpan?_eq (h : ∀ s, f s = some (g s)) (n : Node) :
    n.mapSpan? f = some (n.mapSpan g) := by
  have hp : ∀ p : Place, (do return { p with span := ← f p.span } : Option Place) =
      some { p with span := g p.span } := fun p => by rw [h]; rfl
  rw [mapSpan?, mapM_option_eq_some hp]
  rfl

/-- The region of an unfolded node is no shorter than its closing marker. -/
theorem atoms?_eq {n : Node} (h : ∀ p f, n.place = some p → n.fold = some f →
    f.closing.utf8Size ≤ p.span.stop) : n.atoms? = some n.atoms := by
  unfold atoms? atoms
  cases hp : n.place with
  | none => rfl
  | some p =>
    cases hf : n.fold with
    | none => rfl
    | some f =>
      dsimp only
      rw [minus?_eq (h p f hp hf)]
      rfl

theorem Housed.mono {size' : Nat} (h : n.Housed size) (hs : size ≤ size') : n.Housed size' :=
  ⟨fun c hc => (h.1 c hc).trans_le hs, fun p hp => (h.2 p hp).trans_le hs⟩

end Node

namespace Tree

variable {t : Tree} {p q c id j : NodeId} {es : List Edit} {ks : List NodeId} {cs : Cells}

/-! ## Nodes of a tree -/

/-- The tree with one node changed, if there is such a node. -/
def modify? (t : Tree) (id : NodeId) (f : Node → Option Node) : Option Tree := do
  let n ← f (← t.node? id)
  return t.modify id fun _ => n

/-- The hidden and unfolded children of a node. -/
def children? (t : Tree) (id : NodeId) : Option (List NodeId) := (t.node? id).map Node.children

/-- The tree with other children at a node. -/
def setChildren? (t : Tree) (id : NodeId) (children : List NodeId) : Option Tree :=
  t.modify? id fun n => some { n with children }

theorem modify?_eq {f : Node → Option Node} {g : Node → Node} (h : id < t.size)
    (hf : f (t.node id) = some (g (t.node id))) : t.modify? id f = some (t.modify id g) := by
  rw [modify?, bind_eq_of_some (node?_eq h), bind_eq_of_some hf]
  refine congrArg some (eq_of_stripped rfl (by simp) fun j => ?_)
  rw [node_modify, node_modify]
  split
  · next hj => rw [hj.1]
  · rfl

theorem modify?_some (h : id < t.size) (g : Node → Node) :
    (t.modify? id fun n => some (g n)) = some (t.modify id g) := modify?_eq h rfl

theorem children?_eq (h : id < t.size) : t.children? id = some (t.children id) := by
  rw [children?, node?_eq h]
  rfl

theorem setChildren?_eq (h : id < t.size) (ks : List NodeId) :
    t.setChildren? id ks = some (t.setChildren id ks) := modify?_some h _

/-! ## Housed trees -/

/-- Every number that a node refers to is that of a node. -/
def Housed (t : Tree) : Prop := ∀ j, (t.node j).Housed t.size

theorem Housed.lt_of_mem (h : t.Housed) (hc : c ∈ t.children p) : c < t.size := (h p).1 c hc

theorem Housed.modify {f : Node → Node} (h : t.Housed)
    (hf : (t.node id).Housed t.size → (f (t.node id)).Housed t.size) :
    (t.modify id f).Housed := fun j => by
  rw [size_modify, node_modify]
  split
  · next hj => exact hj.1 ▸ hf (h id)
  · exact h j

theorem Housed.foldl {α : Type} {g : Tree → α → Tree} (hg : ∀ t x, t.Housed → (g t x).Housed)
    (l : List α) (h : t.Housed) : (l.foldl g t).Housed :=
  l.foldlRecOn g h fun u hu x _ => hg u x hu

theorem Housed.setChildren (h : t.Housed) (hks : ∀ c ∈ ks, c < t.size) :
    (t.setChildren p ks).Housed :=
  h.modify fun hn => ⟨hks, hn.2⟩

theorem Housed.alloc {n : Node} (h : t.Housed) (hn : n.Housed t.size) : (t.alloc n).Housed :=
  fun j => by
    rw [node_alloc, size_alloc]
    split
    · exact hn.mono (Nat.le_succ _)
    · exact (h j).mono (Nat.le_succ _)

theorem housed_of_nodes {t' : Tree} (h : t.Housed) (hn : t'.nodes = t.nodes) : t'.Housed :=
  fun j => by
    have hnode : t'.node j = t.node j := by rw [node, node, hn]
    have hsize : t'.size = t.size := by rw [size, size, hn]
    rw [hnode, hsize]
    exact h j

theorem parent_followEdits (es : List Edit) (n : Node) :
    (followEdits es n).parent = n.parent := by
  rw [Node.parent, followEdits_place, Option.map_map]
  rfl

theorem Housed.rewrite (h : t.Housed) (p : NodeId) (es : List Edit) : (t.rewrite p es).Housed := by
  unfold Tree.rewrite
  split
  · exact h
  · have hfollow : ∀ (u : Tree) c, u.Housed → (u.modify c (followEdits es)).Housed := fun u c hu =>
      hu.modify fun hn => ⟨by simpa using hn.1, by simpa only [parent_followEdits] using hn.2⟩
    have htext : (t.modify p fun n => { n with text := applyEdits n.text es }).Housed :=
      h.modify fun hn => hn
    exact (htext.foldl hfollow _).modify Node.Housed.mapGroups

theorem Housed.putChild (h : t.Housed) (hp : p < t.size) (hc : c < t.size) (s : Span) :
    (t.putChild p c s).Housed := by
  have hplace : (t.modify c fun n => { n with place := some ⟨p, s⟩ }).Housed :=
    h.modify fun hn => ⟨hn.1, fun q hq => by cases hq; exact hp⟩
  refine hplace.setChildren fun k hk => ?_
  have hk := (insertByStart_perm _ _ _).subset hk
  rcases List.mem_cons.1 hk with rfl | hk
  · rwa [size_modify]
  · exact hplace.lt_of_mem hk

theorem Housed.moveChild (h : t.Housed) (hp : p < t.size) (hc : c < t.size) (sub add : Nat) :
    (t.moveChild p sub add c).Housed := by
  unfold Tree.moveChild
  have hgroups : (if (t.node c).isUnfolded then t.modify c (moveGroups sub add) else t).Housed ∧
      (if (t.node c).isUnfolded then t.modify c (moveGroups sub add) else t).size = t.size := by
    split
    · exact ⟨h.modify fun hn => hn, size_modify ..⟩
    · exact ⟨h, rfl⟩
  generalize (if (t.node c).isUnfolded then t.modify c (moveGroups sub add) else t) = u at hgroups ⊢
  obtain ⟨hu, hsize⟩ := hgroups
  dsimp only
  split
  · exact hu.putChild (hsize ▸ hp) (hsize ▸ hc) _
  · exact hu

/-! ## Views of a text -/

/-- The bytes of a node's text that are not literal, by start. -/
def atoms? (t : Tree) (id : NodeId) : Option (List Span) := do
  let atoms ← (← t.children? id).mapM fun c => do (← t.node? c).atoms?
  return sortByKey Span.start atoms.flatten

/-- The maximal literal runs of a node's text. -/
def literalRuns? (t : Tree) (id : NodeId) : Option (List Span) := do
  let n ← t.node? id
  return GlyphTree.literalRuns n.text.byteSize (← t.atoms? id)

/-- An unfolded child ends with its closing marker. -/
theorem Layout.atoms?_child (h : Layout t p cs) (hc : c ∈ t.children p) :
    (t.node c).atoms? = some (t.node c).atoms := by
  refine Node.atoms?_eq fun pl f hpl hf => ?_
  obtain ⟨a, b, z, rfl⟩ := h.exists_unfolded hc hf
  obtain rfl := Option.some.inj (hpl.symm.trans h.place_of_unfolded)
  exact Nat.le_add_left ..

theorem Layout.mapM_atoms? (h : Layout t p cs) :
    (t.children p).mapM (fun c => do (← t.node? c).atoms?) =
      some ((t.children p).map fun c => (t.node c).atoms) :=
  mapM_eq_some fun c hc => by
    rw [bind_eq_of_some (node?_eq (h.lt_size hc)), h.atoms?_child hc]

theorem Layout.atoms?_eq (h : Layout t p cs) : t.atoms? p = some (t.atoms p) := by
  rw [atoms?, bind_eq_of_some (children?_eq h.lt), bind_eq_of_some h.mapM_atoms?, Tree.atoms,
    List.flatMap_def]
  rfl

theorem Layout.literalRuns?_eq (h : Layout t p cs) :
    t.literalRuns? p = some (t.literalRuns p) := by
  rw [literalRuns?, node?_eq h.lt, h.atoms?_eq]
  rfl

/-! ## Moves -/

/-- A node after edits to its parent's text. -/
def followEdits? (es : List Edit) (n : Node) : Option Node := do
  let n ← n.mapSpan? (remapSpan? · es)
  if n.isUnfolded then n.mapGroups? (remapSpan? · es) else return n

/-- Edits a node's text. The children listed at the node and its groups follow. -/
def rewrite? (t : Tree) (id : NodeId) (es : List Edit) : Option Tree :=
  if es.isEmpty then some t
  else do
    let t ← t.modify? id fun n => do return { n with text := ← applyEdits? n.text es }
    let t ← (← t.children? id).foldlM (fun t c => t.modify? c (followEdits? es)) t
    t.modify? id fun n => n.mapGroups? (remapSpan? · es)

/-- Where a child's span starts, for the order of siblings. -/
def startOf? (t : Tree) (id : NodeId) : Option Nat := do
  let n ← t.node? id
  return (n.span.map Span.start).getD 0

/-- A list of siblings with one more, before the first that starts later. -/
def insertByStart? (t : Tree) (child : NodeId) : List NodeId → Option (List NodeId)
  | [] => some [child]
  | c :: cs => do
    if (← t.startOf? child) < (← t.startOf? c) then return child :: c :: cs
    else return c :: (← t.insertByStart? child cs)

/-- Puts a node that stands at `span` into a parent's list of children. -/
def putChild? (t : Tree) (parent child : NodeId) (span : Span) : Option Tree := do
  let t ← t.modify? child fun n => some { n with place := some ⟨parent, span⟩ }
  t.setChildren? parent (← t.insertByStart? child (← t.children? parent))

/-- Moves a child, from offset `sub` of the text it stands in, to offset `add` of the text of
`parent`. -/
def moveChild? (t : Tree) (parent : NodeId) (sub add : Nat) (child : NodeId) : Option Tree := do
  let n ← t.node? child
  let grouped := if n.isUnfolded then t.modify? child fun n => some (moveGroups sub add n) else t
  let t ← grouped
  match n.span with
  | some s => t.putChild? parent child (← movedSpan sub add s)
  | none => return t

theorem followEdits?_eq (h : ∀ s, remapSpan? s es = some (remapSpan s es)) (n : Node) :
    followEdits? es n = some (followEdits es n) := by
  rw [followEdits?, bind_eq_of_some (Node.mapSpan?_eq h n), followEdits]
  split
  · exact Node.mapGroups?_eq h _
  · rfl

theorem rewrite?_eq (h : t.Housed) (hid : id < t.size)
    (hp : Pieces 0 (t.node id).text (es.map Edit.range)) :
    t.rewrite? id es = some (t.rewrite id es) := by
  have hspan : ∀ s, remapSpan? s es = some (remapSpan s es) := fun s => remapSpan?_eq hp s
  have htext : (t.modify? id fun n => do return { n with text := ← applyEdits? n.text es }) =
      some (t.modify id fun n => { n with text := applyEdits n.text es }) :=
    modify?_eq hid (by rw [applyEdits?_eq hp]; rfl)
  rw [rewrite?, rewrite]
  split
  · rfl
  · rw [bind_eq_of_some htext]
    generalize hu : (t.modify id fun n => { n with text := applyEdits n.text es }) = u
    have hu' : u.Housed := hu ▸ h.modify fun hn => hn
    have hidu : id < u.size := by rw [← hu, size_modify]; exact hid
    rw [bind_eq_of_some (children?_eq hidu)]
    obtain ⟨hfold, hsize⟩ := foldlM_eq_some (P := fun v : Tree => v.size = u.size)
      (f := fun t c => t.modify? c (followEdits? es)) (g := fun t c => t.modify c (followEdits es))
      (l := u.children id) rfl fun v hv c hc => ⟨modify?_eq (hv ▸ hu'.lt_of_mem hc)
        (followEdits?_eq hspan _), (size_modify ..).trans hv⟩
    rw [bind_eq_of_some hfold]
    exact modify?_eq (hsize ▸ hidu) (Node.mapGroups?_eq hspan _)

theorem startOf?_eq (h : id < t.size) : t.startOf? id = some (t.startOf id) := by
  rw [startOf?, node?_eq h]
  rfl

theorem insertByStart?_eq (hc : c < t.size) (hks : ∀ k ∈ ks, k < t.size) :
    t.insertByStart? c ks = some (t.insertByStart c ks) := by
  induction ks with
  | nil => rfl
  | cons k ks ih =>
    obtain ⟨hk, hks⟩ := List.forall_mem_cons.1 hks
    rw [insertByStart?, insertByStart, startOf?_eq hc, startOf?_eq hk, ih hks]
    simp only [Option.bind_eq_bind, Option.bind_some, Option.pure_def]
    split <;> rfl

theorem putChild?_eq (h : t.Housed) (hp : p < t.size) (hc : c < t.size) (s : Span) :
    t.putChild? p c s = some (t.putChild p c s) := by
  rw [putChild?, modify?_some hc,
    Option.bind_eq_bind, Option.bind_some, putChild]
  generalize hu : (t.modify c fun n => { n with place := some ⟨p, s⟩ }) = u
  have hsize : u.size = t.size := hu ▸ size_modify ..
  have hu' : u.Housed := hu ▸ h.modify fun hn => ⟨hn.1, fun q hq => by cases hq; exact hp⟩
  rw [← hsize] at hp hc
  rw [children?_eq hp, Option.bind_eq_bind, Option.bind_some,
    insertByStart?_eq hc fun k hk => hu'.lt_of_mem hk, Option.bind_some]
  exact setChildren?_eq hp _

/-! ## Moving children -/

/-- The span of a node does not move below zero if it moves by `add - sub`. -/
def MovesBy (t : Tree) (sub add : Nat) (c : NodeId) : Prop :=
  ∀ s, (t.node c).span = some s → sub ≤ s.start + add ∧ sub ≤ s.stop + add

theorem MovesBy.congr {u : Tree} {sub add : Nat} (h : t.MovesBy sub add c)
    (hplace : (u.node c).place = (t.node c).place) : u.MovesBy sub add c := fun s hs =>
  h s (by rwa [Node.span, ← hplace])

/-- Nothing moves below zero on the way from the start of a text. -/
theorem movesBy_zero (t : Tree) (add : Nat) (c : NodeId) : t.MovesBy 0 add c := fun _ _ =>
  ⟨Nat.zero_le _, Nat.zero_le _⟩

theorem place_modify (t : Tree) (id j : NodeId) {f : Node → Node}
    (hf : (f (t.node j)).place = (t.node j).place) :
    ((t.modify id f).node j).place = (t.node j).place := by
  rw [node_modify]
  split
  · exact hf
  · rfl

/-- A text may be edited without the children off the list. -/
theorem place_rewrite (hj : j ∉ t.children p) (es : List Edit) :
    ((t.rewrite p es).node j).place = (t.node j).place := by
  unfold Tree.rewrite
  split
  · rfl
  · refine (place_modify _ p j rfl).trans ?_
    generalize hu : (t.modify p fun n => { n with text := applyEdits n.text es }) = u
    have hplace : (u.node j).place = (t.node j).place := hu ▸ place_modify t p j rfl
    have hkids : u.children p = t.children p := by
      rw [← hu, Tree.children, node_modify]
      split <;> rfl
    refine ((u.children p).foldlRecOn _ (motive := fun v : Tree => (v.node j).place = (u.node j).place)
      rfl fun v hv c hc => ?_).trans hplace
    have hne : j ≠ c := fun e => hj (hkids ▸ e ▸ hc)
    rw [node_modify, if_neg fun e => hne e.1]
    exact hv

theorem place_putChild (hj : j ≠ c) (s : Span) :
    ((t.putChild p c s).node j).place = (t.node j).place := by
  refine (place_modify _ p j rfl).trans ?_
  rw [node_modify, if_neg fun e => hj e.1]

theorem place_moveChild (hj : j ≠ c) (sub add : Nat) :
    ((t.moveChild p sub add c).node j).place = (t.node j).place := by
  unfold Tree.moveChild
  have hgroups : ((if (t.node c).isUnfolded then t.modify c (moveGroups sub add) else t).node
      j).place = (t.node j).place := by
    split
    · exact place_modify t c j rfl
    · rfl
  dsimp only
  split
  · exact (place_putChild hj _).trans hgroups
  · exact hgroups

theorem moveChild?_eq (h : t.Housed) (hp : p < t.size) (hc : c < t.size) {sub add : Nat}
    (hs : t.MovesBy sub add c) : t.moveChild? p sub add c = some (t.moveChild p sub add c) := by
  have hgroups : (if (t.node c).isUnfolded then t.modify? c fun n => some (moveGroups sub add n)
      else t) =
        some (if (t.node c).isUnfolded then t.modify c (moveGroups sub add) else t) := by
    split
    · exact modify?_some hc _
    · rfl
  rw [moveChild?, moveChild, node?_eq hc, Option.bind_eq_bind, Option.bind_some, hgroups]
  simp only [Option.bind_eq_bind, Option.bind_some]
  generalize hu : (if (t.node c).isUnfolded then t.modify c (moveGroups sub add) else t) = u
  have hu' : u.Housed ∧ u.size = t.size ∧ (u.node c).place = (t.node c).place := by
    rw [← hu]
    split
    · exact ⟨h.modify fun hn => hn, size_modify .., place_modify t c c rfl⟩
    · exact ⟨h, rfl, rfl⟩
  obtain ⟨hhoused, hsize, hplace⟩ := hu'
  have hspan : (u.node c).span = (t.node c).span := by rw [Node.span, hplace]; rfl
  rw [hspan]
  cases hns : (t.node c).span with
  | none => rfl
  | some s =>
    dsimp only
    rw [movedSpan, if_pos (hs s hns), Option.bind_some]
    exact putChild?_eq hhoused (hsize ▸ hp) (hsize ▸ hc) _

/-- Moving one child after the other. Other nodes stand where they stood. -/
theorem foldlM_moveChild? (h : t.Housed) (hp : p < t.size) (hnd : ks.Nodup) {sub add : Nat}
    (hks : ∀ c ∈ ks, c < t.size ∧ t.MovesBy sub add c) :
    ks.foldlM (fun t c => t.moveChild? p sub add c) t =
        some (ks.foldl (fun t c => t.moveChild p sub add c) t) ∧
      (ks.foldl (fun t c => t.moveChild p sub add c) t).Housed ∧
      ∀ j, j ∉ ks → ((ks.foldl (fun t c => t.moveChild p sub add c) t).node j).place =
        (t.node j).place := by
  induction ks generalizing t with
  | nil => exact ⟨rfl, h, fun _ _ => rfl⟩
  | cons c ks ih =>
    obtain ⟨hnot, hnd⟩ := List.nodup_cons.1 hnd
    obtain ⟨⟨hc, hmove⟩, hks⟩ := List.forall_mem_cons.1 hks
    have hother : ∀ j, j ≠ c → ((t.moveChild p sub add c).node j).place = (t.node j).place :=
      fun j hj => place_moveChild hj sub add
    obtain ⟨hrest, hhoused, hplace⟩ := ih (h.moveChild hp hc sub add)
      (by rwa [size_moveChild]) hnd fun k hk => by
        have hne : k ≠ c := fun e => hnot (e ▸ hk)
        exact ⟨by rw [size_moveChild]; exact (hks k hk).1, (hks k hk).2.congr (hother k hne)⟩
    rw [List.foldlM_cons, moveChild?_eq h hp hc hmove]
    refine ⟨hrest, hhoused, fun j hj => ?_⟩
    obtain ⟨hjc, hjks⟩ := List.ne_and_not_mem_of_not_mem_cons hj
    exact (hplace j hjks).trans (hother j hjc)

end Tree

end GlyphTree
