import GlyphTree.Tree.Content
import Mathlib.Data.List.Nodup

/-!
# What moves do to nodes

Each of the moves on which the changes of a tree are built changes a few nodes and leaves all others
as they are. Here is what every node is after one of them, given that the children of a node are
distinct and do not count the node itself.
-/

namespace GlyphTree

/-- What a tree holds beside its nodes and their names. -/
structure Aside where
  cursors : Cursors
  ignored : List NodeId
  folds : List NodeId
  labels : Registry
  config : Config

attribute [ext] Node

section
variable {m n : Node} {F : Fold}

theorem Node.isUnfolded_congr (h : m.fold = n.fold) : m.isUnfolded = n.isUnfolded :=
  congrArg Option.isSome h

theorem Node.isUnfolded_of_some (h : n.fold = some F) : n.isUnfolded = true :=
  congrArg Option.isSome h

theorem Node.isUnfolded_of_none (h : n.fold = none) : n.isUnfolded = false :=
  congrArg Option.isSome h

end

namespace Tree

/-- What the tree holds beside its nodes and their names. -/
def aside (t : Tree) : Aside := ⟨t.cursors, t.ignored, t.folds, t.labels, t.config⟩

/-- A tree without its nodes. -/
def stripped (t : Tree) : Tree := { t with nodes := #[] }

variable {t : Tree} {p q id j : NodeId}

theorem aside_of_stripped {t' : Tree} (h : t'.stripped = t.stripped) : t'.aside = t.aside :=
  show t'.stripped.aside = t.stripped.aside from congrArg aside h

theorem folds_of_aside {t' : Tree} (h : t'.aside = t.aside) : t'.folds = t.folds :=
  congrArg Aside.folds h

theorem node_eq_default (h : t.size ≤ id) : t.node id = default := by
  have hn : t.nodes[id]? = none := Array.getElem?_eq_none h
  simp [node, hn]

theorem node?_eq (h : id < t.size) : t.node? id = some (t.node id) := by
  have hn : t.nodes[id]? = some t.nodes[id] := Array.getElem?_eq_getElem h
  rw [node?, node, hn]
  rfl

theorem lt_size_of_parent (h : (t.node id).parent = some q) : id < t.size := by
  rcases Nat.lt_or_ge id t.size with hlt | hge
  · exact hlt
  · rw [node_eq_default hge] at h
    cases h

theorem lt_size_of_mem_children (h : id ∈ t.children p) : p < t.size := by
  rcases Nat.lt_or_ge p t.size with hlt | hge
  · exact hlt
  · rw [children, node_eq_default hge] at h
    cases h

/-- A tree is given by its nodes and what it holds beside them. -/
theorem eq_of_stripped {t' : Tree} (h : t'.stripped = t.stripped) (hsize : t'.size = t.size)
    (hnode : ∀ j, t'.node j = t.node j) : t' = t := by
  have hnodes : t'.nodes = t.nodes := by
    refine Array.ext hsize fun i hi hi' => ?_
    have := hnode i
    rw [node, node, Array.getElem?_eq_getElem hi, Array.getElem?_eq_getElem hi'] at this
    exact this
  have := congrArg (fun s : Tree => { s with nodes := t'.nodes }) h
  exact this.trans (by rw [hnodes]; rfl)

/-! ## Single changes -/

@[simp] theorem stripped_modify (t : Tree) (id : NodeId) (f : Node → Node) :
    (t.modify id f).stripped = t.stripped := rfl

@[simp] theorem aside_modify (t : Tree) (id : NodeId) (f : Node → Node) :
    (t.modify id f).aside = t.aside := rfl

@[simp] theorem size_setChildren (t : Tree) (p : NodeId) (ks : List NodeId) :
    (t.setChildren p ks).size = t.size := size_modify t p _

@[simp] theorem stripped_setChildren (t : Tree) (p : NodeId) (ks : List NodeId) :
    (t.setChildren p ks).stripped = t.stripped := rfl

@[simp] theorem aside_setChildren (t : Tree) (p : NodeId) (ks : List NodeId) :
    (t.setChildren p ks).aside = t.aside := rfl

theorem node_setChildren (ks : List NodeId) (hp : p < t.size) :
    (t.setChildren p ks).node j = if j = p then { t.node p with children := ks } else t.node j := by
  rw [setChildren, node_modify]
  by_cases h : j = p
  · subst h
    rw [if_pos ⟨rfl, hp⟩, if_pos rfl]
  · rw [if_neg (fun h' => h h'.1), if_neg h]

theorem modify_eq_self {f : Node → Node} (h : f (t.node id) = t.node id) : t.modify id f = t := by
  unfold modify
  congr 1
  refine Array.ext_getElem? fun i => ?_
  rw [Array.getElem?_modify]
  split
  · rename_i hi
    subst hi
    cases hn : t.nodes[id]? with
    | none => rfl
    | some n =>
      rw [node, hn] at h
      exact congrArg some h
  · rfl

theorem modify_modify (t : Tree) (id : NodeId) (f g : Node → Node) :
    (t.modify id f).modify id g = t.modify id fun n => g (f n) := by
  unfold modify
  congr 1
  refine Array.ext_getElem? fun i => ?_
  simp only [Array.getElem?_modify]
  split <;> simp [Function.comp_def]

theorem setChildren_setChildren (t : Tree) (p : NodeId) (ks ls : List NodeId) :
    (t.setChildren p ks).setChildren p ls = t.setChildren p ls := modify_modify t p _ _

theorem size_foldl_modify (f : Node → Node) (ks : List NodeId) :
    (ks.foldl (fun t c => t.modify c f) t).size = t.size := by
  induction ks generalizing t with
  | nil => rfl
  | cons k ks ih => rw [List.foldl_cons, ih, size_modify]

theorem stripped_foldl_modify (f : Node → Node) (ks : List NodeId) :
    (ks.foldl (fun t c => t.modify c f) t).stripped = t.stripped := by
  induction ks generalizing t with
  | nil => rfl
  | cons k ks ih => rw [List.foldl_cons, ih, stripped_modify]

theorem aside_foldl_modify (f : Node → Node) (ks : List NodeId) :
    (ks.foldl (fun t c => t.modify c f) t).aside = t.aside :=
  aside_of_stripped (stripped_foldl_modify f ks)

theorem node_foldl_modify (f : Node → Node) {ks : List NodeId} (hks : ks.Nodup)
    (hlt : ∀ k ∈ ks, k < t.size) :
    (ks.foldl (fun t c => t.modify c f) t).node j = if j ∈ ks then f (t.node j) else t.node j := by
  induction ks generalizing t with
  | nil => rfl
  | cons k ks ih =>
    obtain ⟨hk, hks⟩ := List.nodup_cons.1 hks
    rw [List.foldl_cons, ih hks fun i hi => by simpa using hlt i (List.mem_cons_of_mem _ hi)]
    simp only [node_modify, List.mem_cons]
    by_cases hj : j = k
    · subst hj
      rw [if_neg hk, if_pos ⟨rfl, hlt j List.mem_cons_self⟩, if_pos (Or.inl rfl)]
    · simp only [hj, false_and, if_false, false_or]

/-! ## Rewriting -/

@[simp] theorem size_rewrite (t : Tree) (p : NodeId) (es : List Edit) :
    (t.rewrite p es).size = t.size := by
  unfold rewrite
  split
  · rfl
  · simp [size_foldl_modify]

@[simp] theorem stripped_rewrite (t : Tree) (p : NodeId) (es : List Edit) :
    (t.rewrite p es).stripped = t.stripped := by
  unfold rewrite
  split
  · rfl
  · simp [stripped_foldl_modify]

@[simp] theorem aside_rewrite (t : Tree) (p : NodeId) (es : List Edit) :
    (t.rewrite p es).aside = t.aside := aside_of_stripped (stripped_rewrite t p es)

/-- A node whose own text is edited. -/
def edited (es : List Edit) (n : Node) : Node :=
  { n.mapGroups (some <| remapSpan · es) with text := applyEdits n.text es }

theorem node_rewrite {es : List Edit} (he : es ≠ []) (hp : p < t.size)
    (hks : (t.children p).Nodup) (hlt : ∀ k ∈ t.children p, k < t.size)
    (hself : p ∉ t.children p) :
    (t.rewrite p es).node j =
      if j = p then edited es (t.node p)
      else if j ∈ t.children p then followEdits es (t.node j)
      else t.node j := by
  have he' : es.isEmpty = false := by simpa using he
  simp only [rewrite, he', Bool.false_eq_true, if_false]
  have hc : (t.modify p fun n => { n with text := applyEdits n.text es }).children p =
      t.children p := by
    simp only [children, node_modify, hp, and_self, if_true]
  rw [hc, node_modify, size_foldl_modify, size_modify,
    node_foldl_modify _ hks (fun k hk => by simpa using hlt k hk), node_modify]
  by_cases hj : j = p
  · subst hj
    simp [hp, hself, edited, Node.mapGroups]
  · simp [hj]

section
variable (es : List Edit) (n : Node)

theorem followEdits_eq : followEdits es n =
    { n with
      place := n.place.map fun pl => { pl with span := remapSpan pl.span es }
      groups := if n.isUnfolded then (n.mapGroups (some <| remapSpan · es)).groups
        else n.groups } := by
  have hm : (n.mapSpan (remapSpan · es)).isUnfolded = n.isUnfolded := rfl
  by_cases hu : n.isUnfolded = true
  · simp only [followEdits, hm, hu, if_true]
    rfl
  · simp only [followEdits, hm, hu, if_false, Bool.false_eq_true]
    rfl

@[simp] theorem followEdits_name : (followEdits es n).name = n.name := by rw [followEdits_eq]

@[simp] theorem followEdits_text : (followEdits es n).text = n.text := by rw [followEdits_eq]

@[simp] theorem followEdits_fold : (followEdits es n).fold = n.fold := by rw [followEdits_eq]

@[simp] theorem followEdits_children : (followEdits es n).children = n.children := by
  rw [followEdits_eq]

@[simp] theorem followEdits_expanded : (followEdits es n).expanded = n.expanded := by
  rw [followEdits_eq]

@[simp] theorem followEdits_place : (followEdits es n).place =
    n.place.map fun pl => { pl with span := remapSpan pl.span es } := by
  rw [followEdits_eq]

end

/-! ## Putting a child -/

@[simp] theorem size_putChild (t : Tree) (p c : NodeId) (s : Span) :
    (t.putChild p c s).size = t.size := by
  simp [putChild]

@[simp] theorem stripped_putChild (t : Tree) (p c : NodeId) (s : Span) :
    (t.putChild p c s).stripped = t.stripped := rfl

@[simp] theorem aside_putChild (t : Tree) (p c : NodeId) (s : Span) :
    (t.putChild p c s).aside = t.aside := rfl

/-- A child goes between the siblings that start no later and those that start later. -/
theorem insertByStart_append {l r : List NodeId} (hl : ∀ k ∈ l, t.startOf k ≤ t.startOf id)
    (hr : ∀ k ∈ r, t.startOf id < t.startOf k) :
    t.insertByStart id (l ++ r) = l ++ id :: r := by
  induction l with
  | nil =>
    cases r with
    | nil => rfl
    | cons k r => simp [insertByStart, hr k List.mem_cons_self]
  | cons k l ih =>
    have hk := hl k List.mem_cons_self
    rw [List.cons_append, insertByStart, if_neg (by omega),
      ih fun i hi => hl i (List.mem_cons_of_mem _ hi)]
    rfl

theorem node_putChild {c : NodeId} {s : Span} {l r : List NodeId} (hp : p < t.size)
    (hc : c < t.size) (hcp : c ≠ p) (hks : t.children p = l ++ r) (hcl : c ∉ l) (hcr : c ∉ r)
    (hl : ∀ k ∈ l, t.startOf k ≤ s.start) (hr : ∀ k ∈ r, s.start < t.startOf k) :
    (t.putChild p c s).node j =
      if j = c then { t.node c with place := some ⟨p, s⟩ }
      else if j = p then { t.node p with children := l ++ c :: r }
      else t.node j := by
  have hchildren : (t.modify c fun n => { n with place := some ⟨p, s⟩ }).children p = l ++ r := by
    simp only [children, node_modify, Ne.symm hcp, false_and, if_false]
    exact hks
  have hstart : ∀ k, (t.modify c fun n => { n with place := some ⟨p, s⟩ }).startOf k =
      if k = c then s.start else t.startOf k := by
    intro k
    simp only [startOf, node_modify]
    by_cases hk : k = c
    · subst hk
      simp [hc, Node.span]
    · simp [hk]
  have hins : (t.modify c fun n => { n with place := some ⟨p, s⟩ }).insertByStart c (l ++ r) =
      l ++ c :: r := by
    refine insertByStart_append (fun k hk => ?_) (fun k hk => ?_)
    · rw [hstart, hstart, if_neg (fun e : k = c => hcl (e ▸ hk)), if_pos rfl]
      exact hl k hk
    · rw [hstart, hstart, if_neg (fun e : k = c => hcr (e ▸ hk)), if_pos rfl]
      exact hr k hk
  simp only [putChild, hchildren, hins]
  rw [node_setChildren _ (by simpa using hp), node_modify, node_modify]
  by_cases hj : j = c
  · subst hj
    simp [hc, hcp]
  · simp [hj, Ne.symm hcp]

/-! ## Moving children -/

/-- A node moved to another text, from offset `sub` of the old one to offset `add` of that of
`q`. -/
def moved (q : NodeId) (sub add : Nat) (n : Node) : Node :=
  { n with
    place := n.place.map fun pl => ⟨q, ⟨pl.span.start + add - sub, pl.span.stop + add - sub⟩⟩
    groups := if n.isUnfolded then (moveGroups sub add n).groups else n.groups }

@[simp] theorem size_moveChild (t : Tree) (q : NodeId) (sub add : Nat) (c : NodeId) :
    (t.moveChild q sub add c).size = t.size := by
  unfold moveChild
  dsimp only
  split <;> split <;> simp

@[simp] theorem stripped_moveChild (t : Tree) (q : NodeId) (sub add : Nat) (c : NodeId) :
    (t.moveChild q sub add c).stripped = t.stripped := by
  unfold moveChild
  dsimp only
  split <;> split <;> rfl

theorem node_moveChild {c : NodeId} {sub add : Nat} {l r : List NodeId} (hq : q < t.size)
    (hc : (t.node c).parent = some p) (hcq : c ≠ q) (hks : t.children q = l ++ r) (hcl : c ∉ l)
    (hcr : c ∉ r) (hl : ∀ k ∈ l, t.startOf k ≤ t.startOf c + add - sub)
    (hr : ∀ k ∈ r, t.startOf c + add - sub < t.startOf k) :
    (t.moveChild q sub add c).node j =
      if j = c then moved q sub add (t.node c)
      else if j = q then { t.node q with children := l ++ c :: r }
      else t.node j := by
  have hlt := lt_size_of_parent hc
  obtain ⟨pl, hpl, rfl⟩ := Option.map_eq_some_iff.1 hc
  have hst : t.startOf c = pl.span.start := by simp [startOf, Node.span, hpl]
  rw [hst] at hl hr
  unfold moveChild
  -- the groups of an unfolded child move first; the child is in place as before
  generalize ht' : (if (t.node c).isUnfolded then t.modify c (moveGroups sub add) else t) = t'
  have hnode : ∀ k, t'.node k = if k = c then
      (if (t.node c).isUnfolded then moveGroups sub add (t.node c) else t.node c)
      else t.node k := by
    intro k
    subst ht'
    by_cases hk : k = c
    · subst hk
      split <;> simp [node_modify, hlt]
    · split <;> simp [node_modify, hk]
  have hsize : t'.size = t.size := by
    subst ht'
    split <;> simp
  have hspan : (t'.node c).place = (t.node c).place := by
    rw [hnode, if_pos rfl]
    split <;> rfl
  have hstart : ∀ k, t'.startOf k = t.startOf k := by
    intro k
    by_cases hk : k = c
    · subst hk
      simp only [startOf, Node.span, hspan]
    · simp only [startOf, hnode, if_neg hk]
  have hspan' : (t'.node c).span = some pl.span := by simp [Node.span, hspan, hpl]
  simp only [hspan']
  rw [node_putChild (l := l) (r := r) (hsize ▸ hq) (hsize ▸ hlt) hcq
    (by simpa [children, hnode, Ne.symm hcq] using hks) hcl hcr
    (fun k hk => by rw [hstart]; exact hl k hk) (fun k hk => by rw [hstart]; exact hr k hk)]
  by_cases hj : j = c
  · subst hj
    rw [if_pos rfl, if_pos rfl, hnode, if_pos rfl]
    split <;> rename_i hu <;> simp [moved, hu, hpl, moveGroups, Node.mapGroups]
  · simp [hj, hnode, Ne.symm hcq]

theorem startOf_moveChild {c : NodeId} {sub add : Nat} {l r : List NodeId} (hq : q < t.size)
    (hc : (t.node c).parent = some p) (hcq : c ≠ q) (hks : t.children q = l ++ r) (hcl : c ∉ l)
    (hcr : c ∉ r) (hl : ∀ k ∈ l, t.startOf k ≤ t.startOf c + add - sub)
    (hr : ∀ k ∈ r, t.startOf c + add - sub < t.startOf k) :
    (t.moveChild q sub add c).startOf j =
      if j = c then t.startOf c + add - sub else t.startOf j := by
  have hnode := fun j => node_moveChild (j := j) hq hc hcq hks hcl hcr hl hr
  by_cases hj : j = c
  · subst hj
    obtain ⟨pl, hpl, -⟩ := Option.map_eq_some_iff.1 hc
    simp [startOf, Node.span, hnode, moved, hpl]
  · simp only [startOf, Node.span, hnode, if_neg hj]
    split
    · rename_i hjq
      rw [hjq]
    · rfl

@[simp] theorem size_foldl_moveChild (q : NodeId) (sub add : Nat) (ks : List NodeId) :
    (ks.foldl (fun t c => t.moveChild q sub add c) t).size = t.size := by
  induction ks generalizing t with
  | nil => rfl
  | cons k ks ih => rw [List.foldl_cons, ih, size_moveChild]

@[simp] theorem stripped_foldl_moveChild (q : NodeId) (sub add : Nat) (ks : List NodeId) :
    (ks.foldl (fun t c => t.moveChild q sub add c) t).stripped = t.stripped := by
  induction ks generalizing t with
  | nil => rfl
  | cons k ks ih => rw [List.foldl_cons, ih, stripped_moveChild]

@[simp] theorem aside_foldl_moveChild (q : NodeId) (sub add : Nat) (ks : List NodeId) :
    (ks.foldl (fun t c => t.moveChild q sub add c) t).aside = t.aside :=
  aside_of_stripped (stripped_foldl_moveChild q sub add ks)

/-- Moving siblings, in order, to a gap between the children of `q`. -/
theorem node_foldl_moveChild {sub add : Nat} {l ks r : List NodeId} (hq : q < t.size)
    (hnd : ks.Nodup) (hks : ∀ c ∈ ks, (t.node c).parent = some p ∧ c ≠ q ∧ c ∉ l ∧ c ∉ r)
    (hqs : t.children q = l ++ r) (hord : ks.Pairwise fun a b => t.startOf a ≤ t.startOf b)
    (hl : ∀ c ∈ ks, ∀ k ∈ l, t.startOf k ≤ t.startOf c + add - sub)
    (hr : ∀ c ∈ ks, ∀ k ∈ r, t.startOf c + add - sub < t.startOf k) :
    (ks.foldl (fun t c => t.moveChild q sub add c) t).node j =
      if j ∈ ks then moved q sub add (t.node j)
      else if j = q then { t.node q with children := l ++ ks ++ r }
      else t.node j := by
  induction ks generalizing t l with
  | nil =>
    by_cases hj : j = q
    · subst hj
      simp [← hqs, children]
    · simp [hj]
  | cons c ks ih =>
    obtain ⟨hc, hnd⟩ := List.nodup_cons.1 hnd
    obtain ⟨hcl, hord⟩ := List.pairwise_cons.1 hord
    obtain ⟨hpar, hcq, hcl', hcr⟩ := hks c List.mem_cons_self
    have hnode : ∀ j, (t.moveChild q sub add c).node j = _ := fun j =>
      node_moveChild hq hpar hcq hqs hcl' hcr (hl c List.mem_cons_self) (hr c List.mem_cons_self)
    have hstart : ∀ k, (t.moveChild q sub add c).startOf k = _ := fun k =>
      startOf_moveChild hq hpar hcq hqs hcl' hcr (hl c List.mem_cons_self) (hr c List.mem_cons_self)
    have hkc : ∀ k ∈ ks, k ≠ c := fun k hk e => hc (e ▸ hk)
    rw [List.foldl_cons, ih (l := l ++ [c]) (by simpa using hq) hnd]
    · simp only [hnode, List.mem_cons]
      by_cases hj : j = c
      · subst hj
        simp [hc, hcq]
      · by_cases hjq : j = q
        · subst hjq
          have hjk : j ∉ ks := fun h => (hks j (List.mem_cons_of_mem _ h)).2.1 rfl
          simp [hj, hjk]
        · simp [hj, hjq]
    · intro k hk
      obtain ⟨h1, h2, h3, h4⟩ := hks k (List.mem_cons_of_mem _ hk)
      refine ⟨?_, h2, ?_, h4⟩
      · rw [hnode, if_neg (hkc k hk), if_neg h2]
        exact h1
      · simp [h3, hkc k hk]
    · simp [children, hnode, Ne.symm hcq]
    · apply hord.imp_of_mem
      intro _ _ ha hb hab
      rw [hstart, hstart, if_neg (hkc _ ha), if_neg (hkc _ hb)]
      exact hab
    · intro k hk i hi
      rw [hstart, hstart, if_neg (hkc k hk)]
      rcases List.mem_append.1 hi with hi | hi
      · rw [if_neg (fun e : i = c => hcl' (e ▸ hi))]
        exact hl k (List.mem_cons_of_mem _ hk) i hi
      · obtain rfl := List.mem_singleton.1 hi
        have := hcl k hk
        rw [if_pos rfl]
        omega
    · intro k hk i hi
      rw [hstart, hstart, if_neg (hkc k hk), if_neg (fun e : i = c => hcr (e ▸ hi))]
      exact hr k (List.mem_cons_of_mem _ hk) i hi

end Tree

end GlyphTree
