import GlyphTree.Proofs.Naming
import GlyphTree.Proofs.Views

/-!
# Finding nodes by name

The index of names is kept beside the nodes, in the order in which they got their names; which of them
are in the document, and in what order, is for the walk to say. What is found by a name is put
together from both, and is what a look at the nodes themselves would find (`Reached.finds`). So a
rename of all nodes with a name changes those that had the name and were in scope, and no other
(`Reached.names_in_step`). There may be circles of nodes, as the way up from what is in the document
comes to the root still (`Tied.ends_up_of_mem_documentOrder`).
-/

namespace GlyphTree.Tree

open Relation

variable {t t' : Tree} {p x j : NodeId} {name newName scope oldName : Text} {d k : Nat}
  {circles : Prop}

/-! ## What a name finds -/

theorem NamesAgree.nodup_ids (h : NamesAgree t) (name : Text) : (t.names.ids name).Nodup := by
  refine (h.once.filter _).map_on fun e he e' he' heq => Prod.ext ?_ heq
  have hname : ∀ {e : Text × NodeId}, e ∈ t.names.entries.filter (·.1 = name) → e.1 = name :=
    fun he => of_decide_eq_true (List.mem_filter.1 he).2
  rw [hname he, hname he']

/-- What is left of a list without repetitions stands in the order of the places it had. -/
theorem pairwise_idxOf {l s : List NodeId} (hl : l.Nodup) (hs : s.Sublist l) :
    s.Pairwise (l.idxOf · < l.idxOf ·) := by
  refine List.Pairwise.sublist hs (List.pairwise_iff_getElem.2 fun i j hi hj hij => ?_)
  rwa [hl.idxOf_getElem, hl.idxOf_getElem]

/-- What a name finds in a tree. -/
structure Finds (t : Tree) (name : Text) : Prop where
  /-- The index lists the nodes with the name, each of them once. -/
  listed : ∀ x, x ∈ t.names.ids name ↔ x < t.size ∧ (t.node x).name = name
  listedOnce : (t.names.ids name).Nodup
  /-- Those that are found are the nodes of the document with that name, in the order of the document. -/
  named : t.named name = t.documentOrder.filter fun x => (t.node x).name = name
  /-- That is what the index lists of the document, by its rank there. -/
  ranked : t.named name =
    sortByKey t.documentOrder.idxOf ((t.names.ids name).filter t.documentOrder.contains)
  /-- None is missing that lists lead to from the root, none is there twice, and there is no other. -/
  mem : ∀ x, x ∈ t.named name ↔ ReflTransGen (Under t.below) root x ∧ (t.node x).name = name
  once : (t.named name).Nodup

theorem Reached.finds (h : Reached t) (name : Text) : Finds t name := by
  have hlisted : ∀ x, x ∈ t.names.ids name ↔ x < t.size ∧ (t.node x).name = name := fun x =>
    mem_ids.trans (h.namesAgree.mem_iff name x)
  have hids := h.namesAgree.nodup_ids name
  have horder := h.tied.nodup_documentOrder
  refine ⟨hlisted, hids, h.named_eq name, ?_, fun x => ?_, horder.filter _⟩
  · refine (sortByKey_eq_of_perm _ ?_ (pairwise_idxOf horder List.filter_sublist)).symm
    refine (List.perm_ext_iff_of_nodup (hids.filter _) (horder.filter _)).2 fun x => ?_
    simp [and_comm]
  · rw [h.named_eq, List.mem_filter, h.tied.mem_documentOrder, decide_eq_true_eq]

theorem Reached.rename (h : Reached t) (hx : x < t.size) (name : Text) :
    Reached (t.rename x name) := by
  have hrename : (t.perform (.renameNode x name)).tree = t.rename x name := by
    rw [perform, renameNode, if_pos hx]
    rfl
  exact hrename ▸ h.step

/-- A renamed node is no longer found by the name it had. -/
theorem Reached.named_rename (h : Reached t) (hx : x < t.size) (hne : name ≠ newName) :
    (t.rename x newName).named name = (t.named name).filter (· ≠ x) := by
  rw [(h.rename hx newName).named_eq, h.named_eq, (alike_rename t x newName).documentOrder,
    List.filter_filter]
  refine List.filter_congr fun j hj => ?_
  have hlt := h.tied.lt_of_mem_documentOrder hj
  rw [node_rename, Bool.eq_iff_iff]
  by_cases hjx : j = x
  · subst hjx
    simp [hlt, hne.symm]
  · simp [hjx]

/-! ## Scopes -/

/-- Whether a node is in a scope, with no bound on how far above it a name may be found. -/
def Within (t : Tree) (scope : Text) (x : NodeId) : Prop :=
  if t.config.isWildcard scope then x ∉ t.ignored
  else ∃ y, ReflTransGen t.IsParent x y ∧ (t.node y).name = scope

theorem isUnderWithin_iff (h : Ends t.up d x) (hx : x < t.size)
    (hhoused : ∀ c p, t.IsParent c p → p < t.size) :
    t.isUnderWithin name d x = true ↔ ∃ y, ReflTransGen t.IsParent x y ∧ (t.node y).name = name := by
  induction d generalizing x with
  | zero => exact h.elim
  | succ d ih =>
    have hnode : t.node? x = some (t.node x) := by
      rw [node?, node, Array.getElem?_eq_getElem hx]
      rfl
    have hsplit : (∃ y, ReflTransGen t.IsParent x y ∧ (t.node y).name = name) ↔
        (t.node x).name = name ∨ ∃ p, t.IsParent x p ∧
          ∃ y, ReflTransGen t.IsParent p y ∧ (t.node y).name = name := by
      constructor
      · rintro ⟨y, hxy, hy⟩
        rcases hxy.cases_head with rfl | ⟨p, hp, hpy⟩
        · exact .inl hy
        · exact .inr ⟨p, hp, y, hpy, hy⟩
      · rintro (hname | ⟨p, hp, y, hpy, hy⟩)
        · exact ⟨x, .refl, hname⟩
        · exact ⟨y, .head hp hpy, hy⟩
    rw [hsplit, isUnderWithin, hnode]
    dsimp only
    by_cases hname : (t.node x).name = name
    · simp [hname]
    · rw [if_neg hname, or_iff_right hname]
      cases hp : (t.node x).parent with
      | none => simp [IsParent, hp]
      | some p =>
        have honly : ∀ q, t.IsParent x q ↔ q = p := fun q => by
          rw [IsParent, hp, Option.some_inj, eq_comm]
        simp only [honly, exists_eq_left]
        exact ih (h.parent hp) (hhoused x p hp)

/-- What a walk comes to is as many steps further from the end of the way up as it is below the node
that the walk starts at. -/
theorem TiedBy.ends_up_of_mem {rank : NodeId → Nat} (h : TiedBy circles rank t) (hp : Ends t.up k p)
    (hx : x ∈ preorder t.below d p) : Ends t.up (d + k) x := by
  induction d generalizing p k with
  | zero => cases hx
  | succ d ih =>
    rw [preorder, List.mem_cons, List.mem_flatMap] at hx
    rcases hx with rfl | ⟨c, hc, hx⟩
    · exact hp.mono (Nat.le_add_left ..)
    · have hup : Ends t.up (k + 1) c := fun q hq =>
        (h.parent p c hc).unique (under_up.1 hq) ▸ hp
      rw [Nat.succ_add_eq_add_succ]
      exact ih hup hx

/-- The way up from a node of the document ends. -/
theorem Tied.ends_up_of_mem_documentOrder (h : Tied circles t) (hx : x ∈ t.documentOrder) :
    Ends t.up (t.size + 1) x := by
  obtain ⟨rank, h⟩ := h
  exact h.ends_up_of_mem (ends_up_of_none h.top) hx

theorem Tied.inScope_iff (h : Tied circles t) (hx : x ∈ t.documentOrder) :
    t.inScope scope x = true ↔ t.Within scope x := by
  unfold inScope Within
  split
  · simp [isIgnored]
  · refine isUnderWithin_iff (h.ends_up_of_mem_documentOrder hx) (h.lt_of_mem_documentOrder hx) ?_
    obtain ⟨rank, h⟩ := h
    exact h.housed

/-! ## Renaming -/

/-- Whether a rename is for a node. -/
def Renames (t : Tree) (scope oldName : Text) (x : NodeId) : Prop :=
  x ∈ t.documentOrder ∧ (t.node x).name = oldName ∧ t.Within scope x

theorem node_foldl_rename {ids : List NodeId} (hids : ∀ x ∈ ids, x < t.size) (j : NodeId) :
    (ids.foldl (fun t x => t.rename x newName) t).node j =
      if j ∈ ids then { t.node j with name := newName } else t.node j := by
  induction ids generalizing t with
  | nil => rfl
  | cons x ids ih =>
    obtain ⟨hx, hids⟩ := List.forall_mem_cons.1 hids
    rw [List.foldl_cons, ih fun y hy => (size_rename t x newName).symm ▸ hids y hy, node_rename]
    by_cases hj : j = x
    · subst hj
      simp only [hx, and_self, if_true, List.mem_cons, true_or]
      split <;> rfl
    · simp only [hj, false_and, if_false, List.mem_cons, false_or]

open Classical in
/-- `t'` is `t` after a rename of `count` nodes. -/
structure Renamed (t t' : Tree) (newName scope oldName : Text) (count : Nat) : Prop where
  /-- All nodes that the rename is for are counted. -/
  count : count = (t.documentOrder.filter fun x => t.Renames scope oldName x).length
  /-- They have the new name, and no other node has changed. -/
  node : ∀ x, t'.node x =
    if t.Renames scope oldName x then { t.node x with name := newName } else t.node x
  size : t'.size = t.size
  order : t'.documentOrder = t.documentOrder
  aside : t'.aside = t.aside

open Classical in
theorem Reached.renamed (h : Reached t) (newName scope oldName : Text) :
    Renamed t (t.renameAll newName scope oldName).2 newName scope oldName
      (t.renameAll newName scope oldName).1 := by
  obtain ⟨halike, haside⟩ := alike_renameAll t newName scope oldName
  have hmem : ∀ x ∈ t.documentOrder, ((t.node x).name = oldName ∧ t.inScope scope x = true ↔
      t.Renames scope oldName x) := fun x hx => by
    rw [Renames, and_iff_right hx, h.tied.inScope_iff hx]
  have hids : (t.named oldName).filter (t.inScope scope) =
      t.documentOrder.filter fun x => (t.node x).name = oldName ∧ t.inScope scope x = true := by
    rw [h.named_eq, List.filter_filter]
    refine List.filter_congr fun x _ => ?_
    rw [Bool.decide_and, Bool.decide_eq_true, Bool.and_comm]
  refine ⟨?_, fun x => ?_, halike.size, halike.documentOrder, haside⟩
  · rw [renameAll, hids]
    exact congrArg _ (List.filter_congr fun x hx => decide_eq_decide.2 (hmem x hx))
  · rw [renameAll, hids, node_foldl_rename fun y hy =>
      h.tied.lt_of_mem_documentOrder (List.mem_filter.1 hy).1]
    refine if_congr ?_ rfl rfl
    rw [List.mem_filter, decide_eq_true_eq]
    exact ⟨fun hx => (hmem x hx.1).1 hx.2, fun hx => ⟨hx.1, (hmem x hx.1).2 hx⟩⟩

/-- Names, their index and the walk stay in step: a name finds the nodes of the document that have it,
in order. A rename is for those of them that are in scope, and what names find after it fits as well. -/
theorem Reached.names_in_step (h : Reached t) : (∀ name, Finds t name) ∧
    ∀ newName scope oldName,
      Renamed t (t.renameAll newName scope oldName).2 newName scope oldName
        (t.renameAll newName scope oldName).1 ∧
      ∀ name, Finds (t.renameAll newName scope oldName).2 name :=
  ⟨h.finds, fun newName scope oldName => ⟨h.renamed newName scope oldName,
    (Reached.step (c := .renameAll newName scope oldName) h).finds⟩⟩

/-- Hides a part of a text, which is then ignored and expanded, and another part under the same name. -/
def hideIgnoredAndAgain : List Command :=
  [.hideAll ['k'] ['a'] ['#'] ['*'], .ignoreAll ['k'], .unhideAll, .hideAll ['k'] ['b'] ['#'] ['*']]

/-- The node that got its name first comes last in the document, and is ignored. -/
theorem names_in_step_ignored :
    let t := (ofText ['a', 'b']).after hideIgnoredAndAgain
    Reached t ∧ t.names.ids ['k'] = [1, 2] ∧ t.named ['k'] = [2, 1] ∧
      t.renameAll ['m'] ['*'] ['k'] = (1, t.rename 2 ['m']) ∧ (∀ name, Finds t name) ∧
      ∀ newName scope oldName,
        Renamed t (t.renameAll newName scope oldName).2 newName scope oldName
          (t.renameAll newName scope oldName).1 ∧
        ∀ name, Finds (t.renameAll newName scope oldName).2 name := by
  have h : Reached ((ofText ['a', 'b']).after hideIgnoredAndAgain) :=
    Reached.after (.initial (.ofText _ _)) hideIgnoredAndAgain
  exact ⟨h, by cbv, by cbv, by cbv, Reached.names_in_step h⟩

end GlyphTree.Tree
