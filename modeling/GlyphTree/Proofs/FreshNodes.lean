import GlyphTree.Proofs.Landing

/-!
# Fresh nodes

What a plan that has been carried out makes of its fresh nodes beside their content: each belongs to
a node that was cut (`CarriedOut.exists_parted`), and is listed in the index of names under its name
(`Enlists`). Nodes that were live before stay live (`CarriedOut.mem_liveOrder`).
-/

namespace GlyphTree

namespace Plan

variable {P : NodeId → NodeId → List Cut → Prop} {n x : NodeId} {plan : Plan}

/-- Each number of a fresh node belongs to a node of the plan. -/
theorem Numbered.exists_of_lt (h : Numbered P n plan) (hn : n ≤ x) (hx : x < n + plan.regions) :
    ∃ m p cuts i, (p, cuts) ∈ plan ∧ P m p cuts ∧ i < cuts.length ∧ x = m + i := by
  induction plan generalizing n with
  | nil => exact absurd hn (Nat.not_le.2 hx)
  | cons e plan ih =>
    obtain ⟨p, cuts⟩ := e
    rcases Nat.lt_or_ge x (n + cuts.length) with hlt | hge
    · obtain ⟨i, rfl⟩ := Nat.exists_eq_add_of_le hn
      exact ⟨n, p, cuts, i, List.mem_cons_self, h.1, Nat.lt_of_add_lt_add_left hlt, rfl⟩
    · rw [regions_cons, ← Nat.add_assoc] at hx
      obtain ⟨m, q, cuts', i, hmem, hP, hi, rfl⟩ := ih h.2 hge hx
      exact ⟨m, q, cuts', i, List.mem_cons_of_mem _ hmem, hP, hi, rfl⟩

end Plan

namespace Tree

open Relation

variable {t t' t'' : Tree} {p x c n : NodeId} {cut : Cut} {cuts : List Cut} {plan : Plan}
  {es : List Edit} {text : Text} {circles : Prop}

/-! ## Liveness -/

theorem Parted.mem_children (h : Parted t t' n p cuts) {i : Nat} (hi : i < cuts.length) :
    n + i ∈ t'.children p :=
  h.children.mem_iff.2 (List.mem_append_left _ (List.mem_range'_1.2 ⟨by omega, by omega⟩))

section
variable (h : CarriedOut plan t t')
include h

/-- A list leads to each of its children still, at most over a fresh node. -/
theorem CarriedOut.path_of_mem (hc : c ∈ t.children p) :
    ReflTransGen (Under t'.children) p c := by
  by_cases hp : p ∈ plan.map Prod.fst
  · obtain ⟨e, he, rfl⟩ := List.mem_map.1 hp
    obtain ⟨before, after, rfl⟩ := List.append_of_mem he
    have hparted := h.parted.middle
    rcases hparted.kids c hc with hc | ⟨i, hi, hc⟩
    · exact .single hc
    · exact .tail (.single (hparted.mem_children hi)) hc
  · rw [← (h.preserved p (lt_size_of_mem_children hc)).children hp] at hc
    exact .single hc

/-- What was live is live. -/
theorem CarriedOut.mem_liveOrder (ht : Tied circles t) (ht' : Tied circles t')
    (hx : x ∈ t.liveOrder) : x ∈ t'.liveOrder := by
  rw [ht.mem_liveOrder] at hx
  rw [ht'.mem_liveOrder]
  induction hx with
  | refl => exact .refl
  | tail _ hc ih => exact ih.trans (h.path_of_mem hc)

/-- Each fresh node has been made for a cut of a node of the plan. -/
theorem CarriedOut.exists_parted (hx : t.size ≤ x) (hx' : x < t'.size) :
    ∃ n p cuts i cut, (p, cuts) ∈ plan ∧ Parted t t' n p cuts ∧ cuts[i]? = some cut ∧ x = n + i := by
  rw [h.size] at hx'
  obtain ⟨n, p, cuts, i, hmem, hparted, hi, rfl⟩ := h.parted.exists_of_lt hx hx'
  exact ⟨n, p, cuts, i, cuts[i], hmem, hparted, List.getElem?_eq_getElem hi, rfl⟩

end

/-! ## The index of names -/

theorem mem_ids {name : Text} : x ∈ t.names.ids name ↔ (name, x) ∈ t.names.entries := by
  simp only [NameIndex.ids, List.mem_map, List.mem_filter, decide_eq_true_eq]
  constructor
  · rintro ⟨e, ⟨he, rfl⟩, rfl⟩
    exact he
  · exact fun h => ⟨_, ⟨h, rfl⟩, rfl⟩

/-- `t'` has more nodes than `t`, which are listed in the index of names by the names they have.
Nothing else comes into the index or goes from it, nothing comes into it twice, and no old node has
another name. -/
structure Enlists (t t' : Tree) : Prop where
  size : t.size ≤ t'.size
  name : ∀ x < t.size, (t'.node x).name = (t.node x).name
  old : ∀ e ∈ t.names.entries, e ∈ t'.names.entries
  fresh : ∀ x, t.size ≤ x → x < t'.size → ((t'.node x).name, x) ∈ t'.names.entries
  only : ∀ e ∈ t'.names.entries, e ∈ t.names.entries ∨ t.size ≤ e.2 ∧ e.2 < t'.size ∧
    (t'.node e.2).name = e.1
  once : t.names.entries.Nodup → (∀ e ∈ t.names.entries, e.2 < t.size) → t'.names.entries.Nodup

theorem Enlists.refl (t : Tree) : Enlists t t :=
  ⟨Nat.le_refl _, fun _ _ => rfl, fun _ => id, fun _ h h' => absurd h (Nat.not_le.2 h'),
    fun _ => .inl, fun hnd _ => hnd⟩

theorem Enlists.trans (h : Enlists t t') (h' : Enlists t' t'') : Enlists t t'' where
  size := h.size.trans h'.size
  name x hx := (h'.name x (hx.trans_le h.size)).trans (h.name x hx)
  old e he := h'.old e (h.old e he)
  fresh x hx hx' := by
    rcases Nat.lt_or_ge x t'.size with hlt | hge
    · rw [h'.name x hlt]
      exact h'.old _ (h.fresh x hx hlt)
    · exact h'.fresh x hge hx'
  only e he := by
    rcases h'.only e he with he | ⟨hge, hlt, hname⟩
    · refine (h.only e he).imp_right fun hfresh => ?_
      obtain ⟨hge, hlt, hname⟩ := hfresh
      exact ⟨hge, hlt.trans_le h'.size, (h'.name _ hlt).trans hname⟩
    · exact .inr ⟨h.size.trans hge, hlt, hname⟩
  once hnd hlt := h'.once (h.once hnd hlt) fun e he =>
    (h.only e he).elim (fun he => (hlt e he).trans_le h.size) fun hfresh => hfresh.2.1

/-- Changes of nodes that keep their names. -/
theorem enlists_of_names (h : t'.names = t.names) (hs : t'.size = t.size)
    (hname : ∀ x, (t'.node x).name = (t.node x).name) : Enlists t t' :=
  ⟨hs.ge, fun x _ => hname x, fun _ he => h ▸ he,
    fun _ hx hx' => absurd hx (Nat.not_le.2 (hs ▸ hx')), fun _ he => .inl (h ▸ he),
    fun hnd _ => h ▸ hnd⟩

theorem enlists_of_stripped (h : t'.stripped = t.stripped) (hs : t'.size = t.size)
    (hname : ∀ x, (t'.node x).name = (t.node x).name) : Enlists t t' :=
  enlists_of_names (show t'.stripped.names = t.stripped.names by rw [h]) hs hname

theorem enlists_modify (t : Tree) (x : NodeId) {f : Node → Node} (hf : ∀ n, (f n).name = n.name) :
    Enlists t (t.modify x f) :=
  enlists_of_names rfl (size_modify t x f) fun j => by
    rw [node_modify]
    split
    · exact hf _
    · rfl

theorem enlists_alloc (t : Tree) (made : Node) : Enlists t (t.alloc made) where
  size := by simp
  name x hx := by rw [node_alloc, if_neg hx.ne]
  old e he := List.mem_append_left _ he
  fresh x hx hx' := by
    rw [size_alloc] at hx'
    obtain rfl : x = t.size := Nat.le_antisymm (Nat.le_of_lt_succ hx') hx
    rw [node_alloc, if_pos rfl]
    exact List.mem_append_right _ List.mem_cons_self
  only e he := by
    refine (List.mem_append.1 he).imp_right fun he => ?_
    rw [List.mem_singleton.1 he, size_alloc, node_alloc, if_pos rfl]
    exact ⟨Nat.le_refl _, Nat.lt_succ_self _, rfl⟩
  once hnd hlt := List.nodup_append.2 ⟨hnd, List.nodup_singleton _, fun e he e' he' heq => by
    rw [heq, List.mem_singleton.1 he'] at he
    exact Nat.lt_irrefl t.size (hlt _ he)⟩

theorem enlists_settle (t : Tree) (p : NodeId) (text : Text) (es : List Edit) (cut : Cut)
    (moved : List NodeId) : Enlists t (t.settle p text es cut moved) := by
  have hprepare : Enlists t (t.prepare text cut).1 := by
    unfold prepare
    split
    · exact enlists_alloc t _
    · exact enlists_modify t _ fun _ => rfl
  refine hprepare.trans (enlists_of_stripped (by simp [settle]) (by simp [settle]) fun x => ?_)
  exact (preserved_putChild _ p _ _).name.trans (preserved_foldl_moveChild _ _ _ _ moved).name

theorem enlists_settleAll (p : NodeId) (text : Text) (es : List Edit) (cuts : List Cut)
    (kids : List (NodeId × Span)) (t : Tree) : Enlists t (settleAll p text es cuts kids t) := by
  induction cuts generalizing kids t with
  | nil => exact .refl t
  | cons c cuts ih => exact (enlists_settle t p text es c _).trans (ih _ _)

theorem enlists_splice (t : Tree) (p : NodeId) (cuts : List Cut) :
    Enlists t (t.splice p cuts) := by
  rw [splice_eq_settleAll]
  refine Enlists.trans (enlists_of_stripped ?_ (size_cleared t p cuts) fun x => ?_)
    (enlists_settleAll ..)
  · simp [cleared]
  · exact (preserved_cleared t p cuts).name

theorem enlists_foldl {α : Type} {f : Tree → α → Tree} (h : ∀ t a, Enlists t (f t a)) (l : List α)
    (t : Tree) : Enlists t (l.foldl f t) := by
  induction l generalizing t with
  | nil => exact .refl t
  | cons a l ih => exact (h t a).trans (ih (f t a))

theorem enlists_applyPlan (t : Tree) (plan : Plan) : Enlists t (t.applyPlan plan) :=
  enlists_foldl (fun t e => by
    dsimp only
    split
    · exact .refl t
    · exact enlists_splice t _ _) plan t

theorem enlists_hideMatches (t : Tree) (name pattern label target : Text) :
    Enlists t (t.hideMatches name pattern label target).tree :=
  hideMatches_tree t name pattern label target ▸ enlists_applyPlan t _

theorem enlists_hideAny (t : Tree) (name pattern label target : Text) :
    Enlists t (t.hideAny name pattern label target).tree :=
  enlists_hideMatches t name pattern label target

theorem enlists_hideGroup (t : Tree) (name label : Text) (group : Nat) (scope source : Text) :
    Enlists t (t.hideGroup name label group scope source).tree :=
  hideGroup_tree t name label group scope source ▸ enlists_applyPlan t _

theorem enlists_hideRest (t : Tree) (name label target : Text) :
    Enlists t (t.hideRest name label target).tree :=
  hideRest_tree t name label target ▸ enlists_applyPlan t _

end Tree

end GlyphTree
