import GlyphTree.Tree.Walk
import Mathlib.Data.List.Nodup
import Mathlib.Data.List.Perm.Subperm
import Mathlib.Data.Nat.Find
import Mathlib.Logic.Relation

/-!
# Walks

The pre-order walk of `Tree.preorder` over any lists of nodes below nodes. Where no node is below
itself, every chain of nodes is at most as long as there are nodes, so a walk to that depth visits
all nodes it can reach; where no node is below two others, it visits each of them once.
-/

namespace GlyphTree.Tree

open Relation

variable {below : NodeId → List NodeId} {n d : Nat} {x y p c : NodeId}

/-- `c` is directly below `p`. -/
def Under (below : NodeId → List NodeId) (p c : NodeId) : Prop := c ∈ below p

/-- No chain of nodes from `x` downwards has more than `d` nodes. -/
def Ends (below : NodeId → List NodeId) : Nat → NodeId → Prop
  | 0, _ => False
  | d + 1, x => ∀ c ∈ below x, Ends below d c

/-- Nodes have ranks that fall from each node to those below it. -/
def Ranked (below : NodeId → List NodeId) : Prop :=
  ∃ rank : NodeId → Nat, ∀ p, ∀ c ∈ below p, rank c < rank p

/-! ## Chains -/

theorem Ends.succ (h : Ends below d x) : Ends below (d + 1) x := by
  induction d generalizing x with
  | zero => exact h.elim
  | succ d ih => exact fun c hc => ih (h c hc)

theorem Ends.mono {d' : Nat} (h : Ends below d x) (hd : d ≤ d') : Ends below d' x := by
  induction hd with
  | refl => exact h
  | step _ ih => exact ih.succ

theorem rank_lt {rank : NodeId → Nat} (hr : ∀ p, ∀ c ∈ below p, rank c < rank p)
    (h : TransGen (Under below) x y) : rank y < rank x := by
  induction h with
  | single hc => exact hr _ _ hc
  | tail _ hc ih => exact Nat.lt_trans (hr _ _ hc) ih

theorem Ranked.irrefl (h : Ranked below) (x : NodeId) : ¬ TransGen (Under below) x x := by
  obtain ⟨rank, hr⟩ := h
  exact fun hx => Nat.lt_irrefl _ (rank_lt hr hx)

/-- Nodes that are below each other without end would repeat. -/
theorem ends_of_irrefl (hirr : ∀ x, ¬ TransGen (Under below) x x)
    (hlt : ∀ p, ∀ c ∈ below p, c < n) (hx : x < n) : Ends below n x := by
  -- `up` are the nodes passed on the way down
  suffices hs : ∀ d (up : List NodeId) (x : NodeId), up.Nodup → (∀ y ∈ up, y < n) →
      (∀ y ∈ up, TransGen (Under below) y x) → x < n → n ≤ up.length + d → Ends below d x from
    hs n [] x .nil (by simp) (by simp) hx (by simp)
  intro d
  induction d with
  | zero =>
    intro up x hnd hup habove hx hn
    have hxup : x ∉ up := fun h => hirr x (habove x h)
    have hsub : (x :: up) ⊆ List.range n := by
      intro y hy
      rcases List.mem_cons.1 hy with rfl | hy
      · exact List.mem_range.2 hx
      · exact List.mem_range.2 (hup y hy)
    have := (List.subperm_of_subset (List.nodup_cons.2 ⟨hxup, hnd⟩) hsub).length_le
    simp only [List.length_cons, List.length_range] at this
    omega
  | succ d ih =>
    intro up x hnd hup habove hx hn c hc
    have hxup : x ∉ up := fun h => hirr x (habove x h)
    refine ih (x :: up) c (List.nodup_cons.2 ⟨hxup, hnd⟩) ?_ ?_ (hlt x c hc) ?_
    · intro y hy
      rcases List.mem_cons.1 hy with rfl | hy
      · exact hx
      · exact hup y hy
    · intro y hy
      rcases List.mem_cons.1 hy with rfl | hy
      · exact .single hc
      · exact (habove y hy).tail hc
    · simp only [List.length_cons]
      omega

theorem ranked_of_ends (h : ∀ x, ∃ d, Ends below d x) : Ranked below := by
  classical
  refine ⟨fun x => Nat.find (h x), fun p c hc => ?_⟩
  change Nat.find (h c) < Nat.find (h p)
  have hp := Nat.find_spec (h p)
  cases hd : Nat.find (h p) with
  | zero => rw [hd] at hp; exact hp.elim
  | succ d =>
    rw [hd] at hp
    exact Nat.lt_succ_of_le (Nat.find_min' (h c) (hp c hc))

theorem ranked_of_irrefl (hirr : ∀ x, ¬ TransGen (Under below) x x)
    (hlt : ∀ p, ∀ c ∈ below p, p < n ∧ c < n) : Ranked below := by
  apply ranked_of_ends
  intro x
  rcases Nat.lt_or_ge x n with hx | hx
  · exact ⟨n, ends_of_irrefl hirr (fun p c hc => (hlt p c hc).2) hx⟩
  · exact ⟨1, fun c hc => absurd (hlt x c hc).1 (Nat.not_lt.2 hx)⟩

theorem Ranked.ends (h : Ranked below) (hlt : ∀ p, ∀ c ∈ below p, c < n) (hx : x < n) :
    Ends below n x := ends_of_irrefl h.irrefl hlt hx

/-- A node listed nowhere may take on what another one has below it. -/
theorem Ranked.of_moved {below' : NodeId → List NodeId} (h : Ranked below) {k m : NodeId}
    (hk : ∀ p, k ∉ below' p) (hp : ∀ p, p ≠ k → ∀ c ∈ below' p, c ∈ below p)
    (hm : ∀ c ∈ below' k, c ∈ below m) : Ranked below' := by
  obtain ⟨rank, hr⟩ := h
  refine ⟨Function.update rank k (rank m), fun p c hc => ?_⟩
  have hck : c ≠ k := fun e => hk p (e ▸ hc)
  rw [Function.update_of_ne hck]
  by_cases hpk : p = k
  · rw [hpk, Function.update_self]
    exact hr m c (hm c (hpk ▸ hc))
  · rw [Function.update_of_ne hpk]
    exact hr p c (hp p hpk c hc)

/-- Two nodes, neither of them below the other, may exchange what they have below them. -/
theorem Ranked.exchange {below' : NodeId → List NodeId} (h : Ranked below) {a b : NodeId}
    (hab : ¬ TransGen (Under below) a b) (hba : ¬ TransGen (Under below) b a)
    (hin : ∀ c, c ∈ below' a ∨ c ∈ below' b →
      TransGen (Under below) a c ∨ TransGen (Under below) b c)
    (ho : ∀ p, p ≠ a → p ≠ b → ∀ c ∈ below' p, c ∈ below p) : Ranked below' := by
  classical
  have hirr := h.irrefl
  obtain ⟨rank, hr⟩ := h
  let inside := fun x => TransGen (Under below) a x ∨ TransGen (Under below) b x
  -- all that is not below one of the two ranks above all that is
  refine ⟨fun x => if inside x then rank x else rank x + (rank a + rank b + 1), fun p c hc => ?_⟩
  have hina : ¬ inside a := not_or.2 ⟨hirr a, hba⟩
  have hinb : ¬ inside b := not_or.2 ⟨hab, hirr b⟩
  have hlow : inside c → rank c < rank a + rank b := by
    rintro (h | h)
    · exact Nat.lt_add_right _ (rank_lt hr h)
    · exact Nat.lt_add_left _ (rank_lt hr h)
  by_cases hpa : p = a
  · subst hpa
    have hc := hin c (.inl hc)
    have := hlow hc
    simp only [if_neg hina, if_pos (show inside c from hc)]
    omega
  · by_cases hpb : p = b
    · subst hpb
      have hc := hin c (.inr hc)
      have := hlow hc
      simp only [if_neg hinb, if_pos (show inside c from hc)]
      omega
    · have hcp := ho p hpa hpb c hc
      have hlt := hr p c hcp
      by_cases hp : inside p
      · have hc : inside c := hp.imp (·.tail hcp) (·.tail hcp)
        simp only [if_pos hp, if_pos hc]
        exact hlt
      · simp only [if_neg hp]
        split <;> omega

/-! ## What a walk visits -/

/-- A walk that is deep enough visits all nodes at and below its start. -/
theorem mem_preorder (h : Ends below d x) :
    y ∈ preorder below d x ↔ ReflTransGen (Under below) x y := by
  induction d generalizing x with
  | zero => exact h.elim
  | succ d ih =>
    simp only [preorder, List.mem_cons, List.mem_flatMap]
    constructor
    · rintro (rfl | ⟨c, hc, hy⟩)
      · exact .refl
      · exact .head hc ((ih (h c hc)).1 hy)
    · intro hxy
      rcases hxy.cases_head with rfl | ⟨c, hc, hcy⟩
      · exact .inl rfl
      · exact .inr ⟨c, hc, (ih (h c hc)).2 hcy⟩

/-- Of two nodes with a common node below them one is below the other. -/
theorem under_total (hu : ∀ p q c, c ∈ below p → c ∈ below q → p = q) {a b : NodeId}
    (ha : ReflTransGen (Under below) a y) (hb : ReflTransGen (Under below) b y) :
    ReflTransGen (Under below) a b ∨ ReflTransGen (Under below) b a := by
  have hright : Relator.RightUnique (Function.swap (Under below)) := fun c p q hp hq =>
    hu p q c hp hq
  have := ReflTransGen.total_of_right_unique hright (reflTransGen_swap.2 ha)
    (reflTransGen_swap.2 hb)
  rcases this with h | h
  · exact .inr (reflTransGen_swap.1 h)
  · exact .inl (reflTransGen_swap.1 h)

/-- A walk visits no node twice if no node is below two others or below itself. -/
theorem nodup_preorder (hirr : ∀ x, ¬ TransGen (Under below) x x)
    (hu : ∀ p q c, c ∈ below p → c ∈ below q → p = q) (hnd : ∀ p, (below p).Nodup)
    (h : Ends below d x) : (preorder below d x).Nodup := by
  induction d generalizing x with
  | zero => exact h.elim
  | succ d ih =>
    rw [preorder]
    refine List.nodup_cons.2 ⟨fun hx => ?_, List.nodup_flatMap.2 ⟨fun c hc => ih (h c hc), ?_⟩⟩
    · obtain ⟨c, hc, hx⟩ := List.mem_flatMap.1 hx
      exact hirr x (TransGen.head' hc ((mem_preorder (h c hc)).1 hx))
    · refine (hnd x).imp_of_mem fun {a b} ha hb hab => ?_
      intro y hya hyb
      have hay := (mem_preorder (h a ha)).1 hya
      have hby := (mem_preorder (h b hb)).1 hyb
      -- the one that is below the other is below `x` twice
      rcases under_total hu hay hby with hab' | hba'
      · rcases hab'.cases_tail with rfl | ⟨z, haz, hz⟩
        · exact hab rfl
        · rw [hu z x b hz hb] at haz
          exact hirr x (TransGen.head' ha haz)
      · rcases hba'.cases_tail with rfl | ⟨z, hbz, hz⟩
        · exact hab rfl
        · rw [hu z x a hz ha] at hbz
          exact hirr x (TransGen.head' hb hbz)

/-! ## Depths that suffice -/

/-- A walk that is deep enough goes no further when it may go deeper. -/
theorem preorder_stable {d' : Nat} (h : Ends below d x) (hd : d ≤ d') :
    preorder below d' x = preorder below d x := by
  induction d generalizing x d' with
  | zero => exact h.elim
  | succ d ih =>
    obtain ⟨d', rfl⟩ : ∃ n, d' = n + 1 := ⟨d' - 1, by omega⟩
    rw [preorder, preorder]
    congr 1
    exact List.flatMap_congr fun c hc => ih (h c hc) (Nat.le_of_succ_le_succ hd)

theorem Ranked.preorder_eq (h : Ranked below) (hlt : ∀ p, ∀ c ∈ below p, c < n) (hx : x < n) :
    preorder below n x = x :: (below x).flatMap (preorder below n) :=
  (preorder_stable (h.ends hlt hx) (Nat.le_succ n)).symm

/-- The walk is the only assignment of lists to nodes in which each node is followed by the lists of
those below it. -/
theorem preorder_unique {walk : NodeId → List NodeId} (hlt : ∀ p, ∀ c ∈ below p, c < n)
    (hw : ∀ y, y < n → walk y = y :: (below y).flatMap walk) (h : Ends below d x) (hx : x < n) :
    walk x = preorder below d x := by
  induction d generalizing x with
  | zero => exact h.elim
  | succ d ih =>
    rw [hw x hx, preorder]
    congr 1
    exact List.flatMap_congr fun c hc => ih (h c hc) (hlt x c hc)

/-! ## The order of a walk -/

/-- Whatever is directly below a node of the list comes after it. -/
def Descends (below : NodeId → List NodeId) : List NodeId → Prop
  | [] => True
  | x :: l => (∀ c ∈ below x, c ∈ l) ∧ Descends below l

theorem Descends.append {l r : List NodeId} (hl : Descends below l) (hr : Descends below r) :
    Descends below (l ++ r) := by
  induction l with
  | nil => exact hr
  | cons x l ih => exact ⟨fun c hc => List.mem_append_left _ (hl.1 c hc), ih hl.2⟩

theorem descends_preorder (h : Ends below d x) : Descends below (preorder below d x) := by
  induction d generalizing x with
  | zero => exact h.elim
  | succ d ih =>
    refine ⟨fun c hc => List.mem_flatMap.2 ⟨c, hc, (mem_preorder (h c hc)).2 .refl⟩, ?_⟩
    have hall : ∀ c ∈ below x, Descends below (preorder below d c) := fun c hc => ih (h c hc)
    clear h
    generalize below x = l at hall
    induction l with
    | nil => trivial
    | cons c l ihl =>
      rw [List.flatMap_cons]
      exact (hall c List.mem_cons_self).append
        (ihl fun k hk => hall k (List.mem_cons_of_mem _ hk))

end GlyphTree.Tree
