import GlyphTree.Sorting
import Mathlib.Data.List.Nodup
import Mathlib.Data.List.Perm.Basic

/-!
# Sorted lists

Sorting by insertion keeps the elements (`sortStable_perm`), puts them in order
(`sortStable_pairwise`) and leaves elements of which none has to come first as they were
(`filter_sortStable`).
-/

namespace GlyphTree

section
variable {α β : Type} {le : α → α → Bool} {R : α → α → Prop} {p : α → Bool}

theorem insertSorted_perm (le : α → α → Bool) (x : α) (l : List α) :
    (insertSorted le x l).Perm (x :: l) := by
  induction l with
  | nil => exact .refl _
  | cons y l ih =>
    rw [insertSorted]
    split
    · exact .refl _
    · exact (ih.cons y).trans (.swap x y l)

theorem sortStable_perm (le : α → α → Bool) (l : List α) : (sortStable le l).Perm l := by
  induction l with
  | nil => exact .refl _
  | cons x l ih => exact (insertSorted_perm _ x _).trans (ih.cons x)

/-- A list is sorted by any order that `le` decides. -/
theorem sortStable_pairwise (htrans : ∀ {x y z}, R x y → R y z → R x z)
    (htrue : ∀ {x y}, le x y = true → R x y) (hfalse : ∀ {x y}, le x y = false → R y x)
    (l : List α) : (sortStable le l).Pairwise R := by
  induction l with
  | nil => exact .nil
  | cons x l ih =>
    change (insertSorted le x (sortStable le l)).Pairwise R
    generalize sortStable le l = s at ih
    induction s with
    | nil => simp [insertSorted]
    | cons y s ihs =>
      obtain ⟨hy, hs⟩ := List.pairwise_cons.1 ih
      rw [insertSorted]
      split
      · rename_i hxy
        refine List.pairwise_cons.2 ⟨fun z hz => ?_, ih⟩
        rcases List.mem_cons.1 hz with rfl | hz
        · exact htrue hxy
        · exact htrans (htrue hxy) (hy z hz)
      · rename_i hxy
        refine List.pairwise_cons.2 ⟨fun z hz => ?_, ihs hs⟩
        rcases List.mem_cons.1 ((insertSorted_perm _ x s).mem_iff.1 hz) with rfl | hz
        · exact hfalse (Bool.not_eq_true _ ▸ hxy)
        · exact hy z hz

/-- Elements that may stand in any order keep the one they have. -/
theorem filter_sortStable (h : ∀ x y, p x = true → p y = true → le x y = true) (l : List α) :
    (sortStable le l).filter p = l.filter p := by
  have hinsert : ∀ x s, (insertSorted le x s).filter p = (x :: s).filter p := by
    intro x s
    induction s with
    | nil => rfl
    | cons y s ih =>
      rw [insertSorted]
      split
      · rfl
      · rename_i hxy
        rw [List.filter_cons, ih]
        -- where one of the two is left out, it does not matter which comes first
        cases hx : p x with
        | false => simp [hx, List.filter_cons]
        | true =>
          cases hy : p y with
          | false => simp [hx, hy]
          | true => exact absurd (h x y hx hy) hxy
  induction l with
  | nil => rfl
  | cons x l ih =>
    change (insertSorted le x (sortStable le l)).filter p = _
    rw [hinsert, List.filter_cons, List.filter_cons, ih]

variable (key : α → Nat)

theorem sortByKey_perm (l : List α) : (sortByKey key l).Perm l := sortStable_perm _ l

theorem sortByKey_pairwise (l : List α) : (sortByKey key l).Pairwise (key · ≤ key ·) :=
  sortStable_pairwise (R := fun a b => key a ≤ key b) Nat.le_trans of_decide_eq_true
    (fun h => Nat.le_of_not_le (of_decide_eq_false h)) l

/-- The elements in an order of strictly ascending keys are the elements sorted. -/
theorem sortByKey_eq_of_perm {l s : List α} (hp : l.Perm s) (hs : s.Pairwise (key · < key ·)) :
    sortByKey key l = s := by
  have hle : s.Pairwise (key · ≤ key ·) := hs.imp Nat.le_of_lt
  refine List.Perm.eq_of_pairwise ?_ (sortByKey_pairwise key l) hle
    ((sortByKey_perm key l).trans hp)
  intro a b ha hb hab hba
  have ha := ((sortByKey_perm key l).trans hp).mem_iff.1 ha
  have hn : (s.map key).Nodup := List.pairwise_map.2 (hs.imp Nat.ne_of_lt)
  exact List.inj_on_of_nodup_map hn ha hb (Nat.le_antisymm hab hba)

theorem sortByKey_map (f : β → α) (l : List β) :
    sortByKey key (l.map f) = (sortByKey (fun x => key (f x)) l).map f := by
  induction l with
  | nil => rfl
  | cons x l ih =>
    change insertSorted _ (f x) (sortByKey key (l.map f)) = (insertSorted _ x _).map f
    rw [ih]
    change insertSorted _ (f x) ((sortByKey (fun x => key (f x)) l).map f) =
      (insertSorted _ x (sortByKey (fun x => key (f x)) l)).map f
    generalize sortByKey (fun x => key (f x)) l = s
    induction s with
    | nil => rfl
    | cons y s ihs =>
      rw [List.map_cons, insertSorted, insertSorted]
      split
      · rfl
      · rw [List.map_cons, ihs]

variable {key}

/-- A sorted list parts into what is not beyond a bound and what is. -/
theorem exists_parts {l : List α} (h : l.Pairwise fun a b => key a ≤ key b) (s : Nat) :
    ∃ a b, l = a ++ b ∧ (∀ x ∈ a, key x ≤ s) ∧ ∀ x ∈ b, s < key x := by
  induction l with
  | nil => exact ⟨[], [], rfl, by simp, by simp⟩
  | cons x l ih =>
    obtain ⟨hx, hl⟩ := List.pairwise_cons.1 h
    by_cases hs : key x ≤ s
    · obtain ⟨a, b, rfl, ha, hb⟩ := ih hl
      exact ⟨x :: a, b, rfl, List.forall_mem_cons.2 ⟨hs, ha⟩, hb⟩
    · refine ⟨[], x :: l, rfl, by simp, List.forall_mem_cons.2 ⟨by omega, fun y hy => ?_⟩⟩
      have := hx y hy
      omega

end

end GlyphTree
