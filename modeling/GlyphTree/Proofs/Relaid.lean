import GlyphTree.Proofs.Matched

/-!
# Layouts after a plan

Each node of a plan is cut as it was before any of them was (`Separate.relaid`): its cells have a
glyph for each region in the end, and the fresh nodes are laid out as the cells of the regions.
Nodes that are not in the plan are laid out as before (`CarriedOut.layout`), and no node stands for
another text (`WellFormed.reading_applyPlan`).
-/

namespace GlyphTree.Tree

open Cells Region

variable {t t' u : Tree} {p q n x : NodeId} {cs z : Cells} {rs : List Region} {cuts : List Cut}
  {plan : Plan}

/-- A node that is not in the plan is laid out as before. -/
theorem CarriedOut.layout (h : CarriedOut plan t t') (hs : Shaped t) (hl : Layout t q cs)
    (hq : q ∉ plan.map Prod.fst) : Layout t' q cs := by
  have hkept := h.preserved q hl.lt
  refine hl.frame (hl.lt.trans_le (h.size ▸ Nat.le_add_right _ _)) (hkept.text hq)
    (hkept.children hq) fun c hc => ?_
  have hchild := h.preserved c (hl.lt_size hc)
  refine ⟨hchild.place fun hin => ?_, hchild.fold⟩
  obtain ⟨e, he, hce⟩ := List.mem_flatMap.1 hin
  exact hq (List.mem_map.2 ⟨e, he, hs.parent_unique hce hc⟩)

theorem Landed.layout {o i : Nat} {r : Region} (h : Landed t t' n o rs) (hi : rs[i]? = some r) :
    Layout t' (n + i) r.gone := by
  induction rs generalizing n o i with
  | nil => cases hi
  | cons r' rs ih =>
    cases i with
    | zero =>
      obtain rfl := Option.some.inj hi
      exact h.1.layout
    | succ i =>
      have := ih h.2 (i := i) hi
      rwa [Nat.add_assoc, Nat.add_comm 1] at this

/-- The cells of `p` have a glyph for each region, and the fresh nodes, the first of which is `n`,
are laid out as the cells of the regions. -/
def Relaid (t t' : Tree) (n p : NodeId) (cuts : List Cut) : Prop :=
  ∀ rs z, Layout t p (cells rs z) → Region.cuts 0 rs = cuts →
    (∀ r ∈ rs, Closed r.gone ∧ 0 < r.gone.size) →
    Layout t' p (marked n rs z) ∧ ∀ i r, rs[i]? = some r → Layout t' (n + i) r.gone

theorem Relaid.congr (h : Relaid t t' n p cuts)
    (hl : ∀ cs, Layout u p cs → Layout t p cs) : Relaid u t' n p cuts :=
  fun rs z hu => h rs z (hl _ hu)

/-- Each node of a plan is cut as it was before any of them was. -/
theorem Separate.relaid (h : Separate t plan) (hw : WellFormed t)
    (hf : ∀ e ∈ plan, Fitting t e.1 e.2) :
    Plan.Numbered (Relaid t (t.applyPlan plan)) t.size plan := by
  induction plan generalizing t with
  | nil => trivial
  | cons e plan ih =>
    obtain ⟨p, cuts⟩ := e
    obtain ⟨hfit, hfits⟩ := List.forall_mem_cons.1 hf
    have hp : p ∉ plan.map Prod.fst := (List.nodup_cons.1 h.nodup).1
    cases cuts with
    | nil =>
      refine ⟨fun rs z hl hcuts _ => ?_, ih h.tail hw hfits⟩
      obtain rfl : rs = [] := by
        cases rs with
        | nil => rfl
        | cons => cases hcuts
      exact ⟨h.tail.carriedOut.layout hw.shaped hl hp, by simp⟩
    | cons c cuts =>
      obtain ⟨rs₀, z₀, hl₀, -, hrs₀, hpos₀, hs⟩ := hfit.spliced (by simp)
      have hw' := hs.wellFormed hl₀ hw hrs₀ hpos₀
      have hcuts := (List.forall_mem_cons.1 h.fresh).1
      have hsize := size_splice_fresh hcuts t p
      have hrest := ih h.splice hw' fun e he =>
        (hfits e he).kept hw.shaped (hs.kept hl₀) (h.ne_head e he)
      rw [applyPlan, List.foldl_cons]
      dsimp only
      rw [List.isEmpty_cons, if_neg Bool.false_ne_true]
      refine ⟨fun rs z hl he hr => ?_, ?_⟩
      · have hrs : rs ≠ [] := by
          rintro rfl
          cases he
        have hspliced := hl.splice hrs (fun r hm => (hr r hm).1) fun r hm => (hr r hm).2
        rw [he] at hspliced
        have hdone := h.splice.carriedOut
        refine ⟨hdone.layout hw'.shaped hspliced.layout hp, fun i r hi => ?_⟩
        -- the fresh node is not cut itself
        exact hdone.layout hw'.shaped (hspliced.landed.layout hi)
          (h.tail.not_mem_of_le (Nat.le_add_right _ _))
      · rw [← hsize]
        refine hrest.imp fun e he n hg => hg.congr fun cs hl => ?_
        exact (hs.kept hl₀).layout hw.shaped hl (h.ne_head e he)

/-- No node stands for another text after a plan whose cuts fit. -/
theorem WellFormed.reading_applyPlan (hw : WellFormed t) (hnd : (plan.map Prod.fst).Nodup)
    (hf : ∀ e ∈ plan, Fitting t e.1 e.2) (hx : x < t.size) :
    (t.applyPlan plan).reading x = t.reading x := by
  have hall := hw.applyPlan_induct
    (P := fun _ u => t.size ≤ u.size ∧ u.reading x = t.reading x) hnd hf id ?_ ⟨Nat.le_refl _, rfl⟩
  · exact hall.2
  · rintro u p l rest rs z ⟨hle, h⟩ hu hl hcuts hrs hpos hs -
    have hu' := hs.wellFormed hl hu hrs hpos
    refine ⟨hle.trans (hs.size ▸ Nat.le_add_right _ _), ?_⟩
    rw [hs.reading hl hu.shaped hu'.shaped (hx.trans_le hle), h]

theorem applyPlan_filter (t : Tree) (plan : Plan) :
    t.applyPlan (plan.filter fun e => !e.2.isEmpty) = t.applyPlan plan := by
  induction plan generalizing t with
  | nil => rfl
  | cons e plan ih =>
    obtain ⟨p, _ | ⟨c, cuts⟩⟩ := e
    · exact ih t
    · exact ih _

end GlyphTree.Tree
