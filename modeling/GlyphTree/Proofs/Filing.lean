import GlyphTree.Proofs.Splice
import GlyphTree.Proofs.WellFormed

/-!
# Lists of children under a splice

Whatever regions of a text are collapsed, empty ones too, a fresh node comes in the list of children
where its own children were (`Layout.filed`): with what it has taken over in its place, the list is
as before. An empty region may leave its node anywhere in the list, on bytes that are not its own,
but then the node has nothing below it.
-/

namespace GlyphTree.Tree

open Cells Patch Region

variable {t t' : Tree} {p c : NodeId} {n m : Nat} {es : List Edit} {old z : Cells} {r : Region}
  {rs : List Region}

/-- The nodes that a child stands for: itself, or what it has taken over if it is a fresh node, one
with a number from `n` on. -/
def lifted (t : Tree) (n : Nat) (c : NodeId) : List NodeId := if c < n then [c] else t.children c

theorem lifted_of_lt (h : c < n) : t.lifted n c = [c] := if_pos h

theorem lifted_of_le (h : n ≤ c) : t.lifted n c = t.children c := if_neg (Nat.not_lt.2 h)

/-! ## Places in sorted lists -/

/-- Two ways to part a list are one if the second parts have the same elements, and no element
occurs twice. -/
theorem append_inj_of_nodup {α : Type} {a b c d : List α} (h : a ++ b = c ++ d)
    (hnd : (c ++ d).Nodup) (hm : ∀ x, x ∈ b ↔ x ∈ d) : a = c ∧ b = d := by
  have hb : b.Nodup := (List.nodup_append.1 (h ▸ hnd)).2.1
  have hd : d.Nodup := (List.nodup_append.1 hnd).2.1
  exact List.append_inj' h ((List.perm_ext_iff_of_nodup hb hd).2 hm).length_eq

/-! ## One cut -/

/-- Some cuts are settled and those of `rs` are not: `old` are the cells before them as they were,
and `m` bytes have come of them. -/
structure Filing (t : Tree) (p : NodeId) (n : Nat) (es : List Edit) (old : Cells) (m : Nat)
    (rs : List Region) (z : Cells) : Prop where
  lt : p < n
  le : n ≤ t.size
  remap : ∀ i, old.size ≤ i → remapStart i es =
    remapStartFrom i ((m : Int) - old.size) (edits old.size (rs.map patch))
  fits : t.Fits p m (bare rs z)
  marked : ∀ c ∈ ids (bare rs z), c ∈ starts old ++ starts (bare rs z)
  standing : t.Standing p old.size rs
  nested : ∀ r ∈ rs, Nested r.gone
  nodup : (starts old ++ (starts (bare rs z) ++ inside rs)).Nodup
  bound : ∀ c ∈ starts old ++ (starts (bare rs z) ++ inside rs), c < n ∧ c ≠ p
  parent : ∀ c ∈ t.children p, (t.node c).parent = some p
  listed : ∀ c ∈ starts (bare rs z), c ∈ t.children p
  passed : ∀ c ∈ t.children p, c ∈ starts (bare rs z) ∨ t.lifted n c = [] ∨ t.startOf c ≤ m
  sorted : (t.children p).Pairwise fun a b => t.startOf a ≤ t.startOf b
  flat : (t.children p).flatMap (t.lifted n) = starts old ++ starts (bare rs z)

/-- What is inside the first region counts as old once its cut is settled. -/
theorem starts_next_perm (old : Cells) (r : Region) (rs : List Region) (z : Cells) :
    (starts (old ++ r.kept ++ r.gone) ++ (starts (bare rs z) ++ inside rs)).Perm
      (starts old ++ (starts (bare (r :: rs) z) ++ inside (r :: rs))) := by
  simp only [bare_cons, inside_cons, starts_append, starts_none, List.append_assoc]
  refine (List.Perm.append_left _ ?_).append_left _
  rw [← List.append_assoc, ← List.append_assoc (starts (bare rs z))]
  exact List.perm_append_comm.append_right _

section
variable (h : Filing t p n es old m rs z)
include h

theorem Filing.lt_size : p < t.size := Nat.lt_of_lt_of_le h.lt h.le

theorem Filing.mem_flat (hc : c ∈ t.children p) (hlt : c < n) :
    c ∈ starts old ++ starts (bare rs z) := by
  rw [← h.flat]
  exact List.mem_flatMap.2 ⟨c, hc, by simp [lifted_of_lt hlt]⟩

theorem Filing.bound_outside (hc : c ∈ starts old ++ starts (bare rs z)) : c < t.size ∧ c ≠ p := by
  refine (h.bound c ?_).imp_left fun hlt => Nat.lt_of_lt_of_le hlt h.le
  rw [List.mem_append] at hc ⊢
  exact hc.imp_right (List.mem_append_left _)

theorem Filing.bound_inside (hc : c ∈ inside rs) : c < t.size ∧ c ≠ p :=
  (h.bound c (by simp [hc])).imp_left fun hlt => Nat.lt_of_lt_of_le hlt h.le

theorem Filing.not_inside (hc : c ∈ starts old ++ starts (bare rs z)) : c ∉ inside rs := fun hin => by
  have hnd := h.nodup
  rw [← List.append_assoc] at hnd
  exact (List.nodup_append.1 hnd).2.2 c hc c hin rfl

theorem Filing.ne_of_listed (hc : c ∈ t.children p) : c ≠ p := by
  rintro rfl
  exact (h.bound_outside (h.mem_flat hc h.lt)).2 rfl

/-- The children inside the regions are off the list. -/
theorem Filing.not_listed (hc : c ∈ inside rs) : c ∉ t.children p := fun hm =>
  h.not_inside (h.mem_flat hm (h.bound c (by simp [hc])).1) hc

end

/-- `t'` is `t` after a fresh node has come between the children `a` and `b` of `p`, at byte `i`, and
has taken over `gone`. What has moved is counted from byte `sub` of the text that it was in. -/
structure Wedged (t t' : Tree) (p : NodeId) (a b gone : List NodeId) (i sub : Nat) : Prop where
  size : t'.size = t.size + 1
  parts : t.children p = a ++ b
  before : ∀ k ∈ a, t.startOf k ≤ i
  behind : ∀ k ∈ b, i < t.startOf k
  place : t'.startOf t.size = i
  parent : (t'.node t.size).parent = some p
  taken : t'.children t.size = gone
  self : t'.node p = { t.node p with children := a ++ t.size :: b }
  moved : ∀ j ∈ gone, t'.node j = moved t.size sub 0 (t.node j)
  other : ∀ j, j < t.size → j ≠ p → j ∉ gone → t'.node j = t.node j

section
variable {a b gone : List NodeId} {i sub : Nat} (h : Wedged t t' p a b gone i sub)
include h

theorem Wedged.children_eq : t'.children p = a ++ t.size :: b := by rw [children, h.self]

theorem Wedged.mem_parts {k : NodeId} (hk : k ∈ a ∨ k ∈ b) : k ∈ t.children p := by
  rw [h.parts]
  exact List.mem_append.2 hk

theorem Wedged.mem_children {k : NodeId} :
    k ∈ t'.children p ↔ k = t.size ∨ k ∈ t.children p := by
  rw [h.children_eq, h.parts]
  simp only [List.mem_append, List.mem_cons]
  tauto

/-- A list of children that is sorted stays so. -/
theorem Wedged.sorted (hsorted : (t.children p).Pairwise fun c d => t.startOf c ≤ t.startOf d)
    (hstart : ∀ k ∈ t.children p, t'.startOf k = t.startOf k) :
    (t'.children p).Pairwise fun c d => t'.startOf c ≤ t'.startOf d := by
  have hparts : (a ++ b).Pairwise fun c d => t'.startOf c ≤ t'.startOf d := by
    rw [← h.parts]
    refine hsorted.imp_of_mem fun {c d} hc hd hcd => ?_
    rwa [hstart c hc, hstart d hd]
  obtain ⟨ha, hb, hcross⟩ := List.pairwise_append.1 hparts
  rw [h.children_eq]
  refine List.pairwise_append.2 ⟨ha, List.pairwise_cons.2 ⟨fun k hk => ?_, hb⟩, fun c hc =>
    List.forall_mem_cons.2 ⟨?_, hcross c hc⟩⟩
  · rw [h.place, hstart k (h.mem_parts (.inr hk))]
    exact Nat.le_of_lt (h.behind k hk)
  · rw [h.place, hstart c (h.mem_parts (.inl hc))]
    exact h.before c hc

end

section
variable (h : Filing t p n es old m (r :: rs) z)
include h

/-- What is inside the first region is inside no other. -/
theorem Filing.gone_not_inside (hc : c ∈ starts r.gone) : c ∉ inside rs := fun hin => by
  have hnd := (List.nodup_append.1 (List.nodup_append.1 h.nodup).2.1).2.1
  rw [inside_cons] at hnd
  exact (List.nodup_append.1 hnd).2.2 c hc c hin rfl

/-- What is inside the first region moves to a fresh node, which stands nowhere yet. -/
theorem Filing.node_gather (fresh : Node) (hfresh : fresh.children = []) (j : NodeId) :
    ((starts r.gone).foldl (fun t' c => t'.moveChild t.size (old.size + r.kept.size) 0 c)
      (t.alloc fresh)).node j =
        if j = t.size then { fresh with children := starts r.gone }
        else if j ∈ starts r.gone then moved t.size (old.size + r.kept.size) 0 (t.node j)
        else t.node j := by
  have hgone : ∀ k ∈ starts r.gone, k < t.size := fun k hk =>
    (h.bound_inside (by simp [inside_cons, hk])).1
  have hold : ∀ k, k < t.size → (t.alloc fresh).node k = t.node k := fun k hk => by
    rw [node_alloc, if_neg (Nat.ne_of_lt hk)]
  have hnew : (t.alloc fresh).node t.size = fresh := by rw [node_alloc, if_pos rfl]
  have hn := h.nested r List.mem_cons_self
  have hfits : (t.alloc fresh).Fits p (old.size + r.kept.size) r.gone :=
    h.standing.1.congr fun k hk => by
      rw [hold k (hgone k (hn.mem_ids.1 hk))]
      exact ⟨rfl, rfl⟩
  refine (node_foldl_moveChild (p := p) (l := []) (r := []) (by simp) hn.nodup
    (fun k hk => ⟨hfits.parent (hn.mem_ids.2 hk), Nat.ne_of_lt (hgone k hk), by simp, by simp⟩)
    (by rw [children, hnew, hfresh]; rfl) (hfits.startOf_pairwise.imp Nat.le_of_lt) (by simp)
    (by simp)).trans ?_
  by_cases hj : j = t.size
  · subst hj
    rw [if_neg fun hm => Nat.lt_irrefl _ (hgone _ hm), if_pos rfl, if_pos rfl, hnew]
    simp
  · rw [if_neg hj, if_neg hj, node_alloc, if_neg hj]

/-- Settling a cut puts a fresh node between the children. A region that is not empty has its glyph
where it was. -/
theorem Filing.settle (text : Text) {cut : Cut} {cuts : List Cut}
    (hc : Region.cuts old.size (r :: rs) = cut :: cuts) :
    ∃ a b i, Wedged t (t.settle p text es cut (starts r.gone)) p a b (starts r.gone) i
      (old.size + r.kept.size) ∧ (0 < r.gone.size → i = m + r.kept.size) := by
  rw [Region.cuts] at hc
  obtain ⟨rfl, -⟩ := List.cons.inj hc
  generalize hs : (Cut.landing es ⟨⟨old.size + r.kept.size, old.size + r.kept.size + r.gone.size⟩,
    r.glyph, .fresh r.name r.groups⟩) = s
  obtain ⟨a, b, hab, ha, hb⟩ := exists_parts h.sorted s.start
  refine ⟨a, b, s.start, ?_, fun hpos => ?_⟩
  · have hp := h.lt_size
    have hgone : ∀ k ∈ starts r.gone, k < t.size ∧ k ≠ p := fun k hk =>
      h.bound_inside (by simp [inside_cons, hk])
    have hlisted : ∀ k, k ∈ a ∨ k ∈ b → k ∈ t.children p := fun k hk => by
      rw [hab]
      exact List.mem_append.2 hk
    have hkids : ∀ k ∈ t.children p, k < t.size ∧ k ∉ starts r.gone := fun k hk =>
      ⟨lt_size_of_parent (h.parent k hk), fun hg => h.not_listed (by simp [inside_cons, hg]) hk⟩
    simp only [Tree.settle, prepare, hs, Cut.body]
    generalize text.slice ⟨old.size + r.kept.size, old.size + r.kept.size + r.gone.size⟩ = body
    have hgather := h.node_gather ⟨r.name, body, none, r.groups, none, [], []⟩ rfl
    have hsize := size_foldl_moveChild (t := t.alloc ⟨r.name, body, none, r.groups, none, [], []⟩)
      t.size (old.size + r.kept.size) 0 (starts r.gone)
    rw [size_alloc] at hsize
    generalize (starts r.gone).foldl _ (t.alloc _) = t₂ at *
    have hpn : t₂.node p = t.node p := by
      rw [hgather, if_neg (Nat.ne_of_lt hp), if_neg fun hm => (hgone p hm).2 rfl]
    have hstart : ∀ k ∈ t.children p, t₂.startOf k = t.startOf k := fun k hk => by
      rw [startOf, hgather, if_neg (Nat.ne_of_lt (hkids k hk).1), if_neg (hkids k hk).2, startOf]
    have hnode := fun j => node_putChild (t := t₂) (p := p) (c := t.size) (s := s) (j := j) (l := a)
      (r := b) (hsize ▸ Nat.lt_succ_of_lt hp) (hsize ▸ Nat.lt_succ_self t.size) (Nat.ne_of_gt hp)
      (by rw [children, hpn]; exact hab)
      (fun hm => Nat.lt_irrefl _ (hkids _ (hlisted _ (.inl hm))).1)
      (fun hm => Nat.lt_irrefl _ (hkids _ (hlisted _ (.inr hm))).1)
      (fun k hk => by rw [hstart k (hlisted k (.inl hk))]; exact ha k hk)
      (fun k hk => by rw [hstart k (hlisted k (.inr hk))]; exact hb k hk)
    have hfresh := hnode t.size
    rw [if_pos rfl, hgather, if_pos rfl] at hfresh
    refine ⟨by simpa using hsize, hab, ha, hb, ?_, ?_, ?_, ?_, fun j hj => ?_, fun j hj hjp hjg => ?_⟩
    · rw [startOf, hfresh]
      rfl
    · rw [hfresh]
      rfl
    · rw [children, hfresh]
    · rw [hnode, if_neg (Nat.ne_of_lt hp), if_pos rfl, hpn]
    · obtain ⟨hlt, hjp⟩ := hgone j hj
      rw [hnode, if_neg (Nat.ne_of_lt hlt), if_neg hjp, hgather, if_neg (Nat.ne_of_lt hlt), if_pos hj]
    · rw [hnode, if_neg (Nat.ne_of_lt hj), if_neg hjp, hgather, if_neg (Nat.ne_of_lt hj), if_neg hjg]
  · rw [← hs]
    simp only [Cut.landing]
    rw [h.remap _ (Nat.le_add_right _ _)]
    exact remapStartFrom_gone (p := r.patch) hpos

/-- What a child behind the first region stands for is listed behind that region. -/
theorem Filing.starts_of_behind {k : NodeId} (hc : c ∈ t.children p)
    (hlate : m + r.kept.size < t.startOf c) (hk : k ∈ t.lifted n c) : k ∈ starts (bare rs z) := by
  have hfits := h.fits
  rw [bare_cons, fits_append] at hfits
  rcases h.passed c hc with hbare | hnil | hearly
  · rw [lifted_of_lt (h.bound c (by simp [hbare])).1, List.mem_singleton] at hk
    subst hk
    rw [bare_cons, starts_append, starts_none, List.mem_append] at hbare
    refine hbare.resolve_left fun hkept => ?_
    have := (hfits.1.startOf hkept).2
    omega
  · rw [hnil] at hk
    cases hk
  · omega

/-- What is listed behind the first region stands there. -/
theorem Filing.behind_of_starts (hc : c ∈ starts (bare rs z)) : m + r.kept.size < t.startOf c := by
  have hfits := h.fits
  rw [bare_cons, fits_append] at hfits
  have hstart := ((fits_none.1 hfits.2).startOf hc).1
  have hwidth := r.glyph.utf8Size_pos
  omega

section
variable {a b : List NodeId} {i sub : Nat} (hb : Wedged t t' p a b (starts r.gone) i sub)
include hb

theorem Filing.node_listed (hc : c ∈ t.children p) : t'.node c = t.node c :=
  hb.other c (lt_size_of_parent (h.parent c hc)) (h.ne_of_listed hc) fun hg =>
    h.not_listed (by simp [inside_cons, hg]) hc

theorem Filing.startOf_listed (hc : c ∈ t.children p) : t'.startOf c = t.startOf c := by
  rw [startOf, h.node_listed hb hc, startOf]

theorem Filing.lifted_listed (hc : c ∈ t.children p) : t'.lifted n c = t.lifted n c := by
  rw [lifted, lifted, children, h.node_listed hb hc, children]

theorem Filing.lifted_fresh : t'.lifted n t.size = starts r.gone := by
  rw [lifted_of_le h.le, hb.taken]

/-- With what the fresh node has taken over in its place, the list has the region's children where
they were. -/
theorem Filing.flat_next (hi : 0 < r.gone.size → i = m + r.kept.size) :
    (t'.children p).flatMap (t'.lifted n) =
      starts (old ++ r.kept ++ r.gone) ++ starts (bare rs z) := by
  have hflat : a.flatMap (t.lifted n) ++ b.flatMap (t.lifted n) =
      (starts old ++ starts r.kept) ++ starts (bare rs z) := by
    rw [← List.flatMap_append, ← hb.parts, h.flat, bare_cons]
    simp
  rw [hb.children_eq, List.flatMap_append, List.flatMap_cons, h.lifted_fresh hb,
    List.flatMap_congr fun k hk => h.lifted_listed hb (hb.mem_parts (.inl hk)),
    List.flatMap_congr fun k hk => h.lifted_listed hb (hb.mem_parts (.inr hk))]
  rcases Nat.eq_zero_or_pos r.gone.size with hz | hpos
  · simp only [eq_nil_of_size hz, starts_nil, starts_append, List.nil_append, List.append_nil]
    exact hflat
  · -- the list parts where the region was
    have hnd : ((starts old ++ starts r.kept) ++ starts (bare rs z)).Nodup := by
      have := h.nodup
      rw [← List.append_assoc] at this
      simpa [bare_cons] using (List.nodup_append.1 this).1
    have hmem : ∀ k, k ∈ b.flatMap (t.lifted n) ↔ k ∈ starts (bare rs z) := fun k => by
      constructor
      · intro hk
        obtain ⟨c, hc, hk⟩ := List.mem_flatMap.1 hk
        exact h.starts_of_behind (hb.mem_parts (.inr hc)) (hi hpos ▸ hb.behind c hc) hk
      · intro hk
        have hbare : k ∈ starts (bare (r :: rs) z) := by simp [bare_cons, hk]
        have hkp := h.listed k hbare
        rw [hb.parts, List.mem_append] at hkp
        refine List.mem_flatMap.2 ⟨k, hkp.resolve_left fun hka => ?_, ?_⟩
        · have hlate := h.behind_of_starts hk
          have hearly := hb.before k hka
          have := hi hpos
          omega
        · rw [lifted_of_lt (h.bound k (by simp [hbare])).1]
          exact List.mem_singleton_self k
    obtain ⟨h1, h2⟩ := append_inj_of_nodup hflat hnd hmem
    rw [h1, h2]
    simp

theorem Filing.fits_next : t'.Fits p (m + r.kept.size + r.glyph.utf8Size) (bare rs z) := by
  have hfits := h.fits
  rw [bare_cons, fits_append] at hfits
  refine (fits_none.1 hfits.2).congr fun c hc => ?_
  have hout := h.marked c (by simp [bare_cons, hc])
  obtain ⟨hlt, hne⟩ := h.bound_outside hout
  rw [hb.other c hlt hne fun hg => h.not_inside hout (by simp [inside_cons, hg])]
  exact ⟨rfl, rfl⟩

theorem Filing.standing_next : t'.Standing p (old ++ r.kept ++ r.gone).size rs := by
  rw [size_append, size_append]
  refine h.standing.2.congr (fun x hx => h.nested x (List.mem_cons_of_mem _ hx)) fun c hc => ?_
  obtain ⟨hlt, hne⟩ := h.bound_inside (c := c) (by simp [inside_cons, hc])
  rw [hb.other c hlt hne fun hg => h.gone_not_inside hg hc]
  exact ⟨rfl, rfl⟩

theorem Filing.passed_next (hi : 0 < r.gone.size → i = m + r.kept.size)
    (hc : c ∈ t'.children p) : c ∈ starts (bare rs z) ∨ t'.lifted n c = [] ∨
      t'.startOf c ≤ m + r.kept.size + r.glyph.utf8Size := by
  rcases hb.mem_children.1 hc with rfl | hc
  · rw [h.lifted_fresh hb, hb.place]
    rcases Nat.eq_zero_or_pos r.gone.size with hz | hpos
    · exact .inr (.inl (by rw [eq_nil_of_size hz, starts_nil]))
    · exact .inr (.inr (hi hpos ▸ Nat.le_add_right _ _))
  · rw [h.lifted_listed hb hc, h.startOf_listed hb hc]
    have hfits := h.fits
    rw [bare_cons, fits_append] at hfits
    rcases h.passed c hc with hbare | hnil | hearly
    · rw [bare_cons, starts_append, starts_none, List.mem_append] at hbare
      rcases hbare with hkept | hbare
      · have := (hfits.1.startOf hkept).2
        exact .inr (.inr (by omega))
      · exact .inl hbare
    · exact .inr (.inl hnil)
    · exact .inr (.inr (by omega))

/-- Once the first cut is settled, those behind it are left. -/
theorem Filing.next (hi : 0 < r.gone.size → i = m + r.kept.size) :
    Filing t' p n es (old ++ r.kept ++ r.gone) (m + r.kept.size + r.glyph.utf8Size) rs z := by
  have hperm := starts_next_perm old r rs z
  refine ⟨h.lt, hb.size ▸ Nat.le_succ_of_le h.le, fun j hj => ?_, h.fits_next hb, fun c hc => ?_,
    h.standing_next hb, fun x hx => h.nested x (List.mem_cons_of_mem _ hx),
    hperm.nodup_iff.2 h.nodup, fun c hc => h.bound c (hperm.mem_iff.1 hc), fun c hc => ?_,
    fun c hc => hb.mem_children.2 (.inr (h.listed c (by simp [bare_cons, hc]))),
    fun c hc => h.passed_next hb hi hc, hb.sorted h.sorted fun k hk => h.startOf_listed hb hk,
    h.flat_next hb hi⟩
  · simp only [size_append] at hj
    rw [h.remap j (by omega), List.map_cons, remapStartFrom_skip (p := r.patch) hj]
    simp [patch, Nat.add_assoc]
  · have := h.marked c (by simp [bare_cons, hc])
    simp only [bare_cons, starts_append, starts_none, List.mem_append] at this ⊢
    tauto
  · rcases hb.mem_children.1 hc with rfl | hc
    · exact hb.parent
    · rw [h.node_listed hb hc]
      exact h.parent c hc

end

end

/-! ## All cuts -/

/-- A tree after the cuts of `rs` are settled: with what fresh nodes have taken over in their places
the children of `p` are `ks`. -/
structure Filed (t t' : Tree) (p : NodeId) (n : Nat) (rs : List Region) (ks : List NodeId) :
    Prop where
  size : t.size ≤ t'.size
  flat : (t'.children p).flatMap (t'.lifted n) = ks
  parent : ∀ c ∈ t'.children p, (t'.node c).parent = some p
  self : ∃ kids, t'.node p = { t.node p with children := kids }
  fresh : ∀ q, t.size ≤ q → ∀ c ∈ t'.children q, c ∈ inside rs ∧ (t'.node c).parent = some q
  moved : ∀ j ∈ inside rs, ∃ q sub, t'.node j = moved q sub 0 (t.node j)
  other : ∀ j, j < t.size → j ≠ p → j ∉ inside rs → t'.node j = t.node j

/-- The cuts behind the first one leave its fresh node and what that has taken over alone. -/
theorem Filing.filed_cons {t₁ : Tree} {a b ks : List NodeId} {i sub : Nat}
    (h : Filing t p n es old m (r :: rs) z) (hb : Wedged t t₁ p a b (starts r.gone) i sub)
    (hf : Filed t₁ t' p n rs ks) : Filed t t' p n (r :: rs) ks := by
  have hin : ∀ j ∈ inside (r :: rs), j < t.size ∧ j ≠ p := fun j hj => h.bound_inside hj
  have hgone : ∀ j ∈ starts r.gone, j ∈ inside (r :: rs) ∧ j ∉ inside rs := fun j hj =>
    ⟨by simp [inside_cons, hj], h.gone_not_inside hj⟩
  have hrest : ∀ j ∈ inside rs, j ∈ inside (r :: rs) ∧ j ∉ starts r.gone := fun j hj =>
    ⟨by simp [inside_cons, hj], fun hj' => (hgone j hj').2 hj⟩
  have hlt₁ : ∀ {j}, j < t.size → j < t₁.size := fun hj => hb.size ▸ Nat.lt_succ_of_lt hj
  have hmoved : ∀ j ∈ starts r.gone, t'.node j = Tree.moved t.size sub 0 (t.node j) := fun j hj => by
    obtain ⟨hlt, hjp⟩ := hin j (hgone j hj).1
    rw [hf.other j (hlt₁ hlt) hjp (hgone j hj).2, hb.moved j hj]
  have hfresh : t'.node t.size = t₁.node t.size := hf.other _ (hb.size ▸ Nat.lt_succ_self _)
    (Nat.ne_of_gt h.lt_size) fun hm => Nat.lt_irrefl _ (hin _ (hrest _ hm).1).1
  have hsize := hb.size
  refine ⟨by have := hf.size; omega, hf.flat, hf.parent, ?_, fun q hq c hc => ?_, fun j hj => ?_,
    fun j hj hjp hji => ?_⟩
  · obtain ⟨kids, hself⟩ := hf.self
    exact ⟨kids, by rw [hself, hb.self]⟩
  · rcases Nat.eq_or_lt_of_le hq with rfl | hq
    · -- the first fresh node has the children of the first region
      rw [children, hfresh] at hc
      have hc : c ∈ starts r.gone := hb.taken ▸ hc
      have hparent := h.standing.1.parent ((h.nested r List.mem_cons_self).mem_ids.2 hc)
      obtain ⟨pl, hpl, -⟩ := Option.map_eq_some_iff.1 hparent
      refine ⟨(hgone c hc).1, ?_⟩
      rw [hmoved c hc]
      simp [Node.parent, Tree.moved, hpl]
    · obtain ⟨h1, h2⟩ := hf.fresh q (by omega) c hc
      exact ⟨(hrest c h1).1, h2⟩
  · rw [inside_cons, List.mem_append] at hj
    rcases hj with hj | hj
    · exact ⟨_, _, hmoved j hj⟩
    · obtain ⟨q, sub', hm⟩ := hf.moved j hj
      obtain ⟨hlt, hjp⟩ := hin j (hrest j hj).1
      exact ⟨q, sub', by rw [hm, hb.other j hlt hjp (hrest j hj).2]⟩
  · rw [inside_cons, List.mem_append, not_or] at hji
    rw [hf.other j (hlt₁ hj) hjp hji.2, hb.other j hj hjp hji.1]

theorem Filing.filed (text : Text) {kids : List (NodeId × Span)}
    (h : Filing t p n es old m rs z) (hk : Takes kids (cuts old.size rs) rs) :
    Filed t (settleAll p text es (cuts old.size rs) kids t) p n rs
      (starts (old ++ cells rs z)) := by
  induction rs generalizing t old m kids with
  | nil =>
    refine ⟨Nat.le_refl _, ?_, h.parent, ⟨_, rfl⟩, fun q hq c hc => ?_, by simp [inside],
      fun _ _ _ _ => rfl⟩
    · rw [starts_append]
      exact h.flat
    · rw [cuts, settleAll, children, node_eq_default hq] at hc
      cases hc
  | cons r rs ih =>
    obtain ⟨hk1, hk2⟩ := hk
    obtain ⟨a, b, i, hb, hi⟩ := h.settle text rfl
    have hold : (old ++ r.kept ++ r.gone).size = old.size + r.kept.size + r.gone.size := by
      simp [Nat.add_assoc]
    have hcells : old ++ cells (r :: rs) z = old ++ r.kept ++ r.gone ++ cells rs z := by
      simp [cells_cons]
    have hf := ih (h.next hb hi) (hold ▸ hk2)
    rw [hold] at hf
    simp only [cuts, settleAll]
    rw [hk1, hcells]
    exact h.filed_cons hb hf

/-! ## Splicing -/

/-- A tree after fresh nodes, from number `t.size` on, have come between `p` and some of its
children. -/
structure Inserted (t t' : Tree) (p : NodeId) : Prop where
  kept : Kept [p] t t'
  flat : (t'.children p).flatMap (t'.lifted t.size) = t.children p
  parent : ∀ q, q = p ∨ t.size ≤ q → ∀ c ∈ t'.children q, (t'.node c).parent = some q
  fresh : ∀ q, t.size ≤ q → ∀ c ∈ t'.children q, c < t.size

section
variable (h : Layout t p (cells rs z)) (hrs : rs ≠ []) (hc : ∀ r ∈ rs, Closed r.gone)
include h hrs hc

theorem Layout.filing : Filing (t.collapsed p rs z) p t.size (edits 0 (rs.map patch)) [] 0 rs z := by
  have hlay := h.layout_collapsed hrs hc
  have hbound : ∀ j ∈ starts (bare rs z) ++ inside rs, j < t.size ∧ j ≠ p := fun j hj => by
    have hj := h.mem_children_cells.2 (List.mem_append.1 hj)
    exact ⟨h.lt_size hj, fun e => h.irrefl (h.children ▸ e ▸ hj)⟩
  refine ⟨h.lt, Nat.le_of_eq size_collapsed.symm, fun i _ => by simp [remapStart], hlay.fits,
    fun c hc => hlay.nested.mem_ids.1 hc, h.standing_collapsed hrs hc, h.nested_gone hc,
    h.nodup_cells, hbound, fun c hc => hlay.parent hc, fun c hc => hlay.children ▸ hc,
    fun c hc => .inl (hlay.children ▸ hc),
    hlay.children ▸ hlay.fits.startOf_pairwise.imp Nat.le_of_lt, ?_⟩
  rw [hlay.children, List.flatMap_congr fun c hc =>
    lifted_of_lt (hbound c (List.mem_append_left _ hc)).1]
  simp

/-- Splicing whole cuts of fresh nodes, whether they are empty or not. -/
theorem Layout.inserted : Inserted t (t.splice p (cuts 0 rs)) p := by
  obtain ⟨htakes, heq⟩ := h.splice_eq hc
  have hf := (h.filing hrs hc).filed (cells rs z).text htakes
  have hnode := h.node_collapsed hrs hc
  rw [size_nil, List.nil_append, ← h.children] at hf
  rw [heq]
  generalize settleAll p _ _ _ _ (t.collapsed p rs z) = t' at hf ⊢
  have hsize : (t.collapsed p rs z).size = t.size := size_collapsed
  have hmem : ∀ c ∈ inside rs, c ∈ t.children p := fun c hc => h.mem_children_cells.2 (.inr hc)
  refine ⟨⟨hsize ▸ hf.size, fun j hj hjp => ?_, fun j hj hjc => ?_, fun q hq c hc hlt => ?_⟩,
    hf.flat, ?_, fun q hq c hc => h.lt_size (hmem c (hf.fresh q (hsize ▸ hq) c hc).1)⟩
  · have hjp : j ≠ p := by simpa using hjp
    rw [Tree.children]
    by_cases hji : j ∈ inside rs
    · obtain ⟨q, sub, hm⟩ := hf.moved j hji
      rw [hm, h.node_collapsed_inside hrs hc hji]
      exact ⟨rfl, rfl, rfl⟩
    · rw [hf.other j (hsize ▸ hj) hjp hji, hnode, if_neg hjp]
      split <;> simp [Tree.children]
  · have hjc : j ∉ t.children p := hjc p (by simp)
    rw [h.mem_children_cells, not_or] at hjc
    by_cases hjp : j = p
    · obtain ⟨kids, hself⟩ := hf.self
      rw [hjp, hself, hnode, if_pos rfl]
      exact ⟨rfl, rfl⟩
    · rw [hf.other j (hsize ▸ hj) hjp hjc.2, hnode, if_neg hjp, if_neg hjc.1]
      exact ⟨rfl, rfl⟩
  · refine ⟨p, by simp, ?_⟩
    rcases hq with hq | hq
    · rw [List.mem_singleton.1 hq] at hc
      rw [← hf.flat]
      exact List.mem_flatMap.2 ⟨c, hc, by simp [lifted_of_lt hlt]⟩
    · exact hmem c (hf.fresh q (hsize ▸ hq) c hc).1
  · rintro q (rfl | hq) c hc
    · exact hf.parent c hc
    · exact (hf.fresh q (hsize ▸ hq) c hc).2

end

end GlyphTree.Tree
