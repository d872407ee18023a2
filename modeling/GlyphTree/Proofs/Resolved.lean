import GlyphTree.Proofs.Bodies

/-!
# Offsets of resolved texts

An offset of a text with glyphs in it is one of the resolved text too: the number of bytes to which
the cells before it resolve. Patches that put cells in place of others with the same resolved text
(`Stretch.Refills`) carry no start of a span further on in the resolved text and no end further back,
and they leave alone every start and end that is not inside of what goes (`Refills.remapSpan`).
-/

namespace GlyphTree

open Cells Patch

/-- The offset is not inside of what goes. -/
def Clear (es : List Edit) (pos : Nat) : Prop :=
  ∀ e ∈ es, pos ≤ e.range.start ∨ e.range.stop ≤ pos

theorem clear_cons {e : Edit} {es : List Edit} {pos : Nat} :
    Clear (e :: es) pos ↔ (pos ≤ e.range.start ∨ e.range.stop ≤ pos) ∧ Clear es pos :=
  List.forall_mem_cons

namespace Cells

variable {a b c d cs : Cells} {r r' : NodeId → Text}

/-- Of two beginnings of cells the one with fewer bytes is a beginning of the other. -/
theorem exists_of_append_eq (h : a ++ b = c ++ d) (hs : a.size ≤ c.size) :
    ∃ m, c = a ++ m ∧ b = m ++ d := by
  rcases List.append_eq_append_iff.1 h with hm | ⟨m, rfl, rfl⟩
  · exact hm
  · obtain rfl : m = [] := eq_nil_of_size (by rw [size_append] at hs; omega)
    exact ⟨[], by simp, by simp⟩

theorem byteSize_fill_le (r : NodeId → Text) (a b : Cells) :
    (fill r a).byteSize ≤ (fill r (a ++ b)).byteSize := by
  rw [fill_append, Text.byteSize_append]
  exact Nat.le_add_right ..

/-- A cell that is no glyph stands for itself or for nothing. -/
theorem fill_cell {y : Cell} (h : ∀ ch c, y = ⟨ch, some (.glyph c)⟩ → r' c = r c) :
    fill r' [y] = fill r [y] := by
  obtain ⟨ch, m⟩ := y
  rcases m with _ | c | c | c
  · rfl
  · rw [fill_glyph, fill_glyph, h ch c rfl, fill_nil, fill_nil]
  · rfl
  · rfl

theorem fill_congr_cells (h : ∀ x ∈ cs, fill r' [x] = fill r [x]) : fill r' cs = fill r cs := by
  induction cs with
  | nil => rfl
  | cons x cs ih =>
    obtain ⟨hx, hcs⟩ := List.forall_mem_cons.1 h
    rw [← List.singleton_append, fill_append, fill_append, hx, ih hcs]

end Cells

namespace Stretch

variable {A B M : Stretch} {p : Patch} {x : Cell} {u v m : Cells} {r r' : NodeId → Text}
  {off : Nat}

/-- What is said of the patches on both sides of a cell is said of those of each side. -/
theorem forall_patches_join {P : Cells → Cells → Prop} :
    (∀ y ∈ (A.join x B).patches, P y.gone y.new) ↔
      (∀ y ∈ A.patches, P y.gone y.new) ∧ ∀ y ∈ B.patches, P y.gone y.new := by
  have hcons : ∀ (p : Patch) (A : Stretch), (∀ y ∈ (cons p A).patches, P y.gone y.new) ↔
      P p.gone p.new ∧ ∀ y ∈ A.patches, P y.gone y.new := fun p A => List.forall_mem_cons
  induction A with
  | nil z =>
    rw [join_nil]
    refine Iff.trans ?_ (and_iff_right fun _ hy => absurd hy List.not_mem_nil).symm
    induction B with
    | nil z => rfl
    | cons p B _ => rw [prepend_cons, hcons, hcons]
  | cons p A ih =>
    rw [join_cons, hcons, hcons, and_assoc]
    exact and_congr_right' ih

/-- What is said of all patches of a text is said of those of a part of it. -/
theorem Part.forall_patches {P : Cells → Cells → Prop} (hp : M.Part off B)
    (h : ∀ y ∈ M.patches, P y.gone y.new) : ∀ y ∈ B.patches, P y.gone y.new := by
  cases hp with
  | whole => exact h
  | between id F A B D hM =>
    subst hM
    exact (forall_patches_join.1 (forall_patches_join.1 h).1).2

/-- The cells that an edit takes out. -/
theorem exists_of_mem_edits {e : Edit} {o : Nat} (he : e ∈ A.edits o) :
    ∃ y ∈ A.patches, ∃ a b, A.old = a ++ y.gone ++ b ∧
      e.range = ⟨o + a.size, o + a.size + y.gone.size⟩ := by
  induction A generalizing o with
  | nil z => cases he
  | cons p A ih =>
    rcases List.mem_cons.1 he with rfl | he
    · exact ⟨p, List.mem_cons_self .., p.kept, A.old, rfl, rfl⟩
    · obtain ⟨y, hy, a, b, ha, hr⟩ := ih he
      refine ⟨y, List.mem_cons_of_mem _ hy, p.kept ++ p.gone ++ a, b, ?_, ?_⟩
      · simp [ha]
      · simp only [hr, size_append, Nat.add_assoc]

/-- The cells before the patches resolve by `r` to what those afterwards resolve to by `r'`, cell by
cell and patch by patch. -/
structure Refills (r r' : NodeId → Text) (A : Stretch) : Prop where
  kept : ∀ x ∈ A.old, x ∈ A.new → fill r' [x] = fill r [x]
  patched : ∀ y ∈ A.patches, fill r' y.new = fill r y.gone

theorem Refills.cons_kept (h : (cons p A).Refills r r') (hu : ∀ x ∈ u, x ∈ p.kept) :
    fill r' u = fill r u :=
  fill_congr_cells fun x hx => h.kept x (by simp [hu x hx]) (by simp [hu x hx])

theorem Refills.head (h : (cons p A).Refills r r') :
    fill r' (p.kept ++ p.new) = fill r (p.kept ++ p.gone) := by
  rw [fill_append, fill_append, h.cons_kept fun _ hx => hx, h.patched p (List.mem_cons_self ..)]

theorem Refills.tail (h : (cons p A).Refills r r') : A.Refills r r' where
  kept x hx hx' := h.kept x (by simp [hx]) (by simp [hx'])
  patched y hy := h.patched y (List.mem_cons_of_mem _ hy)

/-- All cells resolve to the same text. -/
theorem Refills.fill (h : A.Refills r r') : fill r' A.new = fill r A.old := by
  induction A with
  | nil z => exact fill_congr_cells fun x hx => h.kept x hx hx
  | cons p A ih =>
    rw [old_cons, new_cons, fill_append (r := r'), fill_append (r := r), h.head, ih h.tail]

/-- A start comes to a place that is no further on in the resolved text. -/
theorem Refills.remapStartFrom (h : A.Refills r r') (hA : A.old = u ++ v) (o n : Nat) :
    ∃ u' v', A.new = u' ++ v' ∧
      remapStartFrom (o + u.size) ((n : Int) - o) (A.edits o) = n + u'.size ∧
      (Cells.fill r' u').byteSize ≤ (Cells.fill r u).byteSize ∧
      (Clear (A.edits o) (o + u.size) →
        (Cells.fill r' u').byteSize = (Cells.fill r u).byteSize) := by
  induction A generalizing u v o n with
  | nil z =>
    obtain rfl : z = u ++ v := hA
    have hu : Cells.fill r' u = Cells.fill r u :=
      fill_congr_cells fun x hx => h.kept x (by simp [hx]) (by simp [hx])
    refine ⟨u, v, rfl, ?_, by rw [hu], fun _ => by rw [hu]⟩
    exact (remapStartFrom_nil (Nat.le_add_right o _)).trans (by omega)
  | cons p A ih =>
    rw [old_cons, List.append_assoc] at hA
    rw [new_cons]
    by_cases h1 : u.size < p.kept.size
    · obtain ⟨w, hw, -⟩ := exists_of_append_eq hA.symm (Nat.le_of_lt h1)
      have hu : Cells.fill r' u = Cells.fill r u := h.cons_kept fun x hx => by simp [hw, hx]
      refine ⟨u, w ++ p.new ++ A.new, by simp [hw], ?_, by rw [hu], fun _ => by rw [hu]⟩
      exact (remapStartFrom_kept (by omega) (by omega)).trans (by omega)
    obtain ⟨w, rfl, hgone⟩ := exists_of_append_eq hA (Nat.not_lt.1 h1)
    have hk : Cells.fill r' p.kept = Cells.fill r p.kept := h.cons_kept fun _ hx => hx
    by_cases h2 : w.size < p.gone.size
    · refine ⟨p.kept, p.new ++ A.new, by simp, ?_, ?_, fun hc => ?_⟩
      · exact remapStartFrom_inside (by simp) (by rw [size_append]; omega)
      · rw [hk]
        exact byteSize_fill_le r p.kept w
      · have hw : w.size = 0 := by
          have := (clear_cons.1 (by simpa using hc)).1
          simp only at this
          omega
        rw [hk, eq_nil_of_size hw, List.append_nil]
    · have hp := congrArg Text.byteSize h.head
      obtain ⟨w, rfl, hrest⟩ := exists_of_append_eq hgone (Nat.not_lt.1 h2)
      obtain ⟨u', v', hnew, hpos, hle, hc⟩ := ih h.tail hrest (o + p.kept.size + p.gone.size)
        (n + p.kept.size + p.new.size)
      have hoff : o + (p.kept ++ (p.gone ++ w)).size = o + p.kept.size + p.gone.size + w.size := by
        simp only [size_append]
        omega
      refine ⟨p.kept ++ p.new ++ u', v', by simp [hnew], ?_, ?_, fun hclear => ?_⟩
      · rw [hoff]
        refine (remapStartFrom_skip (by omega)).trans (hpos.trans ?_)
        simp only [size_append]
        omega
      · simp only [fill_append, Text.byteSize_append] at hp ⊢
        omega
      · have := hc (hoff ▸ (clear_cons.1 hclear).2)
        simp only [fill_append, Text.byteSize_append] at hp ⊢
        omega

/-- An end comes to a place that is no further back in the resolved text. -/
theorem Refills.remapEndFrom (h : A.Refills r r') (hA : A.old = u ++ v) (o n : Nat) :
    ∃ u' v', A.new = u' ++ v' ∧
      remapEndFrom (o + u.size) ((n : Int) - o) (A.edits o) = n + u'.size ∧
      (Cells.fill r u).byteSize ≤ (Cells.fill r' u').byteSize ∧
      (Clear (A.edits o) (o + u.size) →
        (Cells.fill r' u').byteSize = (Cells.fill r u).byteSize) := by
  induction A generalizing u v o n with
  | nil z =>
    obtain rfl : z = u ++ v := hA
    have hu : Cells.fill r' u = Cells.fill r u :=
      fill_congr_cells fun x hx => h.kept x (by simp [hx]) (by simp [hx])
    refine ⟨u, v, rfl, ?_, by rw [hu], fun _ => by rw [hu]⟩
    exact (remapEndFrom_nil (Nat.le_add_right o _)).trans (by omega)
  | cons p A ih =>
    rw [old_cons, List.append_assoc] at hA
    rw [new_cons]
    by_cases h1 : u.size ≤ p.kept.size
    · obtain ⟨w, hw, -⟩ := exists_of_append_eq hA.symm h1
      have hu : Cells.fill r' u = Cells.fill r u := h.cons_kept fun x hx => by simp [hw, hx]
      refine ⟨u, w ++ p.new ++ A.new, by simp [hw], ?_, by rw [hu], fun _ => by rw [hu]⟩
      exact (remapEndFrom_kept (by omega) (by omega)).trans (by omega)
    obtain ⟨w, rfl, hgone⟩ := exists_of_append_eq hA (Nat.le_of_lt (Nat.not_le.1 h1))
    have hp := congrArg Text.byteSize h.head
    rw [size_append] at h1
    by_cases h2 : w.size < p.gone.size
    · obtain ⟨w', hw', -⟩ := exists_of_append_eq hgone.symm (Nat.le_of_lt h2)
      refine ⟨p.kept ++ p.new, A.new, rfl, ?_, ?_, fun hc => ?_⟩
      · rw [size_append, size_append, ← Nat.add_assoc n]
        exact remapEndFrom_inside (by omega) (by omega)
      · rw [hw'] at hp
        simp only [fill_append, Text.byteSize_append] at hp ⊢
        omega
      · have := (clear_cons.1 (by simpa using hc)).1
        simp only at this
        omega
    · obtain ⟨w, rfl, hrest⟩ := exists_of_append_eq hgone (Nat.not_lt.1 h2)
      obtain ⟨u', v', hnew, hpos, hle, hc⟩ := ih h.tail hrest (o + p.kept.size + p.gone.size)
        (n + p.kept.size + p.new.size)
      have hoff : o + (p.kept ++ (p.gone ++ w)).size = o + p.kept.size + p.gone.size + w.size := by
        simp only [size_append]
        omega
      refine ⟨p.kept ++ p.new ++ u', v', by simp [hnew], ?_, ?_, fun hclear => ?_⟩
      · rw [size_append] at h1
        rw [hoff]
        refine (remapEndFrom_skip (by omega) (by omega)).trans (hpos.trans ?_)
        simp only [size_append]
        omega
      · simp only [fill_append, Text.byteSize_append] at hp ⊢
        omega
      · have := hc (hoff ▸ (clear_cons.1 hclear).2)
        simp only [fill_append, Text.byteSize_append] at hp ⊢
        omega

/-- A span comes to one that holds in the resolved text at least what it held before, and no more if
neither of its ends is inside of what goes. -/
theorem Refills.remapSpan (h : A.Refills r r') (hA : A.old = u ++ m ++ v) :
    ∃ u' m' v', A.new = u' ++ m' ++ v' ∧
      remapSpan ⟨u.size, (u ++ m).size⟩ (A.edits 0) = ⟨u'.size, (u' ++ m').size⟩ ∧
      (Cells.fill r' u').byteSize ≤ (Cells.fill r u).byteSize ∧
      (Cells.fill r (u ++ m)).byteSize ≤ (Cells.fill r' (u' ++ m')).byteSize ∧
      (Clear (A.edits 0) u.size → Clear (A.edits 0) (u ++ m).size →
        (Cells.fill r' u').byteSize = (Cells.fill r u).byteSize ∧
          (Cells.fill r' (u' ++ m')).byteSize = (Cells.fill r (u ++ m)).byteSize) := by
  obtain ⟨u₁, v₁, h₁, hstart, hle₁, hc₁⟩ := h.remapStartFrom (hA.trans (List.append_assoc ..)) 0 0
  obtain ⟨u₂, v₂, h₂, hstop, hle₂, hc₂⟩ := h.remapEndFrom hA 0 0
  simp only [Nat.zero_add, Nat.cast_zero, Int.sub_zero] at hstart hstop hc₁ hc₂
  rcases Nat.le_total u₁.size u₂.size with hsize | hsize
  · obtain ⟨w, rfl, -⟩ := exists_of_append_eq (h₁.symm.trans h₂) hsize
    refine ⟨u₁, w, v₂, h₂, ?_, hle₁, hle₂, fun hs he => ⟨hc₁ hs, hc₂ he⟩⟩
    rw [GlyphTree.remapSpan, remapStart, remapEnd, hstart, hstop, Nat.max_eq_left hsize]
  -- an end that would come to lie before the start is moved up to it
  · obtain ⟨w, rfl, -⟩ := exists_of_append_eq (h₂.symm.trans h₁) hsize
    have hw := byteSize_fill_le r' u₂ w
    refine ⟨u₂ ++ w, [], v₁, by simp [h₁], ?_, hle₁, ?_, fun hs he => ⟨hc₁ hs, ?_⟩⟩
    · rw [GlyphTree.remapSpan, remapStart, remapEnd, hstart, hstop, Nat.max_eq_right hsize,
        List.append_nil]
    · rw [List.append_nil]
      exact hle₂.trans hw
    · rw [List.append_nil]
      exact Nat.le_antisymm ((hc₁ hs).trans_le (byteSize_fill_le r u m)) ((hc₂ he).ge.trans hw)

end Stretch

end GlyphTree
