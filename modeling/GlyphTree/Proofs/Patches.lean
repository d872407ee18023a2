import GlyphTree.Edit
import GlyphTree.Proofs.Cells
import GlyphTree.Proofs.Pieces

/-!
# Patches

Edits of a text seen as edits of its cells. A patch keeps some cells and puts `new` ones in place of
the `gone` ones after them; a list of patches takes `before ps z` to `after ps z`, where `z` are the
cells behind the last patch. Any edits that cut pieces out of a text are the edits of some patches
(`exists_edits_eq`), so what edits do to a text and to the offsets into it is proved by induction
on patches.
-/

namespace GlyphTree

namespace Cells

/-- The number of bytes of the text. -/
def size (cs : Cells) : Nat := cs.text.byteSize

section
variable (c : Cell) (cs ds : Cells) (t : Text)

@[simp] theorem size_nil : size [] = 0 := rfl

@[simp] theorem size_cons : size (c :: cs) = c.char.utf8Size + size cs := rfl

@[simp] theorem size_append : size (cs ++ ds) = size cs + size ds := by simp [size]

@[simp] theorem size_plain : size (plain t) = t.byteSize := by simp [size]

end

theorem eq_nil_of_size {cs : Cells} (h : cs.size = 0) : cs = [] :=
  List.map_eq_nil_iff.1 (Text.byteSize_eq_zero h)

/-- Where the text of cells is in two parts, so are the cells. -/
theorem exists_of_text_eq_append {cs : Cells} {a b : Text} (h : cs.text = a ++ b) :
    ∃ (as bs : Cells), cs = as ++ bs ∧ as.text = a ∧ bs.text = b :=
  List.map_eq_append_iff.1 h

end Cells

/-- The first edit of a text. -/
theorem applyEditsFrom_cons (o : Nat) (a b r t : Text) (es : List Edit) :
    applyEditsFrom o (a ++ b ++ t) (⟨⟨o + a.byteSize, o + a.byteSize + b.byteSize⟩, r⟩ :: es) =
      a ++ r ++ applyEditsFrom (o + a.byteSize + b.byteSize) t es := by
  rw [applyEditsFrom, Nat.add_sub_cancel_left, show o + a.byteSize + b.byteSize - o =
    (a ++ b).byteSize by rw [Text.byteSize_append]; omega, Text.dropBytes_byteSize_append,
    List.append_assoc a b, Text.takeBytes_byteSize_append]

/-- Cells that stay, and after them cells that give way to others. -/
structure Patch where
  kept : Cells
  gone : Cells
  new : Cells

namespace Patch

open Cells

/-- All cells before the patches are made. -/
def before : List Patch → Cells → Cells
  | [], z => z
  | p :: ps, z => p.kept ++ p.gone ++ before ps z

/-- All cells once the patches are made. -/
def after : List Patch → Cells → Cells
  | [], z => z
  | p :: ps, z => p.kept ++ p.new ++ after ps z

/-- The patches as edits of a text that starts at byte `o`. -/
def edits (o : Nat) : List Patch → List Edit
  | [] => []
  | p :: ps =>
    ⟨⟨o + p.kept.size, o + p.kept.size + p.gone.size⟩, p.new.text⟩ ::
      edits (o + p.kept.size + p.gone.size) ps

@[simp] theorem edits_eq_nil {o : Nat} {ps : List Patch} : edits o ps = [] ↔ ps = [] := by
  cases ps <;> simp [edits]

theorem applyEditsFrom_edits (o : Nat) (ps : List Patch) (z : Cells) :
    applyEditsFrom o (before ps z).text (edits o ps) = (after ps z).text := by
  induction ps generalizing o with
  | nil => rfl
  | cons p ps ih =>
    simp only [before, after, edits, text_append]
    exact (applyEditsFrom_cons ..).trans (congrArg _ (ih _))

theorem applyEdits_edits (ps : List Patch) (z : Cells) :
    applyEdits (before ps z).text (edits 0 ps) = (after ps z).text :=
  applyEditsFrom_edits 0 ps z

/-- Edits that cut pieces out of the text of cells are the edits of patches of these cells. -/
theorem exists_edits_eq {o : Nat} {cs : Cells} {es : List Edit}
    (h : Pieces o cs.text (es.map Edit.range)) :
    ∃ ps z, before ps z = cs ∧ edits o ps = es ∧
      ps.map Patch.new = es.map fun e => plain e.replacement := by
  induction es generalizing o cs with
  | nil => exact ⟨[], cs, rfl, rfl, rfl⟩
  | cons e es ih =>
    obtain ⟨range, replacement⟩ := e
    generalize ht : cs.text = t at h
    rw [List.map_cons] at h
    cases h with
    | cons a b h =>
      obtain ⟨ab, c, rfl, hab, rfl⟩ := exists_of_text_eq_append ht
      obtain ⟨a, b, rfl, rfl, rfl⟩ := exists_of_text_eq_append hab
      obtain ⟨ps, z, rfl, rfl, hnew⟩ := ih h
      refine ⟨⟨a, b, plain replacement⟩ :: ps, z, rfl, ?_, ?_⟩
      · simp [edits, size]
      · simp [hnew]

/-- The edits of patches cut what goes out of the text. -/
theorem pieces_edits (o : Nat) (ps : List Patch) (z : Cells) :
    Pieces o (before ps z).text ((edits o ps).map Edit.range) := by
  induction ps generalizing o with
  | nil => exact .nil o _
  | cons p ps ih =>
    simp only [before, edits, text_append, List.map_cons]
    exact .cons p.kept.text p.gone.text (ih _)

/-- The edit of a patch among all cells. -/
theorem exists_edit {o : Nat} {ps : List Patch} {p : Patch} (z : Cells) (hp : p ∈ ps) :
    ∃ a b : Cells, ∃ e ∈ edits o ps, before ps z = a ++ p.gone ++ b ∧
      e.range = ⟨o + a.size, o + a.size + p.gone.size⟩ := by
  induction ps generalizing o with
  | nil => cases hp
  | cons p' ps ih =>
    rcases List.mem_cons.1 hp with rfl | hp
    · exact ⟨p.kept, before ps z, _, List.mem_cons_self, rfl, rfl⟩
    · obtain ⟨a, b, e, he, hb, hr⟩ := ih hp (o := o + p'.kept.size + p'.gone.size)
      refine ⟨p'.kept ++ p'.gone ++ a, b, e, List.mem_cons_of_mem _ he, ?_, ?_⟩
      · rw [before, hb]
        simp
      · simpa [Nat.add_assoc] using hr

/-! ## Nesting -/

section
variable {d z : Cells} {ps : List Patch}

/-- What stays is nested, and so is what goes, if it goes with both markers of a child or none and
nothing new is marked. -/
theorem nested_after (h : Nested (d ++ before ps z)) (hc : ∀ p ∈ ps, Closed p.gone)
    (hnew : ∀ p ∈ ps, p.new = plain p.new.text) :
    Nested (d ++ after ps z) ∧ ∀ p ∈ ps, Nested p.gone := by
  induction ps generalizing d with
  | nil => exact ⟨h, fun p hp => by cases hp⟩
  | cons p ps ih =>
    have h : Nested ((d ++ p.kept) ++ p.gone ++ before ps z) := by simpa [before] using h
    obtain ⟨hg, hr⟩ := h.collapse (hc p List.mem_cons_self)
    have hp : Nested ((d ++ p.kept ++ p.new) ++ before ps z) := by
      rw [hnew p List.mem_cons_self]
      exact hr.insert_plain _
    obtain ⟨ha, hgs⟩ := ih hp (fun x hx => hc x (List.mem_cons_of_mem _ hx))
      fun x hx => hnew x (List.mem_cons_of_mem _ hx)
    refine ⟨by simpa [after] using ha, fun x hx => ?_⟩
    rcases List.mem_cons.1 hx with rfl | hx
    · exact hg
    · exact hgs x hx

/-- The children that stay and those that go are all that were there. -/
theorem starts_before_perm (hnew : ∀ p ∈ ps, p.new = plain p.new.text) :
    (starts (before ps z)).Perm (starts (after ps z) ++ ps.flatMap fun p => starts p.gone) := by
  induction ps with
  | nil => simp [before, after]
  | cons p ps ih =>
    have hp : starts p.new = [] := by
      rw [hnew p List.mem_cons_self, starts_plain]
    have ih := ih fun x hx => hnew x (List.mem_cons_of_mem _ hx)
    simp only [before, after, starts_append, hp, List.append_nil, List.flatMap_cons]
    rw [List.append_assoc, List.append_assoc]
    refine ((ih.append_left _).trans ?_).append_left _
    rw [← List.append_assoc, ← List.append_assoc]
    exact List.perm_append_comm.append_right _

theorem starts_after_sublist (hnew : ∀ p ∈ ps, p.new = plain p.new.text) :
    (starts (after ps z)).Sublist (starts (before ps z)) := by
  induction ps with
  | nil => exact .refl _
  | cons p ps ih =>
    have hp : starts p.new = [] := by
      rw [hnew p List.mem_cons_self, starts_plain]
    simp only [before, after, starts_append, hp, List.append_nil]
    exact (List.sublist_append_left _ _).append (ih fun x hx => hnew x (List.mem_cons_of_mem _ hx))

end

/-! ## Offsets

Offset `o` of the old text has come to `n`: `ps` are the patches from there on. -/

variable {o n : Nat} {p : Patch} {ps : List Patch}

theorem remapStartFrom_kept {pos : Nat} (h1 : o ≤ pos) (h2 : pos < o + p.kept.size) :
    remapStartFrom pos ((n : Int) - o) (edits o (p :: ps)) = n + (pos - o) := by
  simp only [edits, remapStartFrom, shifted]
  rw [if_neg (by omega), if_neg (by omega)]
  omega

theorem remapStartFrom_skip {pos : Nat} (h : o + p.kept.size + p.gone.size ≤ pos) :
    remapStartFrom pos ((n : Int) - o) (edits o (p :: ps)) =
      remapStartFrom pos ((n + p.kept.size + p.new.size : Nat) -
          (o + p.kept.size + p.gone.size : Nat) : Int)
        (edits (o + p.kept.size + p.gone.size) ps) := by
  simp only [edits, remapStartFrom, if_pos h]
  congr 1
  simp only [Edit.delta, Span.size, size]
  omega

/-- A start inside of what goes falls back to where that starts. -/
theorem remapStartFrom_inside {pos : Nat} (h1 : o + p.kept.size ≤ pos)
    (h2 : pos < o + p.kept.size + p.gone.size) :
    remapStartFrom pos ((n : Int) - o) (edits o (p :: ps)) = n + p.kept.size := by
  simp only [edits, remapStartFrom, shifted]
  rw [if_neg (by omega)]
  split <;> omega

/-- The start of what goes is the start of what comes for it. -/
theorem remapStartFrom_gone (h : 0 < p.gone.size) :
    remapStartFrom (o + p.kept.size) ((n : Int) - o) (edits o (p :: ps)) = n + p.kept.size :=
  remapStartFrom_inside (Nat.le_refl _) (Nat.lt_add_of_pos_right h)

theorem remapEndFrom_kept {pos : Nat} (h1 : o ≤ pos) (h2 : pos ≤ o + p.kept.size) :
    remapEndFrom pos ((n : Int) - o) (edits o (p :: ps)) = n + (pos - o) := by
  simp only [edits, remapEndFrom, shifted]
  rw [if_neg (by omega), if_neg (by omega)]
  omega

theorem remapEndFrom_skip {pos : Nat} (h : o + p.kept.size + p.gone.size ≤ pos)
    (hk : o + p.kept.size < pos) :
    remapEndFrom pos ((n : Int) - o) (edits o (p :: ps)) =
      remapEndFrom pos ((n + p.kept.size + p.new.size : Nat) -
          (o + p.kept.size + p.gone.size : Nat) : Int)
        (edits (o + p.kept.size + p.gone.size) ps) := by
  have hpast : o + p.kept.size + p.gone.size < pos ∨
      o + p.kept.size + p.gone.size = pos ∧ o + p.kept.size < pos :=
    (Nat.lt_or_eq_of_le h).imp_right fun h => ⟨h, hk⟩
  simp only [edits, remapEndFrom, if_pos hpast]
  congr 1
  simp only [Edit.delta, Span.size, size]
  omega

/-- An end inside of what goes moves on to where what comes for it ends. -/
theorem remapEndFrom_inside {pos : Nat} (h1 : o + p.kept.size < pos)
    (h2 : pos < o + p.kept.size + p.gone.size) :
    remapEndFrom pos ((n : Int) - o) (edits o (p :: ps)) = n + p.kept.size + p.new.size := by
  simp only [edits, remapEndFrom, shifted]
  rw [if_neg (by omega), if_pos h1]
  rw [show Text.byteSize p.new.text = p.new.size from rfl]
  omega

theorem remapStartFrom_nil {pos : Nat} (h : o ≤ pos) :
    remapStartFrom pos ((n : Int) - o) (edits o []) = n + (pos - o) := by
  simp only [edits, remapStartFrom, shifted]
  omega

theorem remapEndFrom_nil {pos : Nat} (h : o ≤ pos) :
    remapEndFrom pos ((n : Int) - o) (edits o []) = n + (pos - o) := by
  simp only [edits, remapEndFrom, shifted]
  omega

/-- An end never falls behind the place to which the text before it has moved. -/
theorem shifted_le_remapEndFrom (ps : List Patch) {pos : Nat} (h : o ≤ pos) (shift : Int) :
    shifted o shift ≤ remapEndFrom pos shift (edits o ps) := by
  induction ps generalizing o shift with
  | nil =>
    simp only [edits, remapEndFrom, shifted]
    omega
  | cons p ps ih =>
    simp only [edits, remapEndFrom]
    split
    · refine Nat.le_trans ?_ (ih (by omega) _)
      simp only [shifted, Edit.delta, Span.size]
      omega
    · split <;> simp only [shifted] <;> omega

/-- A range that is not empty keeps its ends in order. -/
theorem remapStartFrom_le_remapEndFrom {s e : Nat} (h : s < e) (shift : Int) :
    remapStartFrom s shift (edits o ps) ≤ remapEndFrom e shift (edits o ps) := by
  induction ps generalizing o shift with
  | nil =>
    simp only [edits, remapStartFrom, remapEndFrom, shifted]
    omega
  | cons p ps ih =>
    simp only [edits, remapStartFrom, remapEndFrom]
    by_cases hs : o + p.kept.size + p.gone.size ≤ s
    · rw [if_pos hs, if_pos (by omega)]
      exact ih _
    · rw [if_neg hs]
      by_cases he : o + p.kept.size + p.gone.size < e ∨
          o + p.kept.size + p.gone.size = e ∧ o + p.kept.size < e
      · rw [if_pos he]
        have hend : o + p.kept.size + p.gone.size ≤ e := by omega
        have hle := shifted_le_remapEndFrom ps hend
          (shift + Edit.delta ⟨⟨o + p.kept.size, o + p.kept.size + p.gone.size⟩, p.new.text⟩)
        refine Nat.le_trans ?_ hle
        split <;> simp only [shifted, Edit.delta, Span.size] <;> omega
      · rw [if_neg he]
        split <;> split <;> simp only [shifted] <;> omega

/-! ## Boundaries -/

section
variable {z : Cells} {i : Nat}

theorem boundary_remapStartFrom (h : (before ps z).text.Boundary o i) :
    (after ps z).text.Boundary n (remapStartFrom i ((n : Int) - o) (edits o ps)) := by
  induction ps generalizing o n with
  | nil =>
    obtain ⟨a, b, hz, rfl⟩ := h
    rw [remapStartFrom_nil (Nat.le_add_right _ _), Nat.add_sub_cancel_left]
    exact ⟨a, b, hz, rfl⟩
  | cons p ps ih =>
    simp only [before, after, text_append, List.append_assoc] at h ⊢
    have hi : o ≤ i := by
      obtain ⟨a, b, -, rfl⟩ := h
      omega
    rcases Nat.lt_or_ge i (o + p.kept.size) with hk | hk
    · rw [remapStartFrom_kept hi hk]
      exact ((h.first (Nat.le_of_lt hk)).shiftDown.shiftUp).extend _
    · rcases Nat.lt_or_ge i (o + p.kept.size + p.gone.size) with hg | hg
      · rw [remapStartFrom_inside hk hg]
        exact ⟨p.kept.text, _, rfl, rfl⟩
      · rw [remapStartFrom_skip hg]
        exact .prepend _ (.prepend _ (ih ((h.rest hk).rest hg)))

theorem boundary_remapEndFrom (h : (before ps z).text.Boundary o i) :
    (after ps z).text.Boundary n (remapEndFrom i ((n : Int) - o) (edits o ps)) := by
  induction ps generalizing o n with
  | nil =>
    obtain ⟨a, b, hz, rfl⟩ := h
    rw [remapEndFrom_nil (Nat.le_add_right _ _), Nat.add_sub_cancel_left]
    exact ⟨a, b, hz, rfl⟩
  | cons p ps ih =>
    simp only [before, after, text_append, List.append_assoc] at h ⊢
    have hi : o ≤ i := by
      obtain ⟨a, b, -, rfl⟩ := h
      omega
    rcases Nat.lt_or_ge (o + p.kept.size) i with hk | hk
    · rcases Nat.lt_or_ge i (o + p.kept.size + p.gone.size) with hg | hg
      · rw [remapEndFrom_inside hk hg]
        refine .prepend _ ⟨p.new.text, _, rfl, rfl⟩
      · rw [remapEndFrom_skip hg hk]
        exact .prepend _ (.prepend _ (ih ((h.rest (Nat.le_of_lt hk)).rest hg)))
    · rw [remapEndFrom_kept hi hk]
      exact ((h.first hk).shiftDown.shiftUp).extend _

/-- A span of the text before the patches is one of the text after them. -/
theorem holds_remapSpan {s : Span} (h : (before ps z).text.Holds s) :
    (after ps z).text.Holds (remapSpan s (edits 0 ps)) := by
  have hstart : (after ps z).text.Boundary 0 (remapStart s.start (edits 0 ps)) := by
    simpa [remapStart] using boundary_remapStartFrom (n := 0) h.2.1
  have hstop : (after ps z).text.Boundary 0 (remapEnd s.stop (edits 0 ps)) := by
    simpa [remapEnd] using boundary_remapEndFrom (n := 0) h.2.2
  refine ⟨remapSpan_ordered _ _, hstart, ?_⟩
  rcases Nat.le_total (remapEnd s.stop (edits 0 ps)) (remapStart s.start (edits 0 ps)) with hle | hle
  · simpa [remapSpan, Nat.max_eq_right hle] using hstart
  · simpa [remapSpan, Nat.max_eq_left hle] using hstop

end

/-- A span of a text is one of the edited text afterwards. -/
theorem holds_applyEdits {t : Text} {es : List Edit} {s : Span}
    (hp : Pieces 0 t (es.map Edit.range)) (h : t.Holds s) :
    (applyEdits t es).Holds (remapSpan s es) := by
  rw [← text_plain t] at hp
  obtain ⟨ps, z, hb, rfl, -⟩ := exists_edits_eq hp
  have ht : t = (before ps z).text := by rw [hb, text_plain]
  subst ht
  rw [applyEdits_edits]
  exact holds_remapSpan h

/-- Where an offset that is not inside of what goes comes to. -/
def across (y : Patch) (pos : Nat) : Nat :=
  if pos ≤ y.kept.size then pos else pos - y.gone.size + y.new.size

/-- The offset is not inside of what goes. -/
def Beside (y : Patch) (pos : Nat) : Prop :=
  pos ≤ y.kept.size ∨ y.kept.size + y.gone.size ≤ pos

theorem remapStart_beside {y : Patch} {pos : Nat} (hpos : 0 < y.gone.size) (h : y.Beside pos) :
    remapStart pos (edits 0 [y]) = y.across pos := by
  simp only [Beside, remapStart, edits, remapStartFrom, shifted, Edit.delta, Span.size,
    across] at h ⊢
  rw [show Text.byteSize y.new.text = y.new.size from rfl]
  split_ifs <;> omega

theorem remapEnd_beside {y : Patch} {pos : Nat} (hpos : 0 < y.gone.size) (h : y.Beside pos) :
    remapEnd pos (edits 0 [y]) = y.across pos := by
  simp only [Beside, remapEnd, edits, remapEndFrom, shifted, Edit.delta, Span.size,
    across] at h ⊢
  rw [show Text.byteSize y.new.text = y.new.size from rfl]
  split_ifs <;> omega

theorem across_le {y : Patch} {m n : Nat} (hn : y.Beside n) (h : m ≤ n) :
    y.across m ≤ y.across n := by
  simp only [Beside, across] at hn ⊢
  split_ifs <;> omega

/-- A span whose ends are not inside of what goes. -/
theorem remapSpan_beside {y : Patch} {s : Span} (hpos : 0 < y.gone.size) (hle : s.start ≤ s.stop)
    (hstart : y.Beside s.start) (hstop : y.Beside s.stop) :
    remapSpan s (edits 0 [y]) = ⟨y.across s.start, y.across s.stop⟩ := by
  simp only [remapSpan, remapStart_beside hpos hstart, remapEnd_beside hpos hstop,
    Nat.max_eq_left (across_le hstop hle)]

theorem remapSpan_stop {s : Span} (h : s.start < s.stop) (ps : List Patch) :
    (remapSpan s (edits 0 ps)).stop = remapEnd s.stop (edits 0 ps) :=
  Nat.max_eq_left (remapStartFrom_le_remapEndFrom h 0)

end Patch

end GlyphTree
