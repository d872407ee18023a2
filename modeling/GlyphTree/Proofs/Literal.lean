import GlyphTree.Proofs.Atoms
import GlyphTree.Tree.Change

/-!
# Replacing in literal text

The edits that replace a text in the literal runs of a node, read off its cells
(`Layout.replacingEdits_eq`). No occurrence reaches over a marked cell, so what is replaced on one
side of it does not depend on the other (`replacing_mark`). Where patches are made on both sides of
some cells, an offset is carried over by those of its own side.
-/

namespace GlyphTree

/-- The edit of a text that has `n` bytes more before it. -/
def Edit.shiftUp (e : Edit) (n : Nat) : Edit := { e with range := e.range.shiftUp n }

/-! ## Literal patches -/

namespace Patch

open Cells

variable {o n : Nat} {ps : List Patch}

/-- A patch that puts literal cells in place of one or more other ones. -/
structure Literal (y : Patch) : Prop where
  gone : y.gone = plain y.gone.text
  pos : 0 < y.gone.size
  new : y.new = plain y.new.text

theorem edits_add (o n : Nat) (ps : List Patch) :
    edits (o + n) ps = (edits o ps).map (·.shiftUp n) := by
  induction ps generalizing o with
  | nil => rfl
  | cons p ps ih =>
    have hsum : ∀ i j, o + n + i + j = o + i + j + n := fun i j => by omega
    simp only [edits, List.map_cons, hsum, ih]
    refine congrArg (· :: _) ?_
    simp [Edit.shiftUp, Span.shiftUp, Nat.add_right_comm]

/-- Where the text starts does not matter to an offset in it. -/
theorem remapStartFrom_add {i k m : Nat} (h : i ≤ k) :
    remapStartFrom (o + k) ((n + m : Nat) - (o + i : Nat) : Int) (edits (o + i) ps) =
      n + remapStartFrom k ((m : Int) - i) (edits i ps) := by
  induction ps generalizing i m with
  | nil =>
    rw [remapStartFrom_nil (Nat.add_le_add_left h o), remapStartFrom_nil h]
    omega
  | cons p ps ih =>
    rcases Nat.lt_or_ge k (i + p.kept.size) with hk | hk
    · rw [remapStartFrom_kept (by omega) (by omega), remapStartFrom_kept h hk]
      omega
    · rcases Nat.lt_or_ge k (i + p.kept.size + p.gone.size) with hg | hg
      · rw [remapStartFrom_inside (by omega) (by omega), remapStartFrom_inside hk hg, Nat.add_assoc]
      · rw [remapStartFrom_skip (by omega), remapStartFrom_skip hg]
        simpa only [Nat.add_assoc] using ih (m := m + p.kept.size + p.new.size) hg

theorem remapEndFrom_add {i k m : Nat} (h : i ≤ k) :
    remapEndFrom (o + k) ((n + m : Nat) - (o + i : Nat) : Int) (edits (o + i) ps) =
      n + remapEndFrom k ((m : Int) - i) (edits i ps) := by
  induction ps generalizing i m with
  | nil =>
    rw [remapEndFrom_nil (Nat.add_le_add_left h o), remapEndFrom_nil h]
    omega
  | cons p ps ih =>
    rcases Nat.lt_or_ge (i + p.kept.size) k with hk | hk
    · rcases Nat.lt_or_ge k (i + p.kept.size + p.gone.size) with hg | hg
      · rw [remapEndFrom_inside (by omega) (by omega), remapEndFrom_inside hk hg]
        omega
      · rw [remapEndFrom_skip (by omega) (by omega), remapEndFrom_skip hg hk]
        simpa only [Nat.add_assoc] using ih (m := m + p.kept.size + p.new.size) hg
    · rw [remapEndFrom_kept (by omega) (by omega), remapEndFrom_kept h hk]
      omega

end Patch

/-! ## Stretches side by side -/

/-- Cells with patches of them: the patches, and the cells behind the last one. -/
structure Stretch where
  patches : List Patch
  rest : Cells

namespace Stretch

open Cells Patch

variable {A B : Stretch} {p : Patch} {x : Cell} {d z : Cells} {o pos : Nat} {shift : Int}

/-- The cells before the patches are made. -/
def old (A : Stretch) : Cells := before A.patches A.rest

/-- The cells once the patches are made. -/
def new (A : Stretch) : Cells := after A.patches A.rest

/-- The patches as edits of a text in which the cells start at byte `o`. -/
def edits (A : Stretch) (o : Nat) : List Edit := Patch.edits o A.patches

/-- All patches are of literal cells. -/
def Literal (A : Stretch) : Prop := ∀ y ∈ A.patches, y.Literal

/-- The cells with one patch more before them. -/
def cons (p : Patch) (A : Stretch) : Stretch := ⟨p :: A.patches, A.rest⟩

/-- The cells with more cells before them, which stay. -/
def prepend (d : Cells) : Stretch → Stretch
  | ⟨[], z⟩ => ⟨[], d ++ z⟩
  | ⟨p :: ps, z⟩ => ⟨{ p with kept := d ++ p.kept } :: ps, z⟩

/-- Two stretches with a cell between them. -/
def join (A : Stretch) (x : Cell) (B : Stretch) : Stretch :=
  A.patches.foldr cons (B.prepend (A.rest ++ [x]))

@[induction_eliminator]
theorem induct {P : Stretch → Prop} (nil : ∀ z, P ⟨[], z⟩) (cons : ∀ p A, P A → P (cons p A))
    (A : Stretch) : P A := by
  obtain ⟨ps, z⟩ := A
  induction ps with
  | nil => exact nil z
  | cons p ps ih => exact cons p ⟨ps, z⟩ ih

@[simp] theorem old_nil : old ⟨[], z⟩ = z := rfl
@[simp] theorem old_cons : (cons p A).old = p.kept ++ p.gone ++ A.old := rfl
@[simp] theorem new_nil : new ⟨[], z⟩ = z := rfl
@[simp] theorem new_cons : (cons p A).new = p.kept ++ p.new ++ A.new := rfl
@[simp] theorem edits_nil : edits ⟨[], z⟩ o = [] := rfl
@[simp] theorem edits_cons : (cons p A).edits o =
    ⟨⟨o + p.kept.size, o + p.kept.size + p.gone.size⟩, p.new.text⟩ ::
      A.edits (o + p.kept.size + p.gone.size) := rfl
@[simp] theorem join_nil : join ⟨[], z⟩ x B = B.prepend (z ++ [x]) := rfl
@[simp] theorem join_cons : (cons p A).join x B = cons p (A.join x B) := rfl

theorem length_edits : (A.edits o).length = A.patches.length := by
  induction A generalizing o with
  | nil z => rfl
  | cons p A ih => exact congrArg Nat.succ ih

theorem literal_nil (z : Cells) : Literal ⟨[], z⟩ := fun _ hy => by cases hy

theorem literal_cons : (cons p A).Literal ↔ p.Literal ∧ A.Literal := List.forall_mem_cons

@[simp] theorem prepend_nil : prepend d ⟨[], z⟩ = ⟨[], d ++ z⟩ := rfl
@[simp] theorem prepend_cons :
    prepend d (cons p A) = cons { p with kept := d ++ p.kept } A := rfl

@[simp] theorem old_prepend : (A.prepend d).old = d ++ A.old := by
  induction A <;> simp

@[simp] theorem new_prepend : (A.prepend d).new = d ++ A.new := by
  induction A <;> simp

@[simp] theorem edits_prepend : (A.prepend d).edits o = A.edits (o + d.size) := by
  induction A <;> simp [Nat.add_assoc]

theorem Literal.prepend (h : A.Literal) (d : Cells) : (A.prepend d).Literal := by
  induction A with
  | nil z => exact literal_nil _
  | cons p A =>
    obtain ⟨hp, hA⟩ := literal_cons.1 h
    exact literal_cons.2 ⟨⟨hp.gone, hp.pos, hp.new⟩, hA⟩

@[simp] theorem old_join : (A.join x B).old = A.old ++ x :: B.old := by
  induction A with
  | nil z => simp
  | cons p A ih => simp [ih]

@[simp] theorem new_join : (A.join x B).new = A.new ++ x :: B.new := by
  induction A with
  | nil z => simp
  | cons p A ih => simp [ih]

theorem edits_join :
    (A.join x B).edits o = A.edits o ++ B.edits (o + A.old.size + x.char.utf8Size) := by
  induction A generalizing o with
  | nil z => simp [Nat.add_assoc]
  | cons p A ih => simp [ih, Nat.add_assoc]

theorem Literal.join (hA : A.Literal) (x : Cell) (hB : B.Literal) : (A.join x B).Literal := by
  induction A with
  | nil z => exact hB.prepend _
  | cons p A ih =>
    obtain ⟨hp, hA⟩ := literal_cons.1 hA
    exact literal_cons.2 ⟨hp, ih hA⟩

/-! ## Offsets -/

/-- Patches further on do not move an offset. -/
theorem remapStartFrom_left (h : pos ≤ o + A.old.size) :
    remapStartFrom pos shift ((A.join x B).edits o) = remapStartFrom pos shift (A.edits o) := by
  have hx := x.char.utf8Size_pos
  induction A generalizing o shift with
  | nil z =>
    rw [join_nil, edits_prepend]
    induction B with
    | nil => rfl
    | cons q B =>
      simp only [old_nil, edits_nil, edits_cons, size_append, size_cons, size_nil,
        remapStartFrom] at h ⊢
      rw [if_neg (by omega), if_neg (by omega)]
  | cons p A ih =>
    simp only [old_cons, size_append, ← Nat.add_assoc] at h
    simp only [join_cons, edits_cons, remapStartFrom, ih h]

theorem remapEndFrom_left (h : pos ≤ o + A.old.size) :
    remapEndFrom pos shift ((A.join x B).edits o) = remapEndFrom pos shift (A.edits o) := by
  have hx := x.char.utf8Size_pos
  induction A generalizing o shift with
  | nil z =>
    rw [join_nil, edits_prepend]
    induction B with
    | nil => rfl
    | cons q B =>
      simp only [old_nil, edits_nil, edits_cons, size_append, size_cons, size_nil,
        remapEndFrom] at h ⊢
      rw [if_neg (by omega), if_neg (by omega)]
  | cons p A ih =>
    simp only [old_cons, size_append, ← Nat.add_assoc] at h
    simp only [join_cons, edits_cons, remapEndFrom, ih h]

/-- Patches before an offset move it by as much as they change the size. -/
theorem remapStartFrom_right {es : List Edit} (h : o + A.old.size ≤ pos) :
    remapStartFrom pos shift (A.edits o ++ es) =
      remapStartFrom pos (shift + A.new.size - A.old.size) es := by
  induction A generalizing o shift with
  | nil z => simp
  | cons p A ih =>
    simp only [old_cons, size_append, ← Nat.add_assoc] at h
    simp only [edits_cons, List.cons_append, remapStartFrom]
    rw [if_pos (by omega), ih h]
    congr 1
    simp only [old_cons, new_cons, size_append, Edit.delta, Span.size,
      show Text.byteSize p.new.text = p.new.size from rfl]
    omega

theorem remapEndFrom_right {es : List Edit} (h : o + A.old.size < pos) :
    remapEndFrom pos shift (A.edits o ++ es) =
      remapEndFrom pos (shift + A.new.size - A.old.size) es := by
  induction A generalizing o shift with
  | nil z => simp
  | cons p A ih =>
    simp only [old_cons, size_append, ← Nat.add_assoc] at h
    simp only [edits_cons, List.cons_append, remapEndFrom]
    rw [if_pos (.inl (by omega)), ih h]
    congr 1
    simp only [old_cons, new_cons, size_append, Edit.delta, Span.size,
      show Text.byteSize p.new.text = p.new.size from rfl]
    omega

/-- An offset before the cell is carried over by the edits before it. -/
theorem remap_left (x : Cell) (B : Stretch) (h : pos ≤ A.old.size) :
    remapStart pos ((A.join x B).edits 0) = remapStart pos (A.edits 0) ∧
      remapEnd pos ((A.join x B).edits 0) = remapEnd pos (A.edits 0) := by
  rw [← Nat.zero_add A.old.size] at h
  exact ⟨remapStartFrom_left h, remapEndFrom_left h⟩

/-- An offset behind the cell is carried over by the edits behind it. -/
theorem remap_right (A : Stretch) (x : Cell) (B : Stretch) (k : Nat) :
    remapStart (A.old.size + x.char.utf8Size + k) ((A.join x B).edits 0) =
        A.new.size + x.char.utf8Size + remapStart k (B.edits 0) ∧
      remapEnd (A.old.size + x.char.utf8Size + k) ((A.join x B).edits 0) =
        A.new.size + x.char.utf8Size + remapEnd k (B.edits 0) := by
  have hx := x.char.utf8Size_pos
  have hshift : (0 : Int) + A.new.size - A.old.size =
      ((A.new.size + x.char.utf8Size + 0 : Nat) : Int) -
        ((A.old.size + x.char.utf8Size + 0 : Nat) : Int) := by omega
  rw [edits_join, Nat.zero_add]
  constructor
  · rw [remapStart, remapStartFrom_right (by omega), hshift]
    exact (remapStartFrom_add (Nat.zero_le k)).trans (by simp [remapStart, edits])
  · rw [remapEnd, remapEndFrom_right (by omega), hshift]
    exact (remapEndFrom_add (Nat.zero_le k)).trans (by simp [remapEnd, edits])

/-- No offset in the cells is carried out of them. -/
theorem remap_le (h : A.old.text.Boundary 0 pos) :
    remapStart pos (A.edits 0) ≤ A.new.size ∧ remapEnd pos (A.edits 0) ≤ A.new.size := by
  have hstart := (boundary_remapStartFrom (n := 0) h).le
  have hstop := (boundary_remapEndFrom (n := 0) h).le
  rw [Nat.zero_add] at hstart hstop
  exact ⟨by simpa [remapStart, edits, new, size] using hstart,
    by simpa [remapEnd, edits, new, size] using hstop⟩

end Stretch

/-! ## Replacing -/

namespace Cells

open Patch

variable {old : Text} {o : Nat} {u : Text} {a c cs : Cells} {ch : Char} {m : CellMark}

/-- The edits that replace a text in a literal run at byte `o`. -/
def found (old new : Text) (o : Nat) (run : Text) : List Edit :=
  (Text.occurrences old run).map fun i => ⟨⟨o + i, o + i + old.byteSize⟩, new⟩

/-- The edits that replace a text in the literal runs of cells. The first run starts at byte `o`
with `u`, to which the cells are yet to add. -/
def replacing (old new : Text) : Nat → Text → Cells → List Edit
  | o, u, [] => found old new o u
  | o, u, ⟨ch, none⟩ :: cs => replacing old new o (u ++ [ch]) cs
  | o, u, ⟨ch, some _⟩ :: cs =>
    found old new o u ++ replacing old new (o + u.byteSize + ch.utf8Size) [] cs

theorem found_nil (old new : Text) (o : Nat) : found old new o [] = [] := rfl

theorem found_add (old new : Text) (o n : Nat) (run : Text) :
    found old new (o + n) run = (found old new o run).map (·.shiftUp n) := by
  simp only [found, List.map_map]
  refine List.map_congr_left fun i _ => ?_
  simp only [Function.comp_apply, Edit.shiftUp, Span.shiftUp, Edit.mk.injEq, Span.mk.injEq, and_true]
  omega

/-- What is replaced on the two sides of a mark. -/
theorem replacing_mark (old new : Text) (o : Nat) (u : Text) (a c : Cells) :
    replacing old new o u (a ++ ⟨ch, some m⟩ :: c) = replacing old new o u a ++
      replacing old new (o + u.byteSize + a.size + ch.utf8Size) [] c := by
  induction a generalizing o u with
  | nil => rfl
  | cons x a ih =>
    obtain ⟨xc, _ | xm⟩ := x
    · simp [replacing, ih, Nat.add_assoc]
    · simp [replacing, ih, Nat.add_assoc]

/-- What is replaced in a literal run. -/
theorem exists_found (hold : old ≠ []) (new run : Text) :
    ∃ A : Stretch, A.old = plain run ∧ (∀ o, A.edits o = found old new o run) ∧ A.Literal := by
  have hp : Pieces 0 (plain run).text ((found old new 0 run).map Edit.range) := by
    rw [text_plain, found, List.map_map]
    exact Text.pieces_occurrences hold 0 run
  obtain ⟨ps, z, hb, he, hnew⟩ := exists_edits_eq hp
  refine ⟨⟨ps, z⟩, hb, fun o => ?_, fun y hy => ?_⟩
  · rw [← Nat.zero_add o, found_add, ← he]
    exact edits_add 0 o ps
  · obtain ⟨a, b, e, hmem, hcut, hr⟩ := exists_edit z hy (o := 0)
    rw [he] at hmem
    obtain ⟨i, -, rfl⟩ := List.mem_map.1 hmem
    have hids : ids y.gone = [] := by
      have : ids (a ++ y.gone ++ b) = [] := by rw [← hcut, hb, ids_plain]
      simp only [ids_append, List.append_eq_nil_iff] at this
      exact this.1.2
    refine ⟨eq_plain_of_ids hids, ?_, ?_⟩
    · have := Text.byteSize_pos hold
      simp only [Span.mk.injEq] at hr
      omega
    · obtain ⟨e, -, he⟩ := List.mem_map.1 (hnew ▸ List.mem_map_of_mem (f := Patch.new) hy)
      rw [← he, text_plain]

/-- What is replaced in the literal runs of cells. -/
theorem exists_replacing (hold : old ≠ []) (new u : Text) (cs : Cells) :
    ∃ A : Stretch, A.old = plain u ++ cs ∧ (∀ o, A.edits o = replacing old new o u cs) ∧
      A.Literal := by
  induction cs generalizing u with
  | nil => simpa [replacing] using exists_found hold new u
  | cons x cs ih =>
    obtain ⟨ch, _ | m⟩ := x
    · obtain ⟨A, hA, he, hlit⟩ := ih (u ++ [ch])
      exact ⟨A, by simp [hA, plain], he, hlit⟩
    · obtain ⟨A, hA, he, hlit⟩ := exists_found hold new u
      obtain ⟨B, hB, he', hlit'⟩ := ih []
      refine ⟨A.join ⟨ch, some m⟩ B, ?_, fun o => ?_, hlit.join _ hlit'⟩
      · rw [Stretch.old_join, hA, hB]
        rfl
      · rw [Stretch.edits_join, hA, he, he', size_plain]
        rfl

end Cells

/-- The patches of a stretch replace a text in its literal runs. -/
structure Stretch.Replaces (old new : Text) (A : Stretch) : Prop where
  literal : A.Literal
  edits : ∀ o, A.edits o = Cells.replacing old new o [] A.old

/-- A mark parts what is replaced on its two sides. -/
theorem Stretch.Replaces.join {old new : Text} {A B : Stretch} (hA : A.Replaces old new)
    (hB : B.Replaces old new) (ch : Char) (m : CellMark) :
    (A.join ⟨ch, some m⟩ B).Replaces old new := by
  refine ⟨hA.literal.join _ hB.literal, fun o => ?_⟩
  rw [edits_join, old_join, Cells.replacing_mark, hA.edits, hB.edits]
  rfl

namespace Cells

theorem exists_replaces {old : Text} (hold : old ≠ []) (new : Text) (cs : Cells) :
    ∃ A : Stretch, A.old = cs ∧ A.Replaces old new := by
  obtain ⟨A, hA, he, hlit⟩ := exists_replacing hold new [] cs
  have hA : A.old = cs := hA
  exact ⟨A, hA, hlit, fun o => hA ▸ he o⟩

/-- The literal runs of cells, in a text with `pre` before them. -/
theorem flatMap_found (old new pre u : Text) (cs : Cells) :
    (literalRunsFrom pre.byteSize (pre.byteSize + u.byteSize + cs.size)
        ((marks (pre.byteSize + u.byteSize) cs).map Prod.fst)).flatMap
      (fun run => found old new run.start ((pre ++ u ++ cs.text).slice run)) =
      replacing old new pre.byteSize u cs := by
  have hrun : ∀ pre u rest : Text, found old new pre.byteSize ((pre ++ u ++ rest).slice
      ⟨pre.byteSize, pre.byteSize + u.byteSize⟩) = found old new pre.byteSize u :=
    fun pre u rest => by rw [Text.slice_middle]
  have hempty : ∀ pre u : Text, ¬ pre.byteSize < pre.byteSize + u.byteSize → u = [] :=
    fun pre u hu => Text.byteSize_eq_zero (by omega)
  induction cs generalizing pre u with
  | nil =>
    simp only [marks_nil, List.map_nil, literalRunsFrom, size_nil, Nat.add_zero, replacing]
    split
    · simpa using hrun pre u []
    · rename_i hu
      obtain rfl := hempty pre u hu
      rfl
  | cons x cs ih =>
    obtain ⟨ch, _ | m⟩ := x
    · simpa [replacing, Nat.add_assoc] using ih pre (u ++ [ch])
    · have hw := ch.utf8Size_pos
      have ih := ih (pre ++ u ++ [ch]) []
      simp only [Text.byteSize_append, Text.byteSize_cons, Text.byteSize_nil, Nat.add_zero,
        List.append_nil, ← Nat.add_assoc, List.append_assoc, List.cons_append, List.nil_append] at ih
      simp only [marks_some, List.map_cons, literalRunsFrom, size_cons, text_cons, replacing]
      rw [Nat.max_eq_right (by omega), ← Nat.add_assoc (pre.byteSize + u.byteSize), ← ih]
      split
      · rw [List.flatMap_cons, hrun]
        simp
      · rename_i hu
        obtain rfl := hempty pre u hu
        simp [found_nil]

end Cells

namespace Tree

open Cells

variable {t : Tree} {x : NodeId} {cs : Cells}

/-- What is replaced in a node can be read off its cells. -/
theorem Layout.replacingEdits_eq (h : Layout t x cs) (old new : Text) :
    t.replacingEdits old new x = replacing old new 0 [] cs := by
  have := flatMap_found old new [] [] cs
  rw [Tree.replacingEdits, h.literalRuns_eq, h.text]
  simpa [found] using this

end Tree

end GlyphTree
