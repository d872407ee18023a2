import GlyphTree.Proofs.Atoms

/-!
# Runs and signs

The atoms of its children cut the text of a node into literal runs. What they cut out is the signs:
glyphs and markers, each with the child it stands for. A text is its runs with the signs between them
(`Layout.text_eq_alternate`); where two signs are neighbours the run between them is empty.
-/

namespace GlyphTree

namespace Text

/-- The parts of a text from byte `o` on that are before, between and behind some spans. -/
def between (t : Text) (o : Nat) : List Span → List Text
  | [] => [t.slice ⟨o, t.byteSize⟩]
  | s :: ss => t.slice ⟨o, s.start⟩ :: t.between s.stop ss

/-- A text of runs and of signs between them. -/
def alternate : List Text → List Text → Text
  | run :: runs, sign :: signs => run ++ sign ++ alternate runs signs
  | runs, _ => runs.flatten

@[simp] theorem modifyHead_same (runs : List Text) : runs.modifyHead (fun run => run) = runs :=
  congrFun List.modifyHead_id runs

theorem alternate_modifyHead (u : Text) {runs : List Text} (h : runs ≠ []) (signs : List Text) :
    alternate (runs.modifyHead (u ++ ·)) signs = u ++ alternate runs signs := by
  obtain ⟨run, runs, rfl⟩ := List.exists_cons_of_ne_nil h
  cases signs <;> simp [alternate]

/-- If no run holds anything, the text is the signs. -/
theorem alternate_of_empty {runs signs : List Text} (hruns : ∀ run ∈ runs, run = [])
    (hlen : signs.length < runs.length) : alternate runs signs = signs.flatten := by
  induction runs generalizing signs with
  | nil => simp at hlen
  | cons run runs ih =>
    obtain ⟨rfl, hrest⟩ := List.forall_mem_cons.1 hruns
    cases signs with
    | nil => simpa [alternate] using hrest
    | cons sign signs =>
      rw [alternate, ih hrest (Nat.lt_of_succ_lt_succ hlen)]
      rfl

end Text

namespace Tree

/-- The atoms in the text of a node from left to right, each with its child. -/
def ownedAtoms (t : Tree) (p : NodeId) : List (Span × NodeId) :=
  sortByKey (·.1.start) ((t.children p).flatMap t.ownAtoms)

/-- The literal runs of a node's text, with an empty one wherever two signs are neighbours and where
the text starts or ends with one. -/
def runs (t : Tree) (p : NodeId) : List Text :=
  (t.node p).text.between 0 ((t.ownedAtoms p).map Prod.fst)

/-- The glyphs and markers in a node's text, each with the child it stands for. -/
def signs (t : Tree) (p : NodeId) : List (NodeId × Text) :=
  (t.ownedAtoms p).map fun x => (x.2, (t.node p).text.slice x.1)

end Tree

namespace Cells

/-- The runs of cells without a mark, with the empty ones. -/
def runs : Cells → List Text
  | [] => [[]]
  | ⟨ch, none⟩ :: cs => (runs cs).modifyHead (ch :: ·)
  | ⟨_, some _⟩ :: cs => [] :: runs cs

/-- The marked cells. -/
def signs (cs : Cells) : List (NodeId × Text) :=
  cs.filterMap fun c => c.mark.map fun m => (m.id, [c.char])

variable {ch : Char} {m : CellMark} {cs ds : Cells}

@[simp] theorem runs_nil : runs [] = [[]] := rfl
@[simp] theorem runs_none : runs (⟨ch, none⟩ :: cs) = (runs cs).modifyHead (ch :: ·) := rfl
@[simp] theorem runs_some : runs (⟨ch, some m⟩ :: cs) = [] :: runs cs := rfl
@[simp] theorem signs_nil : signs [] = [] := rfl
@[simp] theorem signs_none : signs (⟨ch, none⟩ :: cs) = signs cs := rfl
@[simp] theorem signs_some : signs (⟨ch, some m⟩ :: cs) = (m.id, [ch]) :: signs cs := rfl

@[simp] theorem signs_append : signs (cs ++ ds) = signs cs ++ signs ds := List.filterMap_append

@[simp] theorem signs_plain (u : Text) : signs (plain u) = [] := by
  induction u with
  | nil => rfl
  | cons c u ih => exact ih

/-- Literal text before cells adds to their first run. -/
@[simp] theorem runs_plain_append (u : Text) (cs : Cells) :
    runs (plain u ++ cs) = (runs cs).modifyHead (u ++ ·) := by
  induction u with
  | nil => cases h : runs cs <;> simp [plain, h]
  | cons c u ih =>
    change runs (⟨c, none⟩ :: (plain u ++ cs)) = _
    rw [runs_none, ih, List.modifyHead_modifyHead]
    rfl

@[simp] theorem runs_plain (u : Text) : runs (plain u) = [u] := by
  simpa using runs_plain_append u []

/-- There is one run more than there are signs. -/
theorem length_runs (cs : Cells) : (runs cs).length = (signs cs).length + 1 := by
  induction cs with
  | nil => rfl
  | cons c cs ih =>
    obtain ⟨ch, _ | m⟩ := c
    · simpa using ih
    · simpa using ih

theorem runs_ne_nil (cs : Cells) : runs cs ≠ [] :=
  List.ne_nil_of_length_pos (length_runs cs ▸ Nat.succ_pos _)

/-- A mark parts the runs on its two sides. -/
@[simp] theorem runs_mark (cs ds : Cells) : runs (cs ++ ⟨ch, some m⟩ :: ds) = runs cs ++ runs ds := by
  induction cs with
  | nil => rfl
  | cons c cs ih =>
    obtain ⟨c, _ | n⟩ := c
    · obtain ⟨run, rest, hruns⟩ := List.exists_cons_of_ne_nil (runs_ne_nil cs)
      simp [ih, hruns]
    · simp [ih]

/-- What is proved of literal text, and of it with a mark and further cells behind, holds of all
cells. -/
theorem induct_runs {P : Cells → Prop} (plain : ∀ u, P (plain u))
    (mark : ∀ u ch m cs, P cs → P (Cells.plain u ++ ⟨ch, some m⟩ :: cs)) (cs : Cells) : P cs := by
  suffices h : ∀ u, P (Cells.plain u ++ cs) from h []
  induction cs with
  | nil => simpa using plain
  | cons c cs ih =>
    obtain ⟨ch, _ | m⟩ := c
    · intro u
      simpa [Cells.plain] using ih (u ++ [ch])
    · exact fun u => mark u ch m cs (ih [])

theorem text_eq_alternate (cs : Cells) :
    text cs = Text.alternate (runs cs) ((signs cs).map Prod.snd) := by
  induction cs using induct_runs with
  | plain u => simp [Text.alternate]
  | mark u ch m cs ih => simp [Text.alternate, ih]

/-- The parts of a text between the marked cells, with `pre` before the run that starts with `u`. -/
theorem between_marks (pre u : Text) (cs : Cells) :
    (pre ++ u ++ text cs).between pre.byteSize
      ((marks (pre.byteSize + u.byteSize) cs).map Prod.fst) = (runs cs).modifyHead (u ++ ·) := by
  induction cs generalizing pre u with
  | nil =>
    have := Text.slice_middle pre u []
    simpa [Text.between] using this
  | cons c cs ih =>
    obtain ⟨ch, _ | m⟩ := c
    · have := ih pre (u ++ [ch])
      simpa [Nat.add_assoc, Function.comp_def] using this
    · have hrest := ih (pre ++ u ++ [ch]) []
      have hhead := Text.slice_middle pre u (ch :: text cs)
      simp only [Text.byteSize_append, Text.byteSize_cons, Text.byteSize_nil, Nat.add_zero,
        List.append_assoc, List.cons_append, List.nil_append, ← Nat.add_assoc] at hrest hhead
      simp [Text.between, hhead, hrest]

/-- The texts of the marked cells. -/
theorem map_marks (pre : Text) (cs : Cells) :
    ((marks pre.byteSize cs).map fun x => (x.2, (pre ++ text cs).slice x.1)) = signs cs := by
  induction cs generalizing pre with
  | nil => rfl
  | cons c cs ih =>
    obtain ⟨ch, m⟩ := c
    have hrest := ih (pre ++ [ch])
    simp only [Text.byteSize_append, Text.byteSize_cons, Text.byteSize_nil, Nat.add_zero,
      List.append_assoc, List.cons_append, List.nil_append] at hrest
    cases m with
    | none => simpa using hrest
    | some m =>
      have hhead := Text.slice_middle pre [ch] (text cs)
      simp only [Text.byteSize_cons, Text.byteSize_nil, Nat.add_zero, List.append_assoc,
        List.cons_append, List.nil_append] at hhead
      simp [hhead, hrest]

end Cells

namespace Tree

variable {t : Tree} {p : NodeId} {cs : Cells}

theorem Layout.ownedAtoms_eq (h : Layout t p cs) : t.ownedAtoms p = Cells.marks 0 cs :=
  h.sort_ownAtoms

theorem Layout.runs_eq (h : Layout t p cs) : t.runs p = cs.runs := by
  have := Cells.between_marks [] [] cs
  rw [runs, h.ownedAtoms_eq, h.text]
  simpa using this

theorem Layout.signs_eq (h : Layout t p cs) : t.signs p = cs.signs := by
  rw [signs, h.ownedAtoms_eq, h.text]
  exact Cells.map_marks [] cs

/-- A text is its runs with the signs between them. -/
theorem Layout.text_eq_alternate (h : Layout t p cs) :
    (t.node p).text = Text.alternate (t.runs p) ((t.signs p).map Prod.snd) := by
  rw [h.runs_eq, h.signs_eq, h.text]
  exact Cells.text_eq_alternate cs

end Tree

end GlyphTree
