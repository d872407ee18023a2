import GlyphTree.Proofs.Layout
import GlyphTree.Proofs.Sorting
import GlyphTree.Tree.Splice

/-!
# Atoms and literal runs

In a node that is laid out, the sorted atoms of the children are the marked cells from left to
right. So the views of a text that sort the atoms of the children, those of `Tree.literalRuns` and
`Tree.resolvingEdits`, can be read off its cells.
-/

namespace GlyphTree

namespace Cells

/-! ## Marked cells -/

/-- The ranges of the marked cells of a text from byte `o` on, each with its child. -/
def marks : Nat → Cells → List (Span × NodeId)
  | _, [] => []
  | o, c :: cs =>
    (c.mark.map fun m => (⟨o, o + c.char.utf8Size⟩, m.id)).toList ++ marks (o + c.char.utf8Size) cs

section
variable {o : Nat} {ch : Char} {m : CellMark} {cs ds : Cells}

@[simp] theorem marks_nil : marks o [] = [] := rfl
@[simp] theorem marks_none : marks o (⟨ch, none⟩ :: cs) = marks (o + ch.utf8Size) cs := rfl
@[simp] theorem marks_some :
    marks o (⟨ch, some m⟩ :: cs) = (⟨o, o + ch.utf8Size⟩, m.id) :: marks (o + ch.utf8Size) cs := rfl

theorem marks_append : marks o (cs ++ ds) = marks o cs ++ marks (o + cs.size) ds := by
  induction cs generalizing o with
  | nil => simp
  | cons c cs ih => simp [marks, ih, Nat.add_assoc]

@[simp] theorem marks_plain (t : Text) : marks o (plain t) = [] := by
  induction t generalizing o with
  | nil => rfl
  | cons c t ih => exact ih

theorem mem_marks {x : Span × NodeId} (h : x ∈ marks o cs) :
    o ≤ x.1.start ∧ x.1.start < x.1.stop ∧ x.1.stop ≤ o + cs.size := by
  induction cs generalizing o with
  | nil => cases h
  | cons c cs ih =>
    obtain ⟨ch, m⟩ := c
    have hw := ch.utf8Size_pos
    simp only [size_cons]
    cases m with
    | none =>
      have := ih (marks_none ▸ h)
      omega
    | some m =>
      rcases List.mem_cons.1 (marks_some ▸ h) with rfl | h
      · simp only
        omega
      · have := ih h
        omega

/-- Marked cells are pieces of the text. -/
theorem pieces_marks (o : Nat) (cs : Cells) : Pieces o cs.text ((marks o cs).map Prod.fst) := by
  induction cs generalizing o with
  | nil => exact .nil o _
  | cons c cs ih =>
    obtain ⟨ch, m⟩ := c
    cases m with
    | none => exact (ih _).prepend [ch]
    | some m => exact Pieces.cons (o := o) [] [ch] (ih _)

/-- Marked cells come one after the other. -/
theorem marks_pairwise (o : Nat) (cs : Cells) :
    (marks o cs).Pairwise fun x y => x.1.stop ≤ y.1.start := by
  induction cs generalizing o with
  | nil => exact .nil
  | cons c cs ih =>
    obtain ⟨ch, m⟩ := c
    cases m with
    | none => exact ih _
    | some m => exact List.pairwise_cons.2 ⟨fun y hy => (mem_marks hy).1, ih _⟩

/-- Cells that touch no marked range have no mark. -/
theorem eq_plain_of_marks {cs : Cells} (h : marks o cs = []) : cs = plain cs.text := by
  induction cs generalizing o with
  | nil => rfl
  | cons c cs ih =>
    obtain ⟨ch, m⟩ := c
    cases m with
    | none =>
      have := ih h
      rw [text_cons]
      exact congrArg _ this
    | some m => cases h

end

section
variable {α : Type}

/-- What `g` makes of the marks of a text from byte `o` on, from left to right. -/
def readMarks (g : Nat → Char → CellMark → α) : Nat → Cells → List α
  | _, [] => []
  | o, c :: cs => (c.mark.map (g o c.char)).toList ++ readMarks g (o + c.char.utf8Size) cs

variable {g : Nat → Char → CellMark → α} {o : Nat} {ch : Char} {m : CellMark} {cs : Cells}

@[simp] theorem readMarks_nil : readMarks g o [] = [] := rfl
@[simp] theorem readMarks_none :
    readMarks g o (⟨ch, none⟩ :: cs) = readMarks g (o + ch.utf8Size) cs := rfl
@[simp] theorem readMarks_some :
    readMarks g o (⟨ch, some m⟩ :: cs) = g o ch m :: readMarks g (o + ch.utf8Size) cs := rfl

theorem map_readMarks {β : Type} (f : α → β) (g : Nat → Char → CellMark → α) (o : Nat)
    (cs : Cells) : (readMarks g o cs).map f = readMarks (fun o ch m => f (g o ch m)) o cs := by
  induction cs generalizing o with
  | nil => rfl
  | cons c cs ih =>
    obtain ⟨ch, _ | m⟩ := c
    · exact ih _
    · exact congrArg _ (ih _)

theorem marks_eq_readMarks (o : Nat) (cs : Cells) :
    marks o cs = readMarks (fun o ch m => (⟨o, o + ch.utf8Size⟩, m.id)) o cs := by
  induction cs generalizing o with
  | nil => rfl
  | cons c cs ih => rw [marks, readMarks, ih]

/-- Where the marks come one after the other, so does what is made of them. -/
theorem readMarks_pairwise {key : α → Nat} (hkey : ∀ o ch m, key (g o ch m) = o) (o : Nat)
    (cs : Cells) : (readMarks g o cs).Pairwise (key · < key ·) := by
  have hmap : (readMarks g o cs).map key = (marks o cs).map (·.1.start) := by
    simp only [marks_eq_readMarks, map_readMarks, hkey]
  refine List.pairwise_map.1 (hmap ▸ List.pairwise_map.2 ?_)
  apply (marks_pairwise o cs).imp_of_mem
  intro _ _ hx _ hxy
  have := mem_marks hx
  omega

end

end Cells

namespace Tree

open Cells

variable {t : Tree} {p : NodeId} {o : Nat} {cs : Cells}

/-! ## Sorted atoms -/

/-- `f` gives for a child what `g` makes of its marks: of the glyph, or of the two markers. -/
structure Reads {α : Type} (t : Tree) (p : NodeId) (f : NodeId → List α)
    (g : Nat → Char → CellMark → α) : Prop where
  glyph : ∀ {o ch id}, t.Stands p o ch (.glyph id) → f id = [g o ch (.glyph id)]
  opening : ∀ {o ch id}, t.Stands p o ch (.opening id) → ∃ x, f id = [g o ch (.opening id), x]
  closing : ∀ {o ch id}, t.Stands p o ch (.closing id) → ∃ x, f id = [x, g o ch (.closing id)]

/-- The atoms of a node, each with the node. -/
def ownAtoms (t : Tree) (id : NodeId) : List (Span × NodeId) := (t.node id).atoms.map (·, id)

theorem ownAtoms_glyph {ch : Char} {id : NodeId} (h : t.Stands p o ch (.glyph id)) :
    t.ownAtoms id = [(⟨o, o + ch.utf8Size⟩, id)] := by
  simp [ownAtoms, Node.atoms, h.1, h.2]

/-- The opening marker is the first of two atoms. -/
theorem ownAtoms_opening {ch : Char} {id : NodeId} (h : t.Stands p o ch (.opening id)) :
    ∃ x, t.ownAtoms id = [(⟨o, o + ch.utf8Size⟩, id), x] := by
  obtain ⟨stop, f, hp, hf, rfl⟩ := h
  simp [ownAtoms, Node.atoms, hp, hf]

/-- The closing marker is the second of two atoms. -/
theorem ownAtoms_closing {ch : Char} {id : NodeId} (h : t.Stands p o ch (.closing id)) :
    ∃ x, t.ownAtoms id = [x, (⟨o, o + ch.utf8Size⟩, id)] := by
  obtain ⟨start, f, hp, hf, rfl⟩ := h
  simp [ownAtoms, Node.atoms, hp, hf]

theorem reads_ownAtoms (t : Tree) (p : NodeId) :
    t.Reads p t.ownAtoms fun o ch m => (⟨o, o + ch.utf8Size⟩, m.id) where
  glyph := ownAtoms_glyph
  opening := ownAtoms_opening
  closing := ownAtoms_closing

section
variable {α : Type} {f : NodeId → List α} {g : Nat → Char → CellMark → α} (hr : t.Reads p f g)
include hr

/-- What the marked cells have is what the children that start have first, and those that are closed
have second. -/
theorem Fits.readMarks_perm (h : t.Fits p o cs) :
    (readMarks g o cs).Perm ((starts cs).flatMap (fun id => (f id).take 1) ++
      (closings cs).flatMap fun id => (f id).drop 1) := by
  induction cs generalizing o with
  | nil => exact .refl _
  | cons c cs ih =>
    obtain ⟨ch, m⟩ := c
    rcases m with _ | i | i | i
    · exact ih (fits_none.1 h)
    · obtain ⟨hm, h⟩ := fits_some.1 h
      simpa [hr.glyph hm] using ih h
    · obtain ⟨hm, h⟩ := fits_some.1 h
      obtain ⟨x, hx⟩ := hr.opening hm
      simpa [hx] using ih h
    · obtain ⟨hm, h⟩ := fits_some.1 h
      obtain ⟨x, hx⟩ := hr.closing hm
      simpa [hx] using ((ih h).cons _).trans List.perm_middle.symm

/-- Only unfolded children have a second one. -/
theorem Fits.flatMap_drop (h : t.Fits p o cs) :
    ((starts cs).flatMap fun id => (f id).drop 1) =
      (openings cs).flatMap fun id => (f id).drop 1 := by
  induction cs generalizing o with
  | nil => rfl
  | cons c cs ih =>
    obtain ⟨ch, m⟩ := c
    rcases m with _ | i | i | i
    · exact ih (fits_none.1 h)
    · obtain ⟨hm, h⟩ := fits_some.1 h
      simpa [hr.glyph hm] using ih h
    · simpa using ih (fits_some.1 h).2
    · exact ih (fits_some.1 h).2

/-- What the children have, sorted by where it is, is what the marked cells have. -/
theorem Layout.sort_readMarks (h : Layout t p cs) {key : α → Nat}
    (hkey : ∀ o ch m, key (g o ch m) = o) :
    sortByKey key ((t.children p).flatMap f) = readMarks g 0 cs := by
  refine sortByKey_eq_of_perm _ ?_ (readMarks_pairwise hkey 0 cs)
  rw [h.children]
  have hoc : (closings cs).Perm (openings cs) := by
    simpa using (nest_perm h.nested.nest).symm
  refine .trans ?_ ((h.fits.readMarks_perm hr).trans ((hoc.flatMap_right _).append_left _)).symm
  rw [← h.fits.flatMap_drop hr]
  refine .trans (.of_eq ?_) (List.flatMap_append_perm _ _ _).symm
  simp only [List.take_append_drop]

end

/-- The atoms of all children, sorted, are the marked cells. -/
theorem Layout.sort_ownAtoms (h : Layout t p cs) :
    sortByKey (·.1.start) ((t.children p).flatMap t.ownAtoms) = marks 0 cs :=
  (h.sort_readMarks (reads_ownAtoms t p) fun _ _ _ => rfl).trans (marks_eq_readMarks 0 cs).symm

theorem Layout.atoms (h : Layout t p cs) : t.atoms p = (marks 0 cs).map Prod.fst := by
  rw [← h.sort_ownAtoms, Tree.atoms, ← sortByKey_map, List.map_flatMap]
  simp [ownAtoms, Function.comp_def]

/-- What a mark gives way to when a text is resolved. -/
def resolveId (t : Tree) (resolved : NodeId → Text) (id : NodeId) : Text :=
  if (t.node id).isUnfolded then [] else resolved id

theorem Layout.resolvingEdits (h : Layout t p cs) (resolved : NodeId → Text) :
    t.resolvingEdits resolved p =
      (marks 0 cs).map fun x => ⟨x.1, t.resolveId resolved x.2⟩ := by
  rw [← h.sort_ownAtoms, Tree.resolvingEdits,
    ← sortByKey_map (fun e : Edit => e.range.start)
      (fun x : Span × NodeId => (⟨x.1, t.resolveId resolved x.2⟩ : Edit)), List.map_flatMap]
  congr 1
  apply List.flatMap_congr
  intro c _
  simp only [ownAtoms, resolveId, List.map_map, Function.comp_def]
  split <;> rfl

end Tree

/-! ## Texts in place of marks -/

section

variable (shown : Text → Text)

/-- A text that starts at byte `cursor` of the whole, with other texts in place of sorted ranges, and
with `shown` applied to what is between them. -/
def Text.weave (cursor : Nat) (t : Text) : List (Span × Text) → Text
  | [] => shown t
  | (s, new) :: rest =>
    shown (t.takeBytes (s.start - cursor)) ++ new ++
      weave s.stop (t.dropBytes (s.stop - cursor)) rest

end

theorem applyEditsFrom_eq_weave (cursor : Nat) (t : Text) (es : List Edit) :
    applyEditsFrom cursor t es =
      Text.weave id cursor t (es.map fun e => (e.range, e.replacement)) := by
  induction es generalizing cursor t with
  | nil => rfl
  | cons e es ih => rw [applyEditsFrom, ih]; rfl

/-- Texts in place of all marks, in a text whose first bytes `u` lie before the cells, where `shown`
goes character by character. -/
theorem Cells.weave_readMarks {shown : Text → Text}
    (hshown : ∀ a b, shown (a ++ b) = shown a ++ shown b) (new : CellMark → Text) (o : Nat)
    (u : Text) (cs : Cells) :
    Text.weave shown o (u ++ cs.text)
        (readMarks (fun o ch m => (⟨o, o + ch.utf8Size⟩, new m)) (o + u.byteSize) cs) =
      shown u ++ cs.flatMap fun c => c.mark.elim (shown [c.char]) new := by
  induction cs generalizing o u with
  | nil => simp [Text.weave]
  | cons c cs ih =>
    obtain ⟨ch, _ | m⟩ := c
    · have := ih o (u ++ [ch])
      simpa [hshown, Nat.add_assoc] using this
    · have hnil : shown [] = [] := by simpa using hshown [] []
      have hrest := ih (o + u.byteSize + ch.utf8Size) []
      simp only [Text.byteSize_nil, Nat.add_zero, List.nil_append, hnil] at hrest
      have hstop : o + u.byteSize + ch.utf8Size - o = Text.byteSize (u ++ [ch]) := by
        simp
        omega
      simp only [text_cons, readMarks_some, Text.weave, List.flatMap_cons, Option.elim_some]
      rw [Nat.add_sub_cancel_left, Text.takeBytes_byteSize_append, hstop,
        List.append_cons u ch (Cells.text cs), Text.dropBytes_byteSize_append, hrest,
        List.append_assoc]

/-! ## Resolving -/

namespace Cells

/-- The text of cells without markers and with the glyphs replaced. -/
def fill (r : NodeId → Text) : Cells → Text
  | [] => []
  | ⟨ch, none⟩ :: cs => ch :: fill r cs
  | ⟨_, some (.glyph id)⟩ :: cs => r id ++ fill r cs
  | ⟨_, some _⟩ :: cs => fill r cs

section
variable {r r' : NodeId → Text} {ch : Char} {id : NodeId} {cs ds : Cells}

@[simp] theorem fill_nil : fill r [] = [] := rfl
@[simp] theorem fill_none : fill r (⟨ch, none⟩ :: cs) = ch :: fill r cs := rfl
@[simp] theorem fill_glyph : fill r (⟨ch, some (.glyph id)⟩ :: cs) = r id ++ fill r cs := rfl
@[simp] theorem fill_opening : fill r (⟨ch, some (.opening id)⟩ :: cs) = fill r cs := rfl
@[simp] theorem fill_closing : fill r (⟨ch, some (.closing id)⟩ :: cs) = fill r cs := rfl

@[simp] theorem fill_append : fill r (cs ++ ds) = fill r cs ++ fill r ds := by
  induction cs with
  | nil => rfl
  | cons c cs ih =>
    obtain ⟨ch, m⟩ := c
    rcases m with _ | _ | _ | _ <;> simp [ih]

@[simp] theorem fill_plain (t : Text) : fill r (plain t) = t := by
  induction t with
  | nil => rfl
  | cons c t ih => exact congrArg _ ih

end

end Cells

namespace Tree

open Cells

variable {t : Tree} {p : NodeId} {o : Nat} {cs : Cells}

/-- Only the texts of hidden children count. -/
theorem Fits.fill_congr {r r' : NodeId → Text} (h : t.Fits p o cs)
    (he : ∀ id ∈ starts cs, (t.node id).fold = none → r id = r' id) : fill r cs = fill r' cs := by
  induction cs generalizing o with
  | nil => rfl
  | cons c cs ih =>
    obtain ⟨ch, m⟩ := c
    rcases m with _ | i | i | i
    · exact congrArg _ (ih (fits_none.1 h) he)
    · obtain ⟨⟨-, hf⟩, h⟩ := fits_some.1 h
      rw [fill_glyph, fill_glyph, he i (by simp) hf, ih h fun id hid => he id (by simp [hid])]
    · exact ih (fits_some.1 h).2 fun id hid => he id (by simp [hid])
    · exact ih (fits_some.1 h).2 he

/-- Markers give way to nothing, and glyphs to the texts of their children. -/
theorem Fits.flatMap_resolveId (h : t.Fits p o cs) (resolved : NodeId → Text) :
    (cs.flatMap fun c => c.mark.elim [c.char] fun m => t.resolveId resolved m.id) =
      fill resolved cs := by
  induction cs generalizing o with
  | nil => rfl
  | cons c cs ih =>
    rw [List.flatMap_cons, ih (fits_cons.1 h).2]
    obtain ⟨ch, m⟩ := c
    rcases m with _ | id | id | id
    · rfl
    · simp [resolveId, Node.isUnfolded, CellMark.id, (fits_some.1 h).1.2]
    · obtain ⟨⟨stop, f, -, hf, -⟩, -⟩ := fits_some.1 h
      simp [resolveId, Node.isUnfolded, CellMark.id, hf]
    · obtain ⟨⟨start, f, -, hf, -⟩, -⟩ := fits_some.1 h
      simp [resolveId, Node.isUnfolded, CellMark.id, hf]

/-- Edits at all marks, made in a text whose first bytes `u` lie before the cells. -/
theorem Fits.applyEditsFrom (h : t.Fits p (o + Text.byteSize u) cs) (resolved : NodeId → Text) :
    applyEditsFrom o (u ++ cs.text)
        ((marks (o + Text.byteSize u) cs).map fun x => ⟨x.1, t.resolveId resolved x.2⟩) =
      u ++ fill resolved cs := by
  rw [applyEditsFrom_eq_weave, List.map_map, marks_eq_readMarks, map_readMarks,
    ← h.flatMap_resolveId resolved]
  exact weave_readMarks (fun _ _ => rfl) (fun m => t.resolveId resolved m.id) o u cs

/-- The resolving edits of a text leave its cells without markers and with the glyphs replaced. -/
theorem Layout.applyEdits_resolvingEdits (h : Layout t p cs) (resolved : NodeId → Text) :
    applyEdits (t.node p).text (t.resolvingEdits resolved p) = fill resolved cs := by
  rw [h.text, h.resolvingEdits]
  exact Fits.applyEditsFrom (o := 0) (u := []) (by simpa using h.fits) _

end Tree

/-! ## Literal runs -/

namespace Cells

/-- No marked cell lies in a range of the text. -/
def Free (cs : Cells) (s : Span) : Prop :=
  ∀ x ∈ marks 0 cs, x.1.stop ≤ s.start ∨ s.stop ≤ x.1.start

theorem Free.eq_plain {a s c : Cells} (h : Free (a ++ s ++ c) ⟨a.size, a.size + s.size⟩) :
    s = plain s.text := by
  refine eq_plain_of_marks (o := a.size) (List.eq_nil_iff_forall_not_mem.2 fun x hx => ?_)
  have hm := mem_marks hx
  have := h x (by simp [marks_append, hx])
  simp only at this
  omega

/-- The literal runs of cells, in a text whose first bytes `u` are literal and lie before them, are
pieces of the text that hold no marked cell. -/
theorem literalRunsFrom_marks (o : Nat) (u : Text) (cs : Cells) :
    let atoms := marks (o + u.byteSize) cs
    let runs := literalRunsFrom o (o + u.byteSize + cs.size) (atoms.map Prod.fst)
    Pieces o (u ++ cs.text) runs ∧
      ∀ s ∈ runs, s.start < s.stop ∧ ∀ x ∈ atoms, x.1.stop ≤ s.start ∨ s.stop ≤ x.1.start := by
  induction cs generalizing o u with
  | nil =>
    simp only [marks_nil, List.map_nil, literalRunsFrom, size_nil, text_nil, Nat.add_zero,
      List.append_nil]
    split
    · rename_i hu
      refine ⟨Pieces.whole o u, fun s hs => ?_⟩
      obtain rfl := List.mem_singleton.1 hs
      exact ⟨hu, by simp⟩
    · exact ⟨.nil _ _, by simp⟩
  | cons c cs ih =>
    obtain ⟨ch, m⟩ := c
    have hw := ch.utf8Size_pos
    cases m with
    | none =>
      have := ih o (u ++ [ch])
      simpa [Nat.add_assoc] using this
    | some m =>
      have ih := ih (o + u.byteSize + ch.utf8Size) []
      simp only [Text.byteSize_nil, Nat.add_zero, List.nil_append] at ih
      obtain ⟨hp, hr⟩ := ih
      simp only [marks_some, List.map_cons, literalRunsFrom, size_cons, text_cons]
      rw [Nat.max_eq_right (by omega), ← Nat.add_assoc (o + u.byteSize)]
      have hrest : ∀ s ∈ literalRunsFrom (o + u.byteSize + ch.utf8Size)
          (o + u.byteSize + ch.utf8Size + size cs)
          ((marks (o + u.byteSize + ch.utf8Size) cs).map Prod.fst),
          s.start < s.stop ∧ ∀ x ∈ (⟨o + u.byteSize, o + u.byteSize + ch.utf8Size⟩, m.id) ::
            marks (o + u.byteSize + ch.utf8Size) cs,
            x.1.stop ≤ s.start ∨ s.stop ≤ x.1.start := by
        intro s hs
        refine ⟨(hr s hs).1, fun x hx => ?_⟩
        rcases List.mem_cons.1 hx with rfl | hx
        · exact .inl (hp.le_start s hs)
        · exact (hr s hs).2 x hx
      have hp' : Pieces (o + u.byteSize) (ch :: text cs) _ := Pieces.prepend [ch] hp
      split
      · rename_i hu
        refine ⟨?_, fun s hs => ?_⟩
        · have := Pieces.cons (o := o) [] u (by simpa using hp')
          simpa using this
        · rcases List.mem_cons.1 hs with rfl | hs
          · refine ⟨hu, fun x hx => .inr ?_⟩
            rcases List.mem_cons.1 hx with rfl | hx
            · exact Nat.le_refl _
            · have := mem_marks hx
              simp only
              omega
          · exact hrest s hs
      · exact ⟨hp'.prepend u, hrest⟩

end Cells

namespace Tree

open Cells

variable {t : Tree} {p : NodeId} {cs : Cells}

theorem Layout.literalRuns_eq (h : Layout t p cs) :
    t.literalRuns p = literalRunsFrom 0 cs.size ((marks 0 cs).map Prod.fst) := by
  rw [Tree.literalRuns, GlyphTree.literalRuns, h.atoms, h.text]
  rfl

/-- The literal runs of a node are pieces of its text. -/
theorem Layout.pieces_literalRuns (h : Layout t p cs) : Pieces 0 cs.text (t.literalRuns p) := by
  rw [h.literalRuns_eq]
  simpa using (literalRunsFrom_marks 0 [] cs).1

/-- A literal run is not empty and has no marks in it. -/
theorem Layout.free_of_mem_literalRuns (h : Layout t p cs) {s : Span}
    (hs : s ∈ t.literalRuns p) : s.start < s.stop ∧ Free cs s := by
  rw [h.literalRuns_eq] at hs
  have := (literalRunsFrom_marks 0 [] cs).2 s
  simp only [Text.byteSize_nil, Nat.add_zero, Nat.zero_add] at this
  exact this hs

end Tree

/-! ## Whole cuts -/

/-- A cut that respects atoms takes all of them or touches none. -/
theorem Cut.respects_iff {c : Cut} {atoms : List Span} (h : c.respects atoms = true) :
    (∀ a ∈ atoms, c.range.encloses a = true) ∨ ∀ a ∈ atoms, c.range.overlaps a = false := by
  simp only [respects, Bool.and_eq_true, Bool.or_eq_true, decide_eq_true_eq] at h
  obtain ⟨ht, h0 | hall⟩ := h
  · refine .inr fun a ha => ?_
    have : atoms.filter c.range.overlaps = [] := List.length_eq_zero_iff.1 (ht.trans h0)
    simpa using List.filter_eq_nil_iff.1 this a ha
  · exact .inl (List.length_filter_eq_length_iff.1 hall)

namespace Tree

open Cells

variable {t : Tree} {p : NodeId} {o : Nat} {cs : Cells}

/-- A child that is marked in cells has an atom there. -/
theorem Fits.exists_atom (h : t.Fits p o cs) {id : NodeId} (hid : id ∈ ids cs) :
    ∃ x ∈ t.ownAtoms id, o ≤ x.1.start ∧ x.1.start < x.1.stop ∧ x.1.stop ≤ o + cs.size := by
  induction cs generalizing o with
  | nil => cases hid
  | cons c cs ih =>
    obtain ⟨ch, m⟩ := c
    have hw := ch.utf8Size_pos
    simp only [size_cons]
    have htail : id ∈ ids cs → ∃ x ∈ t.ownAtoms id, o ≤ x.1.start ∧ x.1.start < x.1.stop ∧
        x.1.stop ≤ o + (ch.utf8Size + Cells.size cs) := by
      intro hid
      obtain ⟨x, hx, h1, h2, h3⟩ := ih (fits_cons.1 h).2 hid
      simp only at h1 h3
      exact ⟨x, hx, by omega, h2, by omega⟩
    cases m with
    | none => exact htail hid
    | some m =>
      rcases List.mem_cons.1 hid with rfl | hid
      · have hm := (fits_some.1 h).1
        have hx : (⟨o, o + ch.utf8Size⟩, m.id) ∈ t.ownAtoms m.id := by
          cases m with
          | glyph id => simp [CellMark.id, ownAtoms_glyph hm]
          | opening id => obtain ⟨x, hx⟩ := ownAtoms_opening hm; simp [CellMark.id, hx]
          | closing id => obtain ⟨x, hx⟩ := ownAtoms_closing hm; simp [CellMark.id, hx]
        exact ⟨_, hx, Nat.le_refl o, by simp only; omega, by simp only; omega⟩
      · exact htail hid

/-- A cut of whole children shares no child with what stands before or behind it. -/
theorem Layout.ids_of_isWhole {a s c : Cells} (h : Layout t p (a ++ s ++ c)) {cut : Cut}
    (hr : cut.range = ⟨a.size, a.size + s.size⟩) (hw : t.isWhole p cut = true) {id : NodeId}
    (hid : id ∈ ids s) : id ∉ ids a ∧ id ∉ ids c := by
  obtain ⟨hfit, hfc⟩ := fits_append.1 h.fits
  obtain ⟨hfa, hfs⟩ := fits_append.1 hfit
  have hmem : id ∈ t.children p := h.children ▸ h.nested.mem_ids.1 (by simp [hid])
  obtain ⟨x, hx, h1, h2, h3⟩ := hfs.exists_atom hid
  -- a child with an atom in the cut has all its atoms there
  have hall : ∀ y ∈ t.ownAtoms id, a.size ≤ y.1.start ∧ y.1.stop ≤ a.size + s.size := by
    intro y hy
    have := Cut.respects_iff (List.all_eq_true.1 hw id hmem)
    obtain ⟨x', hx', rfl⟩ := List.mem_map.1 hx
    obtain ⟨y', hy', rfl⟩ := List.mem_map.1 hy
    simp only at h1 h2 h3 ⊢
    rcases this with hall | hall
    · have := hall y' hy'
      simp only [hr, Span.encloses, Bool.and_eq_true, decide_eq_true_eq] at this
      omega
    · have := hall x' hx'
      simp only [hr, Span.overlaps, Bool.and_eq_false_iff, decide_eq_false_iff_not] at this
      omega
  constructor
  · intro ha
    obtain ⟨y, hy, h4, h5, h6⟩ := hfa.exists_atom ha
    have := hall y hy
    omega
  · intro hc
    obtain ⟨y, hy, h4, h5, h6⟩ := hfc.exists_atom hc
    have := hall y hy
    simp only [size_append] at h4
    omega

/-- A whole cut holds both markers of an unfolded child or none. -/
theorem Layout.closed_of_isWhole {a s c : Cells} (h : Layout t p (a ++ s ++ c)) {cut : Cut}
    (hr : cut.range = ⟨a.size, a.size + s.size⟩) (hw : t.isWhole p cut = true) : Closed s := by
  intro id
  have hout : id ∈ ids s → id ∉ ids a ∧ id ∉ ids c := h.ids_of_isWhole hr hw
  have hcl := closed_of_nest h.nested.nest id
  simp only [openings_append, closings_append, List.mem_append] at hcl
  have hopen : ∀ {ds : Cells}, id ∈ openings ds → id ∈ ids ds := fun h1 =>
    Cells.mem_ids.2 (.inl ((openings_sublist _).subset h1))
  have hclose : ∀ {ds : Cells}, id ∈ closings ds → id ∈ ids ds := fun h1 =>
    Cells.mem_ids.2 (.inr h1)
  constructor
  · intro hid
    rcases hcl.1 (.inl (.inr hid)) with (h1 | h1) | h1
    · exact absurd (hclose h1) (hout (hopen hid)).1
    · exact h1
    · exact absurd (hclose h1) (hout (hopen hid)).2
  · intro hid
    rcases hcl.2 (.inl (.inr hid)) with (h1 | h1) | h1
    · exact absurd (hopen h1) (hout (hclose hid)).1
    · exact h1
    · exact absurd (hopen h1) (hout (hclose hid)).2

end Tree

end GlyphTree
