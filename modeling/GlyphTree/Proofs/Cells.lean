import GlyphTree.Error
import Mathlib.Data.List.Nodup
import Mathlib.Data.List.Perm.Basic

/-!
# Cells

The text of a node as its children see it: a list of characters, some of them marked as the glyph
of a hidden child or as the opening or closing marker of an unfolded one. `nest` reads the markers
as brackets; in `Nested` cells every bracket is closed and no child occurs twice.

A stretch of nested cells that holds both markers of a child or none (`Closed`) is nested itself,
and so is what is left without it (`Nested.collapse`).
-/

namespace GlyphTree

/-- What a character of a text is to a child. -/
inductive CellMark where
  | glyph (id : NodeId)
  | opening (id : NodeId)
  | closing (id : NodeId)
deriving DecidableEq, Repr, Inhabited

namespace CellMark

/-- The child that a character is marked for. -/
def id : CellMark → NodeId
  | glyph id | opening id | closing id => id

/-- The child whose part of the text starts at the mark. -/
def start? : CellMark → Option NodeId
  | glyph id | opening id => some id
  | closing _ => none

/-- The unfolded child whose part of the text starts at the mark. -/
def opening? : CellMark → Option NodeId
  | opening id => some id
  | _ => none

/-- The unfolded child whose part of the text ends at the mark. -/
def closing? : CellMark → Option NodeId
  | closing id => some id
  | _ => none

end CellMark

/-- A character, and its mark if it is not literal. -/
structure Cell where
  char : Char
  mark : Option CellMark
deriving DecidableEq, Repr, Inhabited

/-- A text with the marks of its characters. -/
abbrev Cells := List Cell

namespace Cells

/-- The bare text. -/
def text (cs : Cells) : Text := cs.map Cell.char

/-- A text without marks. -/
def plain (t : Text) : Cells := t.map (⟨·, none⟩)

/-- The children of all marks. -/
def ids (cs : Cells) : List NodeId := cs.filterMap fun c => c.mark.map CellMark.id

/-- The children in the order in which their parts of the text start. -/
def starts (cs : Cells) : List NodeId := cs.filterMap fun c => c.mark.bind CellMark.start?

/-- The unfolded children in the order of their opening markers. -/
def openings (cs : Cells) : List NodeId := cs.filterMap fun c => c.mark.bind CellMark.opening?

/-- The unfolded children in the order of their closing markers. -/
def closings (cs : Cells) : List NodeId := cs.filterMap fun c => c.mark.bind CellMark.closing?

section
variable (c : Cell) (cs ds : Cells) (t u : Text)

@[simp] theorem text_nil : text [] = [] := rfl

@[simp] theorem text_cons : text (c :: cs) = c.char :: text cs := rfl

@[simp] theorem text_append : text (cs ++ ds) = text cs ++ text ds := List.map_append

@[simp] theorem text_plain : text (plain t) = t := by
  simp [text, plain, Function.comp_def]

@[simp] theorem plain_append : plain (t ++ u) = plain t ++ plain u := List.map_append

@[simp] theorem ids_nil : ids [] = [] := rfl

@[simp] theorem ids_append : ids (cs ++ ds) = ids cs ++ ids ds := List.filterMap_append

@[simp] theorem ids_plain : ids (plain t) = [] := by
  simp [ids, plain, List.filterMap_map]

@[simp] theorem starts_nil : starts [] = [] := rfl

@[simp] theorem starts_append : starts (cs ++ ds) = starts cs ++ starts ds :=
  List.filterMap_append

@[simp] theorem starts_plain : starts (plain t) = [] := by
  simp [starts, plain, List.filterMap_map]

@[simp] theorem openings_nil : openings [] = [] := rfl

@[simp] theorem openings_append : openings (cs ++ ds) = openings cs ++ openings ds :=
  List.filterMap_append

@[simp] theorem openings_plain : openings (plain t) = [] := by
  simp [openings, plain, List.filterMap_map]

@[simp] theorem closings_nil : closings [] = [] := rfl

@[simp] theorem closings_append : closings (cs ++ ds) = closings cs ++ closings ds :=
  List.filterMap_append

@[simp] theorem closings_plain : closings (plain t) = [] := by
  simp [closings, plain, List.filterMap_map]

end

section
variable (ch : Char) (id : NodeId) (cs : Cells)

@[simp] theorem ids_none : ids (⟨ch, none⟩ :: cs) = ids cs := rfl
@[simp] theorem ids_some (m : CellMark) : ids (⟨ch, some m⟩ :: cs) = m.id :: ids cs := rfl

@[simp] theorem starts_none : starts (⟨ch, none⟩ :: cs) = starts cs := rfl
@[simp] theorem starts_glyph : starts (⟨ch, some (.glyph id)⟩ :: cs) = id :: starts cs := rfl
@[simp] theorem starts_opening : starts (⟨ch, some (.opening id)⟩ :: cs) = id :: starts cs := rfl
@[simp] theorem starts_closing : starts (⟨ch, some (.closing id)⟩ :: cs) = starts cs := rfl

@[simp] theorem openings_none : openings (⟨ch, none⟩ :: cs) = openings cs := rfl
@[simp] theorem openings_glyph : openings (⟨ch, some (.glyph id)⟩ :: cs) = openings cs := rfl
@[simp] theorem openings_opening :
    openings (⟨ch, some (.opening id)⟩ :: cs) = id :: openings cs := rfl
@[simp] theorem openings_closing : openings (⟨ch, some (.closing id)⟩ :: cs) = openings cs := rfl

@[simp] theorem closings_none : closings (⟨ch, none⟩ :: cs) = closings cs := rfl
@[simp] theorem closings_glyph : closings (⟨ch, some (.glyph id)⟩ :: cs) = closings cs := rfl
@[simp] theorem closings_opening : closings (⟨ch, some (.opening id)⟩ :: cs) = closings cs := rfl
@[simp] theorem closings_closing :
    closings (⟨ch, some (.closing id)⟩ :: cs) = id :: closings cs := rfl

end

theorem starts_cons (c : Cell) (cs : Cells) :
    starts (c :: cs) = (c.mark.bind CellMark.start?).toList ++ starts cs := by
  obtain ⟨ch, m⟩ := c
  rcases m with _ | _ | _ | _ <;> rfl

theorem closings_cons (c : Cell) (cs : Cells) :
    closings (c :: cs) = (c.mark.bind CellMark.closing?).toList ++ closings cs := by
  obtain ⟨ch, m⟩ := c
  rcases m with _ | _ | _ | _ <;> rfl

theorem openings_sublist (cs : Cells) : (openings cs).Sublist (starts cs) := by
  induction cs with
  | nil => exact .slnil
  | cons c cs ih =>
    obtain ⟨ch, m⟩ := c
    rcases m with _ | _ | _ | _
    · exact ih
    · exact ih.cons _
    · exact ih.cons_cons _
    · exact ih

theorem mem_ids {cs : Cells} {id : NodeId} : id ∈ ids cs ↔ id ∈ starts cs ∨ id ∈ closings cs := by
  induction cs with
  | nil => simp
  | cons c cs ih =>
    obtain ⟨ch, m⟩ := c
    rcases m with _ | _ | _ | _
    · exact ih
    · simp [ih, CellMark.id, or_assoc]
    · simp [ih, CellMark.id, or_assoc]
    · simp [ih, CellMark.id, or_left_comm]

/-! ## Brackets -/

/-- The unfolded children that are open after a mark, the innermost first. -/
def pass : Option CellMark → List NodeId → Option (List NodeId)
  | some (.opening id), stack => some (id :: stack)
  | some (.closing id), top :: stack => if top = id then some stack else none
  | some (.closing _), [] => none
  | _, stack => some stack

/-- The unfolded children that are open after some cells, where those in `stack` are open before
them. There is no answer if a marker closes anything but the innermost. -/
def nest : List NodeId → Cells → Option (List NodeId)
  | stack, [] => some stack
  | stack, c :: cs => (pass c.mark stack).bind (nest · cs)

@[simp] theorem nest_nil (s : List NodeId) : nest s [] = some s := rfl

theorem nest_cons (s : List NodeId) (c : Cell) (cs : Cells) :
    nest s (c :: cs) = (pass c.mark s).bind (nest · cs) := rfl

section
variable (s : List NodeId) (ch : Char) (id : NodeId) (cs : Cells)

@[simp] theorem nest_none : nest s (⟨ch, none⟩ :: cs) = nest s cs := rfl
@[simp] theorem nest_glyph : nest s (⟨ch, some (.glyph id)⟩ :: cs) = nest s cs := rfl
@[simp] theorem nest_opening : nest s (⟨ch, some (.opening id)⟩ :: cs) = nest (id :: s) cs := rfl
@[simp] theorem nest_closing :
    nest (id :: s) (⟨ch, some (.closing id)⟩ :: cs) = nest s cs := by
  simp [nest_cons, pass]

end

theorem nest_append (s : List NodeId) (cs ds : Cells) :
    nest s (cs ++ ds) = (nest s cs).bind (nest · ds) := by
  induction cs generalizing s with
  | nil => rfl
  | cons c cs ih =>
    rw [List.cons_append, nest_cons, nest_cons, Option.bind_assoc]
    exact congrArg _ (funext fun s => ih s)

@[simp] theorem nest_plain (s : List NodeId) (t : Text) : nest s (plain t) = some s := by
  induction t with
  | nil => rfl
  | cons c cs ih => exact ih

theorem nest_closing_eq_some {s r : List NodeId} {ch : Char} {id : NodeId} {cs : Cells}
    (h : nest s (⟨ch, some (.closing id)⟩ :: cs) = some r) :
    ∃ s', s = id :: s' ∧ nest s' cs = some r := by
  rw [nest_cons] at h
  cases s with
  | nil => cases h
  | cons top s =>
    by_cases ht : top = id
    · subst ht
      exact ⟨s, rfl, by simpa [pass] using h⟩
    · simp [pass, ht] at h

/-- What was open or is opened is closed or still open. -/
theorem nest_perm {s r : List NodeId} {cs : Cells} (h : nest s cs = some r) :
    (s ++ openings cs).Perm (r ++ closings cs) := by
  induction cs generalizing s with
  | nil => cases h; simp
  | cons c cs ih =>
    obtain ⟨ch, m⟩ := c
    rcases m with _ | id | id | id
    · exact ih h
    · exact ih h
    · rw [openings_opening, closings_opening]
      exact List.perm_middle.trans (ih h)
    · obtain ⟨s', rfl, h'⟩ := nest_closing_eq_some h
      rw [openings_closing, closings_closing]
      exact ((ih h').cons id).trans List.perm_middle.symm

/-- Brackets further out do not matter. -/
theorem nest_frame {s r : List NodeId} {cs : Cells} (h : nest s cs = some r) (u : List NodeId) :
    nest (s ++ u) cs = some (r ++ u) := by
  induction cs generalizing s with
  | nil => cases h; rfl
  | cons c cs ih =>
    obtain ⟨ch, m⟩ := c
    rcases m with _ | id | id | id
    · exact ih h
    · exact ih h
    · exact ih (s := id :: s) h
    · obtain ⟨s', rfl, h'⟩ := nest_closing_eq_some h
      rw [List.cons_append, nest_closing]
      exact ih h'

/-- A bracket that the cells do not close stays where it is, and all that are further out. -/
theorem nest_under {s u r : List NodeId} {id : NodeId} {cs : Cells}
    (h : nest (s ++ id :: u) cs = some r) (hid : id ∉ closings cs) :
    ∃ r', nest s cs = some r' ∧ r = r' ++ id :: u := by
  induction cs generalizing s with
  | nil => cases h; exact ⟨s, rfl, rfl⟩
  | cons c cs ih =>
    obtain ⟨ch, m⟩ := c
    rcases m with _ | i | i | i
    · exact ih h hid
    · exact ih h hid
    · exact ih (s := i :: s) h hid
    · rw [closings_closing, List.mem_cons, not_or] at hid
      obtain ⟨s', hs, h'⟩ := nest_closing_eq_some h
      cases s with
      | nil =>
        cases hs
        exact absurd rfl hid.1
      | cons top s =>
        cases hs
        obtain ⟨r', hr, rfl⟩ := ih h' hid.2
        exact ⟨r', by rw [nest_closing]; exact hr, rfl⟩

/-! ## Nested cells -/

/-- Every marker is closed, in the order of brackets, and no child occurs twice. -/
structure Nested (cs : Cells) : Prop where
  nest : nest [] cs = some []
  nodup : (starts cs).Nodup

/-- Both markers of a child are there, or neither. -/
def Closed (cs : Cells) : Prop := ∀ id, id ∈ openings cs ↔ id ∈ closings cs

theorem closed_of_nest {cs : Cells} (h : nest [] cs = some []) : Closed cs := fun _ =>
  (nest_perm h).mem_iff

theorem Nested.closings_nodup {cs : Cells} (h : Nested cs) : (closings cs).Nodup :=
  (nest_perm h.nest).nodup_iff.1 (h.nodup.sublist (openings_sublist cs))

/-- Every mark belongs to a child that starts somewhere. -/
theorem Nested.mem_ids {cs : Cells} (h : Nested cs) {id : NodeId} :
    id ∈ ids cs ↔ id ∈ starts cs := by
  rw [Cells.mem_ids]
  refine ⟨fun hid => ?_, .inl⟩
  rcases hid with hid | hid
  · exact hid
  · exact (openings_sublist cs).subset ((closed_of_nest h.nest id).2 hid)

theorem nested_plain (t : Text) : Nested (plain t) := ⟨by simp, by simp⟩

theorem eq_plain_of_ids {cs : Cells} (h : ids cs = []) : cs = plain cs.text := by
  induction cs with
  | nil => rfl
  | cons c cs ih =>
    obtain ⟨ch, m⟩ := c
    cases m with
    | none => exact congrArg _ (ih h)
    | some m => cases h

/-- Nested cells in which no child starts are literal text. -/
theorem Nested.eq_plain {cs : Cells} (h : Nested cs) (hs : starts cs = []) :
    cs = plain cs.text := by
  refine eq_plain_of_ids (List.eq_nil_iff_forall_not_mem.2 fun id hid => ?_)
  rw [h.mem_ids, hs] at hid
  cases hid

/-- A stretch that is closed can be taken out of nested cells. Neither it nor the rest loses its
nesting. -/
theorem Nested.collapse {a s c : Cells} (h : Nested (a ++ s ++ c)) (hs : Closed s) :
    Nested s ∧ Nested (a ++ c) := by
  obtain ⟨hn, hd⟩ := h
  simp only [starts_append] at hd
  have hopen : (openings a ++ openings s).Nodup :=
    hd.sublist (.trans ((openings_sublist a).append (openings_sublist s))
      (List.sublist_append_left _ _))
  rw [List.append_assoc, nest_append, Option.bind_eq_some_iff] at hn
  obtain ⟨u, ha, hn⟩ := hn
  rw [nest_append, Option.bind_eq_some_iff] at hn
  obtain ⟨v, hsv, hc⟩ := hn
  -- the stretch closes nothing that was open before it
  have hr : ∃ r, Cells.nest [] s = some r ∧ v = r ++ u := by
    cases u with
    | nil => exact ⟨v, hsv, by simp⟩
    | cons id u =>
      apply nest_under (s := []) hsv
      intro hid
      have h1 : id ∈ openings a := by
        have := (nest_perm ha).mem_iff (a := id)
        simpa using this.2 (by simp)
      exact (List.nodup_append.1 hopen).2.2 id h1 id ((hs id).2 hid) rfl
  obtain ⟨r, hr, rfl⟩ := hr
  -- and leaves nothing open
  have hr0 : r = [] := by
    apply List.eq_nil_iff_forall_not_mem.2
    intro id hid
    have hp := nest_perm hr
    rw [List.nil_append] at hp
    have h1 : id ∈ closings s := (hs id).1 (hp.mem_iff.2 (List.mem_append_left _ hid))
    have h2 : (r ++ closings s).Nodup := hp.nodup_iff.1 (List.nodup_append.1 hopen).2.1
    exact (List.nodup_append.1 h2).2.2 id hid id h1 rfl
  subst hr0
  refine ⟨⟨hr, ?_⟩, ⟨?_, ?_⟩⟩
  · exact hd.sublist (.trans (List.sublist_append_right _ _) (List.sublist_append_left _ _))
  · rw [nest_append, ha]
    exact hc
  · rw [starts_append]
    exact hd.sublist ((List.sublist_append_left _ _).append (List.Sublist.refl _))

/-- Literal text may go anywhere. -/
theorem Nested.insert_plain {a c : Cells} (h : Nested (a ++ c)) (t : Text) :
    Nested (a ++ plain t ++ c) := by
  obtain ⟨hn, hd⟩ := h
  refine ⟨?_, by simpa using hd⟩
  rw [nest_append] at hn
  rw [List.append_assoc, nest_append]
  refine Eq.trans (congrArg _ (funext fun s => ?_)) hn
  rw [nest_append, nest_plain]
  rfl

/-- Nested cells whose children are new may take the place of their text. -/
theorem Nested.insert {a b c : Cells} {u : Text} {q : NodeId} (h : Nested (a ++ plain u ++ c))
    (hb : Nested b) (hd : ∀ i ∈ starts b, i ≠ q ∧ i ∉ starts a ∧ i ∉ starts c) :
    Nested (a ++ b ++ c) := by
  obtain ⟨hn, hnd⟩ := h
  constructor
  · rw [List.append_assoc, nest_append] at hn ⊢
    refine Eq.trans (congrArg _ (funext fun s => ?_)) hn
    rw [nest_append, nest_append, nest_plain,
      show Cells.nest s b = some s from nest_frame hb.nest s]
  · simp only [starts_append, starts_plain, List.append_nil] at hnd ⊢
    have hp : (starts a ++ starts b ++ starts c).Perm ((starts a ++ starts c) ++ starts b) := by
      rw [List.append_assoc, List.append_assoc]
      exact List.perm_append_comm.append_left _
    refine hp.nodup_iff.2 (List.nodup_append.2 ⟨hnd, hb.nodup, ?_⟩)
    rintro x hx y hy rfl
    obtain ⟨-, h2, h3⟩ := hd x hy
    rcases List.mem_append.1 hx with hx | hx
    · exact h2 hx
    · exact h3 hx

/-- A literal character may become the glyph of a new child. -/
theorem Nested.mark {a c : Cells} {g : Char} {id : NodeId} (h : Nested (a ++ ⟨g, none⟩ :: c))
    (hid : id ∉ starts (a ++ ⟨g, none⟩ :: c)) : Nested (a ++ ⟨g, some (.glyph id)⟩ :: c) := by
  obtain ⟨hn, hd⟩ := h
  refine ⟨by simpa [nest_append] using hn, ?_⟩
  rw [starts_append, starts_none] at hid hd
  rw [starts_append, starts_glyph]
  exact List.nodup_middle.2 (List.nodup_cons.2 ⟨hid, hd⟩)

theorem exists_of_mem_openings {cs : Cells} {id : NodeId} (h : id ∈ openings cs) :
    ∃ (a : Cells) (o : Char) (b : Cells), cs = a ++ ⟨o, some (.opening id)⟩ :: b := by
  obtain ⟨⟨o, m⟩, hc, hm⟩ := List.mem_filterMap.1 h
  obtain ⟨a, b, rfl⟩ := List.append_of_mem hc
  rcases m with _ | _ | _ | _ <;> simp [CellMark.opening?] at hm
  subst hm
  exact ⟨a, o, b, rfl⟩

theorem exists_of_mem_closings {cs : Cells} {id : NodeId} (h : id ∈ closings cs) :
    ∃ (a : Cells) (e : Char) (b : Cells), cs = a ++ ⟨e, some (.closing id)⟩ :: b := by
  obtain ⟨⟨e, m⟩, hc, hm⟩ := List.mem_filterMap.1 h
  obtain ⟨a, b, rfl⟩ := List.append_of_mem hc
  rcases m with _ | _ | _ | _ <;> simp [CellMark.closing?] at hm
  subst hm
  exact ⟨a, e, b, rfl⟩

/-- The part of a child starts with its glyph or its opening marker. -/
theorem exists_of_mem_starts {cs : Cells} {id : NodeId} (h : id ∈ starts cs) :
    (∃ (a : Cells) (g : Char) (b : Cells), cs = a ++ ⟨g, some (.glyph id)⟩ :: b) ∨
      id ∈ openings cs := by
  obtain ⟨⟨g, m⟩, hc, hm⟩ := List.mem_filterMap.1 h
  obtain ⟨a, b, rfl⟩ := List.append_of_mem hc
  rcases m with _ | _ | _ | _ <;> simp [CellMark.start?] at hm
  · subst hm
    exact .inl ⟨a, g, b, rfl⟩
  · subst hm
    exact .inr (by simp)

/-- Every opening marker has its closing marker further on. -/
theorem Nested.exists_region {cs : Cells} (h : Nested cs) {id : NodeId} (hid : id ∈ openings cs) :
    ∃ (a : Cells) (o : Char) (b : Cells) (e : Char) (c : Cells),
      cs = a ++ ⟨o, some (.opening id)⟩ :: b ++ ⟨e, some (.closing id)⟩ :: c := by
  have hclose : id ∈ closings cs := (closed_of_nest h.nest id).1 hid
  obtain ⟨a, o, r, rfl⟩ := exists_of_mem_openings hid
  rw [closings_append, List.mem_append, closings_opening] at hclose
  rcases hclose with hl | hr
  · -- a marker closed before it is opened would have been opened twice
    obtain ⟨a', e, b, rfl⟩ := exists_of_mem_closings hl
    obtain ⟨hn, hd⟩ := h
    rw [List.append_assoc, nest_append, Option.bind_eq_some_iff] at hn
    obtain ⟨u, ha, hn⟩ := hn
    obtain ⟨u', rfl, -⟩ := nest_closing_eq_some hn
    have h1 : id ∈ openings a' := by
      have := (nest_perm ha).mem_iff (a := id)
      simpa using this.2 (by simp)
    have h2 := (openings_sublist a').subset h1
    simp only [starts_append, starts_closing, starts_opening, List.append_assoc] at hd
    exact absurd rfl ((List.nodup_append.1 hd).2.2 id h2 id (by simp))
  · obtain ⟨b, e, c, rfl⟩ := exists_of_mem_closings hr
    exact ⟨a, o, b, e, c, by simp⟩

/-- The body of an unfolded child is nested, and so are the cells with a glyph in place of it. -/
theorem Nested.fold {a b c : Cells} {o e : Char} {id : NodeId} (g : Char)
    (h : Nested (a ++ ⟨o, some (.opening id)⟩ :: b ++ ⟨e, some (.closing id)⟩ :: c)) :
    Nested b ∧ Nested (a ++ ⟨g, some (.glyph id)⟩ :: c) := by
  have hcl := h.closings_nodup
  obtain ⟨hn, hd⟩ := h
  simp only [starts_append, starts_opening, starts_closing, List.append_assoc,
    List.cons_append] at hd
  simp only [closings_append, closings_opening, closings_closing, List.append_assoc] at hcl
  rw [List.append_assoc, nest_append, Option.bind_eq_some_iff] at hn
  obtain ⟨u, ha, hn⟩ := hn
  rw [List.cons_append, nest_opening, nest_append, Option.bind_eq_some_iff] at hn
  obtain ⟨v, hb, hn⟩ := hn
  obtain ⟨v', rfl, hc⟩ := nest_closing_eq_some hn
  have hid : id ∉ closings b := fun hid =>
    (List.nodup_append.1 (List.nodup_append.1 hcl).2.1).2.2 id hid id (by simp) rfl
  obtain ⟨r, hr, hv⟩ := nest_under (s := []) hb hid
  cases r with
  | cons top r =>
    cases hv
    have h1 : id ∈ openings b := by
      have := (nest_perm hr).mem_iff (a := id)
      simpa using this.2 (by simp)
    have h2 := (openings_sublist b).subset h1
    have h3 := (List.nodup_cons.1 (List.nodup_append.1 hd).2.1).1
    exact absurd (List.mem_append_left _ h2) h3
  | nil =>
    cases hv
    refine ⟨⟨hr, ?_⟩, ⟨?_, ?_⟩⟩
    · exact (List.nodup_append.1 (List.nodup_cons.1 (List.nodup_append.1 hd).2.1).2).1
    · rw [nest_append, ha]
      exact hc
    · rw [starts_append, starts_glyph]
      exact hd.sublist ((List.Sublist.refl _).append
        ((List.sublist_append_right _ _).cons_cons _))

/-- Nested cells whose children are new may take the place of a glyph, between markers. -/
theorem Nested.unfold {a b c : Cells} {g : Char} {id : NodeId} (o e : Char)
    (h : Nested (a ++ ⟨g, some (.glyph id)⟩ :: c)) (hb : Nested b)
    (hd : ∀ x ∈ starts b, x ≠ id ∧ x ∉ starts a ∧ x ∉ starts c) :
    Nested (a ++ ⟨o, some (.opening id)⟩ :: b ++ ⟨e, some (.closing id)⟩ :: c) := by
  obtain ⟨hn, hnd⟩ := h
  rw [nest_append, Option.bind_eq_some_iff] at hn
  obtain ⟨u, ha, hc⟩ := hn
  constructor
  · rw [List.append_assoc, nest_append, ha]
    simp only [Option.bind_some, List.cons_append, nest_opening]
    rw [nest_append, show Cells.nest (id :: u) b = some (id :: u) from nest_frame hb.nest (id :: u)]
    simpa using hc
  · have hp : (starts (a ++ ⟨g, some (.glyph id)⟩ :: c) ++ starts b).Perm
        (starts (a ++ ⟨o, some (.opening id)⟩ :: b ++ ⟨e, some (.closing id)⟩ :: c)) := by
      simp only [starts_append, starts_glyph, starts_opening, starts_closing, List.append_assoc,
        List.cons_append]
      exact (List.perm_append_comm.cons _).append_left _
    refine hp.nodup_iff.1 (List.nodup_append.2 ⟨hnd, hb.nodup, ?_⟩)
    rintro x hx y hy rfl
    obtain ⟨h1, h2, h3⟩ := hd x hy
    simp only [starts_append, starts_glyph, List.mem_append, List.mem_cons] at hx
    rcases hx with hx | hx | hx
    · exact h2 hx
    · exact h1 hx
    · exact h3 hx

/-- A stretch that is closed may become the region of a new child. -/
theorem Nested.enclose {a b c : Cells} {o e : Char} {id : NodeId}
    (h : Nested (a ++ ⟨o, none⟩ :: b ++ ⟨e, none⟩ :: c)) (hb : Closed b)
    (hid : id ∉ starts (a ++ ⟨o, none⟩ :: b ++ ⟨e, none⟩ :: c)) :
    Nested (a ++ ⟨o, some (.opening id)⟩ :: b ++ ⟨e, some (.closing id)⟩ :: c) := by
  have h1 : Nested ((a ++ [⟨o, none⟩]) ++ b ++ ⟨e, none⟩ :: c) := by simpa using h
  obtain ⟨hnb, hac⟩ := h1.collapse hb
  have h2 : Nested (a ++ ⟨o, none⟩ :: c) := by
    obtain ⟨hn, hd⟩ := hac
    exact ⟨by simpa [nest_append] using hn, by simpa using hd⟩
  simp only [starts_append, starts_none, List.append_assoc, List.cons_append, List.mem_append,
    not_or] at hid
  refine Nested.unfold o e (h2.mark (by simp [hid])) hnb fun x hx => ⟨?_, ?_, ?_⟩
  · rintro rfl
    exact hid.2.1 hx
  · intro hxa
    have hd := h1.nodup
    simp only [starts_append, List.append_assoc] at hd
    exact (List.nodup_append.1 hd).2.2 x hxa x (by simp [hx]) rfl
  · intro hxc
    have hd := h1.nodup
    simp only [starts_append, starts_none, List.append_assoc] at hd
    have hd := (List.nodup_append.1 (List.nodup_append.1 hd).2.1).2.1
    exact (List.nodup_append.1 hd).2.2 x hx x hxc rfl

end Cells

end GlyphTree
