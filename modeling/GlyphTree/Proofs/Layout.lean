import GlyphTree.Proofs.Moves
import GlyphTree.Proofs.Patches

/-!
# Layouts

`Layout t p cs` says that the node `p` of a tree is laid out as the cells `cs`: they have its text,
its children are the ones that start in them, and each child stands, with its span and its fold,
exactly where its marks are. A node has one layout at most (`Layout.unique`).
-/

namespace GlyphTree.Tree

open Cells

variable {t t' : Tree} {p : NodeId} {o : Nat} {cs ds : Cells}

/-- What a mark at offset `o` of the text of `p`, on a character of `w` bytes, says of the child. -/
def Stands (t : Tree) (p : NodeId) (o : Nat) (ch : Char) : CellMark → Prop
  | .glyph id =>
    (t.node id).place = some ⟨p, ⟨o, o + ch.utf8Size⟩⟩ ∧ (t.node id).fold = none
  | .opening id =>
    ∃ stop f, (t.node id).place = some ⟨p, ⟨o, stop⟩⟩ ∧ (t.node id).fold = some f ∧
      f.opening = ch
  | .closing id =>
    ∃ start f, (t.node id).place = some ⟨p, ⟨start, o + ch.utf8Size⟩⟩ ∧
      (t.node id).fold = some f ∧ f.closing = ch

/-- The children marked in cells stand where the marks are, if the cells start at offset `o` of the
text of `p`. -/
def Fits (t : Tree) (p : NodeId) : Nat → Cells → Prop
  | _, [] => True
  | o, c :: cs => (∀ m, c.mark = some m → t.Stands p o c.char m) ∧ t.Fits p (o + c.char.utf8Size) cs

/-- How a node is laid out. -/
structure Layout (t : Tree) (p : NodeId) (cs : Cells) : Prop where
  lt : p < t.size
  text : (t.node p).text = cs.text
  children : t.children p = starts cs
  fits : t.Fits p 0 cs
  nested : Nested cs
  irrefl : p ∉ starts cs

/-! ## Children in place -/

@[simp] theorem fits_nil : t.Fits p o [] := trivial

theorem fits_cons {c : Cell} :
    t.Fits p o (c :: cs) ↔
      (∀ m, c.mark = some m → t.Stands p o c.char m) ∧ t.Fits p (o + c.char.utf8Size) cs :=
  Iff.rfl

@[simp] theorem fits_none {ch : Char} :
    t.Fits p o (⟨ch, none⟩ :: cs) ↔ t.Fits p (o + ch.utf8Size) cs := by
  simp [fits_cons]

@[simp] theorem fits_some {ch : Char} {m : CellMark} :
    t.Fits p o (⟨ch, some m⟩ :: cs) ↔ t.Stands p o ch m ∧ t.Fits p (o + ch.utf8Size) cs := by
  simp [fits_cons]

theorem fits_append : t.Fits p o (cs ++ ds) ↔ t.Fits p o cs ∧ t.Fits p (o + cs.size) ds := by
  induction cs generalizing o with
  | nil => simp
  | cons c cs ih =>
    rw [List.cons_append, fits_cons, fits_cons, ih, size_cons, and_assoc, Nat.add_assoc]

@[simp] theorem fits_plain (u : Text) : t.Fits p o (plain u) := by
  induction u generalizing o with
  | nil => trivial
  | cons c u ih => exact fits_none.2 ih

/-- Only places and folds of the children matter. -/
theorem Fits.congr (h : t.Fits p o cs)
    (he : ∀ id ∈ ids cs, (t'.node id).place = (t.node id).place ∧
      (t'.node id).fold = (t.node id).fold) : t'.Fits p o cs := by
  induction cs generalizing o with
  | nil => trivial
  | cons c cs ih =>
    obtain ⟨ch, m⟩ := c
    cases m with
    | none => exact fits_none.2 (ih (fits_none.1 h) he)
    | some m =>
      obtain ⟨hm, h⟩ := fits_some.1 h
      obtain ⟨hp, hf⟩ := he m.id (by simp)
      refine fits_some.2 ⟨?_, ih h fun id hid => he id (by simp [hid])⟩
      cases m <;> simp only [CellMark.id] at hp hf <;> simpa only [Stands, hp, hf] using hm

/-- The children are where they are marked after starts and ends have moved with the cells, from
offset `o` of one text to offset `n` of another. -/
theorem Fits.move {q : NodeId} {n : Nat} (fs fe : Nat → Nat) (h : t.Fits p o cs)
    (hs : ∀ i, o ≤ i → i < o + cs.size → fs i = n + (i - o))
    (he : ∀ i, o < i → i ≤ o + cs.size → fe i = n + (i - o))
    (hid : ∀ id ∈ ids cs, ∀ s, (t.node id).place = some ⟨p, s⟩ →
      (t'.node id).place = some ⟨q, ⟨fs s.start, fe s.stop⟩⟩ ∧
      (t'.node id).fold = (t.node id).fold) : t'.Fits q n cs := by
  induction cs generalizing o n with
  | nil => trivial
  | cons c cs ih =>
    obtain ⟨ch, m⟩ := c
    have hw := ch.utf8Size_pos
    simp only [size_cons] at hs he
    have ih := fun h hid => ih (o := o + ch.utf8Size) (n := n + ch.utf8Size) h
      (fun i h1 h2 => by rw [hs i (by omega) (by omega)]; omega)
      (fun i h1 h2 => by rw [he i (by omega) (by omega)]; omega) hid
    cases m with
    | none => exact fits_none.2 (ih (fits_none.1 h) hid)
    | some m =>
      obtain ⟨hm, h⟩ := fits_some.1 h
      have hstart : fs o = n := by rw [hs o (by omega) (by omega)]; omega
      have hstop : fe (o + ch.utf8Size) = n + ch.utf8Size := by
        rw [he _ (by omega) (by omega)]; omega
      refine fits_some.2 ⟨?_, ih h fun id h1 => hid id (by simp [h1])⟩
      cases m with
      | glyph id =>
        obtain ⟨hp, hf⟩ := hm
        obtain ⟨hp', hf'⟩ := hid id (by simp [CellMark.id]) _ hp
        exact ⟨hp'.trans (by simp only [hstart, hstop]), hf'.trans hf⟩
      | opening id =>
        obtain ⟨stop, f, hp, hf, hc⟩ := hm
        obtain ⟨hp', hf'⟩ := hid id (by simp [CellMark.id]) _ hp
        exact ⟨fe stop, f, hp'.trans (by simp only [hstart]), hf'.trans hf, hc⟩
      | closing id =>
        obtain ⟨start, f, hp, hf, hc⟩ := hm
        obtain ⟨hp', hf'⟩ := hid id (by simp [CellMark.id]) _ hp
        exact ⟨fs start, f, hp'.trans (by simp only [hstop]), hf'.trans hf, hc⟩

/-- A marked child stands in `p`. -/
theorem Fits.parent (h : t.Fits p o cs) {id : NodeId} (hid : id ∈ ids cs) :
    (t.node id).parent = some p := by
  induction cs generalizing o with
  | nil => cases hid
  | cons c cs ih =>
    obtain ⟨ch, m⟩ := c
    cases m with
    | none => exact ih (fits_none.1 h) hid
    | some m =>
      obtain ⟨hm, h⟩ := fits_some.1 h
      rw [ids_some] at hid
      rcases List.mem_cons.1 hid with rfl | hid
      · cases m with
        | glyph id => simp [CellMark.id, Node.parent, hm.1]
        | opening id => obtain ⟨_, _, hp, _⟩ := hm; simp [CellMark.id, Node.parent, hp]
        | closing id => obtain ⟨_, _, hp, _⟩ := hm; simp [CellMark.id, Node.parent, hp]
      · exact ih h hid

/-- A child that starts in cells has its start there. -/
theorem Fits.startOf (h : t.Fits p o cs) {id : NodeId} (hid : id ∈ starts cs) :
    o ≤ t.startOf id ∧ t.startOf id < o + cs.size := by
  induction cs generalizing o with
  | nil => cases hid
  | cons c cs ih =>
    obtain ⟨ch, m⟩ := c
    have hw := ch.utf8Size_pos
    rw [size_cons]
    rcases m with _ | i | i | i
    · have := ih (fits_none.1 h) hid
      simp only at this ⊢
      omega
    · obtain ⟨hm, h⟩ := fits_some.1 h
      rcases List.mem_cons.1 hid with rfl | hid
      · simp [Tree.startOf, Node.span, hm.1]
        omega
      · have := ih h hid
        simp only at this ⊢
        omega
    · obtain ⟨⟨stop, f, hp, -, -⟩, h⟩ := fits_some.1 h
      rcases List.mem_cons.1 hid with rfl | hid
      · simp [Tree.startOf, Node.span, hp]
        omega
      · have := ih h hid
        simp only at this ⊢
        omega
    · have := ih (fits_some.1 h).2 hid
      simp only at this ⊢
      omega

/-- Children start in the order of their marks. -/
theorem Fits.startOf_pairwise (h : t.Fits p o cs) :
    (starts cs).Pairwise fun i k => t.startOf i < t.startOf k := by
  induction cs generalizing o with
  | nil => exact .nil
  | cons c cs ih =>
    have htail := (fits_cons.1 h).2
    rw [show c :: cs = [c] ++ cs from rfl] at h ⊢
    rw [starts_append]
    refine List.pairwise_append.2 ⟨?_, ih htail, fun i hi k hk => ?_⟩
    · obtain ⟨ch, m⟩ := c
      rcases m with _ | _ | _ | _ <;> simp
    · have h1 := (fits_append.1 h).1.startOf hi
      have h2 := htail.startOf hk
      simp only [size_cons, size_nil] at h1
      omega

/-- Where the span of a node ends. -/
def stopOf (t : Tree) (id : NodeId) : Nat := ((t.node id).span.map Span.stop).getD 0

/-- A child that is closed in cells has its end there. -/
theorem Fits.stopOf (h : t.Fits p o cs) {id : NodeId} (hid : id ∈ closings cs) :
    o < t.stopOf id ∧ t.stopOf id ≤ o + cs.size := by
  induction cs generalizing o with
  | nil => cases hid
  | cons c cs ih =>
    obtain ⟨ch, m⟩ := c
    have hw := ch.utf8Size_pos
    rw [size_cons]
    rcases m with _ | i | i | i
    · have := ih (fits_none.1 h) hid
      simp only at this ⊢
      omega
    · have := ih (fits_some.1 h).2 hid
      simp only at this ⊢
      omega
    · have := ih (fits_some.1 h).2 hid
      simp only at this ⊢
      omega
    · obtain ⟨⟨start, f, hp, -, -⟩, h⟩ := fits_some.1 h
      rcases List.mem_cons.1 hid with rfl | hid
      · simp [Tree.stopOf, Node.span, hp]
        omega
      · have := ih h hid
        simp only at this ⊢
        omega

theorem Fits.isUnfolded (h : t.Fits p o cs) {id : NodeId} (hid : id ∈ openings cs) :
    (t.node id).isUnfolded = true := by
  obtain ⟨a, ch, b, rfl⟩ := exists_of_mem_openings hid
  obtain ⟨⟨stop, f, -, hf, -⟩, -⟩ := fits_some.1 (fits_append.1 h).2
  simp [Node.isUnfolded, hf]

/-- Of the children that start in cells, those with markers are the unfolded ones. -/
theorem Fits.mem_openings (h : t.Fits p o cs) {id : NodeId} (hid : id ∈ starts cs) :
    id ∈ openings cs ↔ (t.node id).isUnfolded = true := by
  refine ⟨h.isUnfolded, fun hu => ?_⟩
  rcases exists_of_mem_starts hid with ⟨a, g, b, rfl⟩ | hid
  · obtain ⟨⟨-, hf⟩, -⟩ := fits_some.1 (fits_append.1 h).2
    simp [Node.isUnfolded, hf] at hu
  · exact hid

/-! ## Uniqueness -/

section
variable {c d : Cell}

/-- Of the children that start in cells, the first cell starts the one whose start is there. -/
theorem Fits.start?_iff (h : t.Fits p o (c :: cs)) {id : NodeId} (hid : id ∈ starts (c :: cs)) :
    c.mark.bind CellMark.start? = some id ↔ t.startOf id = o := by
  obtain ⟨ch, m⟩ := c
  have hw := ch.utf8Size_pos
  have htail : id ∈ starts cs → o + ch.utf8Size ≤ t.startOf id := fun h1 =>
    ((fits_cons.1 h).2.startOf h1).1
  rcases m with _ | i | i | i
  · have := htail hid
    simp
    omega
  · obtain ⟨⟨hp, -⟩, -⟩ := fits_some.1 h
    have hi : t.startOf i = o := by simp [Tree.startOf, Node.span, hp]
    simp only [Option.bind_some, CellMark.start?, Option.some.injEq]
    refine ⟨fun e => e ▸ hi, fun ho => ?_⟩
    rcases List.mem_cons.1 hid with rfl | h1
    · rfl
    · have := htail h1
      omega
  · obtain ⟨⟨stop, f, hp, -⟩, -⟩ := fits_some.1 h
    have hi : t.startOf i = o := by simp [Tree.startOf, Node.span, hp]
    simp only [Option.bind_some, CellMark.start?, Option.some.injEq]
    refine ⟨fun e => e ▸ hi, fun ho => ?_⟩
    rcases List.mem_cons.1 hid with rfl | h1
    · rfl
    · have := htail h1
      omega
  · have := htail hid
    simp [CellMark.start?]
    omega

/-- Of the children that are closed in cells, the first cell closes the one whose end is there. -/
theorem Fits.closing?_iff (h : t.Fits p o (c :: cs)) {id : NodeId}
    (hid : id ∈ closings (c :: cs)) :
    c.mark.bind CellMark.closing? = some id ↔ t.stopOf id = o + c.char.utf8Size := by
  obtain ⟨ch, m⟩ := c
  have htail : id ∈ closings cs → o + ch.utf8Size < t.stopOf id := fun h1 =>
    ((fits_cons.1 h).2.stopOf h1).1
  rcases m with _ | i | i | i
  · have := htail hid
    simp
    omega
  · have := htail hid
    simp [CellMark.closing?]
    omega
  · have := htail hid
    simp [CellMark.closing?]
    omega
  · obtain ⟨⟨start, f, hp, -⟩, -⟩ := fits_some.1 h
    have hi : t.stopOf i = o + ch.utf8Size := by simp [Tree.stopOf, Node.span, hp]
    simp only [Option.bind_some, CellMark.closing?, Option.some.injEq]
    refine ⟨fun e => e ▸ hi, fun ho => ?_⟩
    rcases List.mem_cons.1 hid with rfl | h1
    · rfl
    · have := htail h1
      omega

theorem Fits.isUnfolded_of_head (h : t.Fits p o (c :: cs)) {id : NodeId}
    (hm : c.mark.bind CellMark.start? = some id) :
    c.mark.bind CellMark.opening? = if (t.node id).isUnfolded then some id else none := by
  obtain ⟨ch, m⟩ := c
  rcases m with _ | i | i | i <;> cases hm
  · obtain ⟨⟨-, hf⟩, -⟩ := fits_some.1 h
    simp [CellMark.opening?, Node.isUnfolded, hf]
  · obtain ⟨⟨stop, f, -, hf, -⟩, -⟩ := fits_some.1 h
    simp [CellMark.opening?, Node.isUnfolded, hf]

/-- Where the same children are marked in two texts, the same mark comes first. -/
theorem Fits.head_unique (h : t.Fits p o (c :: cs)) (h' : t.Fits p o (d :: ds))
    (ht : c.char = d.char) (hs : ∀ id, id ∈ starts (c :: cs) ↔ id ∈ starts (d :: ds))
    (hc : ∀ id, id ∈ closings (c :: cs) ↔ id ∈ closings (d :: ds)) : c = d := by
  have hstart : c.mark.bind CellMark.start? = d.mark.bind CellMark.start? := by
    refine Option.ext fun id => ⟨fun hm => ?_, fun hm => ?_⟩
    · have hid : id ∈ starts (c :: cs) := by simp [starts_cons, hm]
      exact (h'.start?_iff ((hs id).1 hid)).2 ((h.start?_iff hid).1 hm)
    · have hid : id ∈ starts (d :: ds) := by simp [starts_cons, hm]
      exact (h.start?_iff ((hs id).2 hid)).2 ((h'.start?_iff hid).1 hm)
  have hclose : c.mark.bind CellMark.closing? = d.mark.bind CellMark.closing? := by
    refine Option.ext fun id => ⟨fun hm => ?_, fun hm => ?_⟩
    · have hid : id ∈ closings (c :: cs) := by simp [closings_cons, hm]
      exact (h'.closing?_iff ((hc id).1 hid)).2 (ht ▸ (h.closing?_iff hid).1 hm)
    · have hid : id ∈ closings (d :: ds) := by simp [closings_cons, hm]
      exact (h.closing?_iff ((hc id).2 hid)).2 (ht ▸ (h'.closing?_iff hid).1 hm)
  have hopen : ∀ id, c.mark.bind CellMark.start? = some id →
      c.mark.bind CellMark.opening? = d.mark.bind CellMark.opening? := fun id hm =>
    (h.isUnfolded_of_head hm).trans (h'.isUnfolded_of_head (hstart ▸ hm)).symm
  obtain ⟨ch, m⟩ := c
  obtain ⟨ch', m'⟩ := d
  obtain rfl := ht
  simp only [Cell.mk.injEq, true_and]
  rcases m with _ | i | i | i <;> rcases m' with _ | j | j | j <;>
    simp_all [CellMark.start?, CellMark.opening?, CellMark.closing?]

/-- The marks in a text are determined by the children that start and that are closed in it. -/
theorem Fits.unique (h : t.Fits p o cs) (h' : t.Fits p o ds) (ht : cs.text = ds.text)
    (hs : (starts cs).Perm (starts ds)) (hc : (closings cs).Perm (closings ds)) : cs = ds := by
  induction cs generalizing o ds with
  | nil => cases ds with
    | nil => rfl
    | cons => cases ht
  | cons c cs ih =>
    cases ds with
    | nil => cases ht
    | cons d ds =>
      obtain ⟨hch, htail⟩ := List.cons.inj ht
      obtain rfl := h.head_unique h' hch (fun _ => hs.mem_iff) (fun _ => hc.mem_iff)
      rw [starts_cons, starts_cons, List.perm_append_left_iff] at hs
      rw [closings_cons, closings_cons, List.perm_append_left_iff] at hc
      rw [ih (fits_cons.1 h).2 (fits_cons.1 h').2 htail hs hc]

end

/-- A node has one layout at most. -/
theorem Layout.unique (h : Layout t p cs) (h' : Layout t p ds) : cs = ds := by
  have hs : starts cs = starts ds := h.children.symm.trans h'.children
  refine h.fits.unique h'.fits (h.text.symm.trans h'.text) (.of_eq hs) ?_
  refine (List.perm_ext_iff_of_nodup h.nested.closings_nodup h'.nested.closings_nodup).2
    fun id => ?_
  rw [← closed_of_nest h.nested.nest, ← closed_of_nest h'.nested.nest]
  by_cases hid : id ∈ starts cs
  · rw [h.fits.mem_openings hid, h'.fits.mem_openings (hs ▸ hid)]
  · exact iff_of_false (fun h1 => hid ((openings_sublist cs).subset h1))
      (fun h1 => hid (hs ▸ (openings_sublist ds).subset h1))

/-! ## Spans of children -/

theorem span_eq_of_parent {id q : NodeId} (h : (t.node id).parent = some q) :
    (t.node id).span = some ⟨t.startOf id, t.stopOf id⟩ := by
  cases hpl : (t.node id).place with
  | none => simp [Node.parent, hpl] at h
  | some pl => simp [Node.span, startOf, stopOf, hpl]

theorem Layout.parent (h : Layout t p cs) {id : NodeId} (hid : id ∈ t.children p) :
    (t.node id).parent = some p :=
  h.fits.parent (h.nested.mem_ids.2 (h.children ▸ hid))

theorem Layout.lt_size (h : Layout t p cs) {id : NodeId} (hid : id ∈ t.children p) :
    id < t.size := lt_size_of_parent (h.parent hid)

/-- The part of a child that starts in nested cells ends in them, further on. -/
theorem Fits.region (h : t.Fits p o cs) (hn : Nested cs) {id : NodeId} (hid : id ∈ starts cs) :
    o ≤ t.startOf id ∧ t.startOf id < t.stopOf id ∧ t.stopOf id ≤ o + cs.size := by
  refine ⟨(h.startOf hid).1, ?_⟩
  rcases exists_of_mem_starts hid with ⟨a, g, b, rfl⟩ | hid
  · obtain ⟨⟨hp, -⟩, -⟩ := fits_some.1 (fits_append.1 h).2
    have hw := g.utf8Size_pos
    simp [Tree.startOf, Tree.stopOf, Node.span, hp]
    omega
  · refine ⟨?_, (h.stopOf ((closed_of_nest hn.nest id).1 hid)).2⟩
    obtain ⟨a, ch, b, e, c, rfl⟩ := hn.exists_region hid
    obtain ⟨hab, hec⟩ := fits_append.1 h
    obtain ⟨-, hob⟩ := fits_append.1 hab
    obtain ⟨⟨stop, f, hp, -⟩, -⟩ := fits_some.1 hob
    obtain ⟨⟨start, f', hp', -⟩, -⟩ := fits_some.1 hec
    have hw := ch.utf8Size_pos
    have hw' := e.utf8Size_pos
    rw [hp] at hp'
    simp only [Option.some.injEq, Place.mk.injEq, Span.mk.injEq, true_and] at hp'
    simp only [Tree.startOf, Tree.stopOf, Node.span, hp, Option.map_some, Option.getD_some]
    simp only [size_append] at hp'
    omega

/-- A cut-out of the text of a node encloses the children that start in it, and no others, if it
holds both markers of an unfolded child or none. -/
theorem Layout.encloses_iff {a s c : Cells} (h : Layout t p (a ++ s ++ c)) (hs : Closed s)
    {id : NodeId} (hid : id ∈ t.children p) :
    Span.encloses ⟨a.size, a.size + s.size⟩ ((t.node id).span.getD ⟨0, 0⟩) = true ↔
      id ∈ starts s := by
  obtain ⟨hfit, hfc⟩ := fits_append.1 h.fits
  obtain ⟨hfa, hfs⟩ := fits_append.1 hfit
  have hreg := h.fits.region h.nested (h.children ▸ hid)
  rw [span_eq_of_parent (h.parent hid), Option.getD_some]
  simp only [Span.encloses, Span.isEmpty, Bool.and_eq_true, Bool.not_eq_true',
    decide_eq_false_iff_not, decide_eq_true_eq]
  have hmem := h.children ▸ hid
  simp only [starts_append, List.mem_append] at hmem
  constructor
  · rintro ⟨⟨-, h1⟩, h2⟩
    rcases hmem with (hm | hm) | hm
    · have := hfa.startOf hm
      omega
    · exact hm
    · have := hfc.startOf hm
      simp only [size_append] at this
      omega
  · intro hm
    have := hfs.region (h.nested.collapse hs).1 hm
    omega

end GlyphTree.Tree
