import GlyphTree.Text.Search

/-!
# Pieces of a text

`Pieces o t ss` says that the spans `ss` cut pieces out of a text `t` that starts at byte `o`: one
after the other, without overlap and on character boundaries. A piece may be empty. The occurrences
of a text in another are pieces of it (`pieces_occurrences`).
-/

namespace GlyphTree

namespace Text

/-! ## Boundaries -/

theorem byteSize_pos {t : Text} (h : t ≠ []) : 0 < t.byteSize := by
  rcases Nat.eq_zero_or_pos t.byteSize with h0 | h0
  · exact absurd (byteSize_eq_zero h0) h
  · exact h0

/-- Of two beginnings of a text the one with fewer bytes is a beginning of the other. -/
theorem exists_of_append_eq {a b c d : Text} (h : a ++ b = c ++ d)
    (hs : a.byteSize ≤ c.byteSize) : ∃ m, c = a ++ m ∧ b = m ++ d := by
  rcases List.append_eq_append_iff.1 h with ⟨m, hc, hb⟩ | ⟨m, ha, hd⟩
  · exact ⟨m, hc, hb⟩
  · have hm : m = [] := by
      apply byteSize_eq_zero
      rw [ha, byteSize_append] at hs
      omega
    subst hm
    exact ⟨[], by simpa using ha.symm, by simpa using hd.symm⟩

theorem isBoundary_iff {t : Text} {n : Nat} :
    t.isBoundary n = true ↔ ∃ a b, t = a ++ b ∧ a.byteSize = n := by
  constructor
  · intro h
    exact ⟨takeBytes n t, dropBytes n t, (takeBytes_append_dropBytes n t).symm,
      by simpa [isBoundary] using h⟩
  · rintro ⟨a, b, rfl, rfl⟩
    simp [isBoundary, takeBytes_byteSize_append]

theorem slice?_append (a b c : Text) :
    (a ++ b ++ c).slice? ⟨a.byteSize, a.byteSize + b.byteSize⟩ = some b := by
  have h1 : (a ++ b ++ c).isBoundary a.byteSize = true :=
    isBoundary_iff.2 ⟨a, b ++ c, by simp, rfl⟩
  have h2 : (a ++ b ++ c).isBoundary (a.byteSize + b.byteSize) = true :=
    isBoundary_iff.2 ⟨a ++ b, c, rfl, by simp⟩
  unfold slice?
  rw [if_pos ⟨Nat.le_add_right _ _, h1, h2⟩, slice_middle]

/-- A span has a slice if and only if it cuts the text in three. -/
theorem slice?_eq_some_iff {t r : Text} {s : Span} :
    t.slice? s = some r ↔
      ∃ a c, t = a ++ r ++ c ∧ s = ⟨a.byteSize, a.byteSize + r.byteSize⟩ := by
  constructor
  · intro h
    unfold slice? at h
    split at h
    · rename_i hs
      obtain ⟨hle, h1, h2⟩ := hs
      obtain ⟨a, b, hab, ha⟩ := isBoundary_iff.1 h1
      obtain ⟨a', c, hac, ha'⟩ := isBoundary_iff.1 h2
      obtain ⟨m, rfl, -⟩ := exists_of_append_eq (hab.symm.trans hac) (by omega)
      rw [byteSize_append] at ha'
      obtain ⟨start, stop⟩ := s
      simp only at ha ha'
      subst ha ha' hac
      cases h
      refine ⟨a, c, ?_, ?_⟩ <;> rw [slice_middle]
    · cases h
  · rintro ⟨a, c, rfl, rfl⟩
    exact slice?_append a r c

/-- An offset on a boundary of a text that starts at byte `o`. -/
def Boundary (o : Nat) (t : Text) (n : Nat) : Prop :=
  ∃ a b, t = a ++ b ∧ n = o + a.byteSize

theorem Boundary.extend {o n : Nat} {t : Text} (h : t.Boundary o n) (u : Text) :
    (t ++ u).Boundary o n := by
  obtain ⟨a, b, rfl, rfl⟩ := h
  exact ⟨a, b ++ u, List.append_assoc a b u, rfl⟩

theorem boundary_end (o : Nat) (t : Text) : t.Boundary o (o + t.byteSize) :=
  ⟨t, [], (List.append_nil t).symm, rfl⟩

theorem Boundary.prepend {o n : Nat} {t : Text} (u : Text)
    (h : t.Boundary (o + u.byteSize) n) : (u ++ t).Boundary o n := by
  obtain ⟨a, b, rfl, rfl⟩ := h
  exact ⟨u ++ a, b, (List.append_assoc u a b).symm, by rw [byteSize_append, Nat.add_assoc]⟩

theorem Boundary.le {o n : Nat} {t : Text} (h : t.Boundary o n) : n ≤ o + t.byteSize := by
  obtain ⟨a, b, rfl, rfl⟩ := h
  rw [byteSize_append]
  omega

/-- A boundary behind the first part of a text is one of the rest. -/
theorem Boundary.rest {o n : Nat} {a b : Text} (h : (a ++ b).Boundary o n)
    (hn : o + a.byteSize ≤ n) : b.Boundary (o + a.byteSize) n := by
  obtain ⟨x, y, hxy, rfl⟩ := h
  obtain ⟨m, rfl, rfl⟩ := exists_of_append_eq hxy (by omega)
  exact ⟨m, y, rfl, by rw [byteSize_append, Nat.add_assoc]⟩

/-- A boundary before the second part of a text is one of the first part. -/
theorem Boundary.first {o n : Nat} {a b : Text} (h : (a ++ b).Boundary o n)
    (hn : n ≤ o + a.byteSize) : a.Boundary o n := by
  obtain ⟨x, y, hxy, rfl⟩ := h
  obtain ⟨m, rfl, rfl⟩ := exists_of_append_eq hxy.symm (by omega)
  exact ⟨x, m, rfl, rfl⟩

theorem isBoundary_iff_boundary {t : Text} {n : Nat} :
    t.isBoundary n = true ↔ t.Boundary 0 n := by
  rw [isBoundary_iff]
  constructor
  · rintro ⟨a, b, rfl, rfl⟩
    exact ⟨a, b, rfl, (Nat.zero_add _).symm⟩
  · rintro ⟨a, b, rfl, rfl⟩
    exact ⟨a, b, rfl, (Nat.zero_add _).symm⟩

theorem Boundary.shiftDown {o n : Nat} {t : Text} (h : t.Boundary o n) :
    t.Boundary 0 (n - o) := by
  obtain ⟨a, b, rfl, rfl⟩ := h
  exact ⟨a, b, rfl, by omega⟩

theorem Boundary.shiftUp {o n : Nat} {t : Text} (h : t.Boundary 0 n) : t.Boundary o (o + n) := by
  obtain ⟨a, b, rfl, rfl⟩ := h
  exact ⟨a, b, rfl, by omega⟩

/-- No boundary falls within a character. -/
theorem Boundary.beside {o n : Nat} {a b : Text} {c : Char} (h : (a ++ c :: b).Boundary o n) :
    n ≤ o + a.byteSize ∨ o + a.byteSize + c.utf8Size ≤ n := by
  rcases Nat.lt_or_ge (o + a.byteSize) n with hn | hn
  · obtain ⟨x, y, hxy, rfl⟩ := h.rest (Nat.le_of_lt hn)
    cases x with
    | nil => exact .inl (by simp)
    | cons d x =>
      obtain ⟨rfl, -⟩ := List.cons.inj hxy
      exact .inr (by rw [byteSize_cons]; omega)
  · exact .inl hn

/-- The span is in order and on boundaries of the text. -/
def Holds (t : Text) (s : Span) : Prop :=
  s.start ≤ s.stop ∧ t.Boundary 0 s.start ∧ t.Boundary 0 s.stop

/-- More text on both sides. -/
theorem Holds.within {t : Text} {s : Span} (h : t.Holds s) (u v : Text) :
    (u ++ t ++ v).Holds (s.shiftUp u.byteSize) := by
  have hshift : ∀ {n}, t.Boundary 0 n → (u ++ t ++ v).Boundary 0 (n + u.byteSize) := by
    intro n hn
    have := hn.shiftUp (o := 0 + u.byteSize)
    rw [show 0 + u.byteSize + n = n + u.byteSize by omega] at this
    exact (this.prepend u).extend v
  exact ⟨Nat.add_le_add_right h.1 _, hshift h.2.1, hshift h.2.2⟩

theorem isSome_slice?_iff {t : Text} {s : Span} : (t.slice? s).isSome = true ↔ t.Holds s := by
  rw [slice?, Holds, ← isBoundary_iff_boundary, ← isBoundary_iff_boundary]
  split
  · rename_i h
    exact iff_of_true rfl h
  · rename_i h
    exact iff_of_false Bool.false_ne_true h

end Text

/-! ## Pieces -/

/-- The spans cut pieces out of a text that starts at byte `o`, from left to right. -/
inductive Pieces : Nat → Text → List Span → Prop where
  | nil (o : Nat) (t : Text) : Pieces o t []
  | cons {o : Nat} (a b : Text) {t : Text} {ss : List Span} :
      Pieces (o + a.byteSize + b.byteSize) t ss →
      Pieces o (a ++ b ++ t) (⟨o + a.byteSize, o + a.byteSize + b.byteSize⟩ :: ss)

namespace Pieces

variable {o : Nat} {t : Text} {ss : List Span}

/-- More text in front. -/
theorem prepend (a : Text) (h : Pieces (o + a.byteSize) t ss) : Pieces o (a ++ t) ss := by
  cases h with
  | nil => exact .nil _ _
  | cons b c h =>
    rw [show o + a.byteSize + b.byteSize = o + (a ++ b).byteSize by
      rw [Text.byteSize_append]; omega] at h ⊢
    rw [List.append_assoc b, ← List.append_assoc a, ← List.append_assoc]
    exact .cons (a ++ b) c h

/-- The whole text is a piece. -/
theorem whole (o : Nat) (t : Text) : Pieces o t [⟨o, o + t.byteSize⟩] := by
  simpa using Pieces.cons (o := o) [] t (.nil _ [])

/-- A span that has a slice is a piece. -/
theorem of_slice? {r : Text} {s : Span} (h : t.slice? s = some r) : Pieces 0 t [s] := by
  obtain ⟨a, c, rfl, rfl⟩ := Text.slice?_eq_some_iff.1 h
  simpa using Pieces.cons (o := 0) a r (.nil _ c)

theorem of_sublist {ss' : List Span} (h : Pieces o t ss) (hs : ss'.Sublist ss) :
    Pieces o t ss' := by
  induction h generalizing ss' with
  | nil o t => rw [List.sublist_nil.1 hs]; exact .nil o t
  | cons a b h ih =>
    cases hs with
    | cons _ hs =>
      refine Pieces.prepend (a ++ b) ?_
      rw [Text.byteSize_append, ← Nat.add_assoc]
      exact ih hs
    | cons_cons _ hs => exact .cons a b (ih hs)

theorem le_start (h : Pieces o t ss) : ∀ s ∈ ss, o ≤ s.start := by
  induction h with
  | nil => intro s hs; cases hs
  | cons a b h ih =>
    intro s hs
    rcases List.mem_cons.1 hs with rfl | hs
    · exact Nat.le_add_right _ _
    · have := ih s hs
      omega

/-- Each of the pieces of a text is a span of it. -/
theorem holds (h : Pieces o t ss) :
    ∀ s ∈ ss, s.start ≤ s.stop ∧ t.Boundary o s.start ∧ t.Boundary o s.stop := by
  induction h with
  | nil => simp
  | @cons o a b t ss _ ih =>
    have hsize : o + a.byteSize + b.byteSize = o + Text.byteSize (a ++ b) := by
      rw [Text.byteSize_append, Nat.add_assoc]
    intro s hs
    rcases List.mem_cons.1 hs with rfl | hs
    · exact ⟨Nat.le_add_right .., ⟨a, b ++ t, by simp, rfl⟩, ⟨a ++ b, t, rfl, hsize⟩⟩
    · obtain ⟨hord, hstart, hstop⟩ := ih s hs
      rw [hsize] at hstart hstop
      exact ⟨hord, hstart.prepend _, hstop.prepend _⟩

/-- Pieces come one after the other. -/
theorem pairwise (h : Pieces o t ss) : ss.Pairwise fun r s => r.stop ≤ s.start := by
  induction h with
  | nil => exact .nil
  | cons a b h ih => exact List.pairwise_cons.2 ⟨h.le_start, ih⟩

/-- Spans of a text that come one after the other are pieces of it. -/
theorem of_pairwise (h : ∀ s ∈ ss, s.start ≤ s.stop ∧ t.Boundary o s.start ∧ t.Boundary o s.stop)
    (ho : ss.Pairwise fun r s => r.stop ≤ s.start) : Pieces o t ss := by
  induction ss generalizing o t with
  | nil => exact .nil o t
  | cons s ss ih =>
    obtain ⟨⟨hord, hstart, hstop⟩, hss⟩ := List.forall_mem_cons.1 h
    obtain ⟨hs, hrest⟩ := List.pairwise_cons.1 ho
    obtain ⟨start, stop⟩ := s
    obtain ⟨a, u, rfl, rfl⟩ := hstart
    obtain ⟨b, v, rfl, rfl⟩ := hstop.rest hord
    rw [← List.append_assoc]
    refine .cons a b (ih (fun s hm => ?_) hrest)
    obtain ⟨hord', hstart', hstop'⟩ := hss s hm
    have hle := hs s hm
    dsimp only at hle
    exact ⟨hord', (hstart'.rest (by omega)).rest hle, (hstop'.rest (by omega)).rest (by omega)⟩

/-- Where none of the pieces of a text reaches over an offset, those before it are pieces of the text
before it, and those behind it of the text behind it. -/
theorem part {a b : Text} {rs : List Span} (h : Pieces o (a ++ b) (ss ++ rs))
    (hs : ∀ s ∈ ss, s.stop ≤ o + a.byteSize) (hr : ∀ r ∈ rs, o + a.byteSize ≤ r.start) :
    Pieces o a ss ∧ Pieces (o + a.byteSize) b rs := by
  obtain ⟨hss, hrs, -⟩ := List.pairwise_append.1 h.pairwise
  obtain ⟨hholds, hholds'⟩ := List.forall_mem_append.1 h.holds
  constructor
  · refine .of_pairwise (fun s hm => ?_) hss
    obtain ⟨hord, hstart, hstop⟩ := hholds s hm
    have hle := hs s hm
    exact ⟨hord, hstart.first (by omega), hstop.first hle⟩
  · refine .of_pairwise (fun r hm => ?_) hrs
    obtain ⟨hord, hstart, hstop⟩ := hholds' r hm
    have hle := hr r hm
    exact ⟨hord, hstart.rest hle, hstop.rest (by omega)⟩

/-- The same pieces of a text that starts `n` bytes sooner. -/
theorem shiftDown {n : Nat} (h : Pieces (n + o) t ss) : Pieces o t (ss.map (·.shiftDown n)) := by
  generalize hn : n + o = m at h
  induction h generalizing o with
  | nil => exact .nil o _
  | cons a b h ih =>
    subst hn
    have hspan : Span.shiftDown ⟨n + o + a.byteSize, n + o + a.byteSize + b.byteSize⟩ n =
        ⟨o + a.byteSize, o + a.byteSize + b.byteSize⟩ := by
      simp only [Span.shiftDown, Span.mk.injEq]
      omega
    rw [List.map_cons, hspan]
    exact .cons a b (ih (by omega))

end Pieces

/-! ## Occurrences -/

namespace Text

/-- The occurrences found from an offset on cut the pattern out of the text, but for the `skip`
characters that belong to an occurrence before. -/
theorem pieces_occurrencesFrom {pat : Text} (hp : pat ≠ []) (base : Nat) :
    ∀ (skip o : Nat) (t : Text), Pieces (base + o + byteSize (t.take skip)) (t.drop skip)
      ((occurrencesFrom pat skip o t).map fun i => ⟨base + i, base + i + pat.byteSize⟩)
  | skip, o, [] => by simpa [occurrencesFrom] using Pieces.nil _ _
  | 0, o, c :: cs => by
    simp only [occurrencesFrom, ↓reduceIte, List.drop_zero]
    cases hd : dropPrefix? pat (c :: cs) with
    | none =>
      have h := pieces_occurrencesFrom hp base 0 (o + c.utf8Size) cs
      exact Pieces.prepend [c] (by simpa [Nat.add_assoc] using h)
    | some rest =>
      obtain ⟨p, ps, rfl⟩ := List.exists_cons_of_ne_nil hp
      have ht := dropPrefix?_eq_some_iff.1 hd
      rw [List.cons_append] at ht
      obtain ⟨rfl, rfl⟩ := List.cons.inj ht
      have h := pieces_occurrencesFrom hp base ps.length (o + c.utf8Size) (ps ++ rest)
      rw [List.take_left, List.drop_left] at h
      simp only [Option.isSome_some, ↓reduceIte, List.map_cons, List.length_cons,
        Nat.add_sub_cancel]
      refine Pieces.cons (o := base + o) [] (c :: ps) ?_
      simpa [Nat.add_assoc] using h
  | skip + 1, o, c :: cs => by
    have h := pieces_occurrencesFrom hp base skip (o + c.utf8Size) cs
    simpa [occurrencesFrom, Nat.add_assoc] using h

/-- The occurrences of a non-empty text are pieces of the text searched. -/
theorem pieces_occurrences {pat : Text} (hp : pat ≠ []) (o : Nat) (t : Text) :
    Pieces o t ((occurrences pat t).map fun i => ⟨o + i, o + i + pat.byteSize⟩) := by
  simpa [occurrences] using pieces_occurrencesFrom hp o 0 0 t

end Text

end GlyphTree
