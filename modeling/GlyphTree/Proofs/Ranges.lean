import GlyphTree.Proofs.Checked.Texts
import Mathlib.Order.Monotone.Defs

/-!
# Ranges under edits

One loop applies edits to a text, and two more carry starts and ends of ranges over, which differ on
insertions: a start goes behind them, an end stays before them. The three agree
(`EditsOf.carries_ranges`). Where no edit reaches out of a range, the edited text has in its place
what the edits inside of it make of what it covered; where an edit takes a byte of a range out, the
whole replacement is covered. No offset falls below zero or behind the text, and none overtakes
another.
-/

namespace GlyphTree

variable {o n i j : Nat} {t a b : Text} {e : Edit} {es pre mid post : List Edit} {r s : Span}
  {shift : Int}

/-! ## Edits and ranges -/

/-- The spans have a byte in common. -/
def Span.Meets (r s : Span) : Prop := ∃ i, (r.start ≤ i ∧ i < r.stop) ∧ s.start ≤ i ∧ i < s.stop

namespace Edit

/-- The edit is before or behind a range. An insertion at one of its ends is. -/
def Outside (e : Edit) (r : Span) : Prop := e.range.stop ≤ r.start ∨ r.stop ≤ e.range.start

/-- The edit is in a range, and not outside. -/
def Inside (e : Edit) (r : Span) : Prop :=
  r.start ≤ e.range.start ∧ e.range.stop ≤ r.stop ∧ ¬ e.Outside r

instance (e : Edit) (r : Span) : Decidable (e.Outside r) := inferInstanceAs (Decidable (_ ∨ _))
instance (e : Edit) (r : Span) : Decidable (e.Inside r) := inferInstanceAs (Decidable (_ ∧ _ ∧ _))

theorem inside_iff : e.Inside r ↔ (r.start ≤ e.range.start ∧ e.range.start < r.stop) ∧
    r.start < e.range.stop ∧ e.range.stop ≤ r.stop := by
  simp only [Inside, Outside]
  omega

/-- The edit of a text that starts `n` bytes later. -/
def shiftDown (e : Edit) (n : Nat) : Edit := { e with range := e.range.shiftDown n }

theorem delta_shiftDown (h : n ≤ e.range.start) : (e.shiftDown n).delta = e.delta := by
  simp only [delta, shiftDown, Span.size, Span.shiftDown]
  omega

end Edit

/-- The edits lie in a text, on its boundaries, and come one after the other without overlap. -/
structure EditsOf (t : Text) (es : List Edit) : Prop where
  holds : ∀ e ∈ es, t.Holds e.range
  ordered : es.Pairwise fun d e => d.range.stop ≤ e.range.start

/-- The edits inside of a range, as edits of what it covers. -/
def editsInside (es : List Edit) (r : Span) : List Edit :=
  (es.filter (·.Inside r)).map (·.shiftDown r.start)

/-- Where the replacement of an edit comes to stand, given the edits before it: behind what these
make of the text before it. -/
def landing (t : Text) (before : List Edit) (e : Edit) : Span :=
  let start := (applyEdits (t.takeBytes e.range.start) before).byteSize
  ⟨start, start + e.replacement.byteSize⟩

/-- By how many bytes edits move what is behind them. -/
def netDelta (es : List Edit) : Int := (es.map Edit.delta).sum

theorem netDelta_append (pre post : List Edit) :
    netDelta (pre ++ post) = netDelta pre + netDelta post := by
  simp [netDelta]

theorem netDelta_shiftDown (h : ∀ e ∈ es, n ≤ e.range.start) :
    netDelta (es.map (·.shiftDown n)) = netDelta es := by
  rw [netDelta, List.map_map]
  exact congrArg List.sum (List.map_congr_left fun e he => Edit.delta_shiftDown (h e he))

theorem editsOf_iff : EditsOf t es ↔ Pieces 0 t (es.map Edit.range) :=
  ⟨fun h => .of_pairwise (List.forall_mem_map.2 h.holds) (List.pairwise_map.2 h.ordered),
    fun h => ⟨List.forall_mem_map.1 h.holds, List.pairwise_map.1 h.pairwise⟩⟩

/-- A range of a text cuts it in three. -/
theorem Text.Holds.exists_append (h : t.Holds r) :
    ∃ a c, t = a ++ (t.slice r ++ c) ∧ r = ⟨a.byteSize, a.byteSize + (t.slice r).byteSize⟩ := by
  obtain ⟨a, c, ht, hr⟩ := Text.slice?_eq_some_iff.1 h.slice?_eq
  exact ⟨a, c, by rw [← List.append_assoc]; exact ht, hr⟩

/-! ## Edited texts -/

theorem byteSize_applyEditsFrom (h : Pieces o t (es.map Edit.range)) :
    ((applyEditsFrom o t es).byteSize : Int) = t.byteSize + netDelta es := by
  induction es generalizing o t with
  | nil => simp [applyEditsFrom, netDelta]
  | cons e es ih =>
    obtain ⟨range, new⟩ := e
    simp only [List.map_cons] at h
    cases h with
    | cons a b h =>
      have hrest := ih h
      simp only [netDelta] at hrest
      simp only [applyEditsFrom_cons, Text.byteSize_append, netDelta, List.map_cons, List.sum_cons,
        Edit.delta, Span.size]
      omega

theorem EditsOf.byteSize_eq (h : EditsOf t es) :
    ((applyEdits t es).byteSize : Int) = t.byteSize + netDelta es :=
  byteSize_applyEditsFrom (editsOf_iff.1 h)

/-- Text before the first edit stays. -/
theorem applyEditsFrom_prepend (a : Text) (h : Pieces (o + a.byteSize) t (es.map Edit.range)) :
    applyEditsFrom o (a ++ t) es = a ++ applyEditsFrom (o + a.byteSize) t es := by
  cases es with
  | nil => rfl
  | cons e es =>
    obtain ⟨range, new⟩ := e
    simp only [List.map_cons] at h
    cases h with
    | @cons _ x y u _ h =>
      have hjoin := applyEditsFrom_cons o (a ++ x) y new u es
      rw [Text.byteSize_append, ← Nat.add_assoc] at hjoin
      rw [applyEditsFrom_cons, ← List.append_assoc, ← List.append_assoc, hjoin]
      simp

theorem applyEditsFrom_append (ha : Pieces o a (pre.map Edit.range))
    (hb : Pieces (o + a.byteSize) b (post.map Edit.range)) :
    applyEditsFrom o (a ++ b) (pre ++ post) =
      applyEditsFrom o a pre ++ applyEditsFrom (o + a.byteSize) b post := by
  induction pre generalizing o a with
  | nil => exact applyEditsFrom_prepend a hb
  | cons e pre ih =>
    obtain ⟨range, new⟩ := e
    simp only [List.map_cons] at ha
    cases ha with
    | @cons _ x y u _ ha =>
      have hsize : o + (x ++ y ++ u).byteSize = o + x.byteSize + y.byteSize + u.byteSize := by
        simp only [Text.byteSize_append]
        omega
      rw [hsize] at hb ⊢
      rw [List.append_assoc (x ++ y), List.cons_append, applyEditsFrom_cons, applyEditsFrom_cons,
        ih ha hb, List.append_assoc (x ++ new)]

theorem applyEditsFrom_shiftDown (h : Pieces (n + o) t (es.map Edit.range)) :
    applyEditsFrom o t (es.map (·.shiftDown n)) = applyEditsFrom (n + o) t es := by
  induction es generalizing o t with
  | nil => rfl
  | cons e es ih =>
    obtain ⟨range, new⟩ := e
    simp only [List.map_cons] at h
    cases h with
    | cons a b h =>
      have hrest := ih (o := o + a.byteSize + b.byteSize) (by simpa only [Nat.add_assoc] using h)
      have hrange : Span.shiftDown ⟨n + o + a.byteSize, n + o + a.byteSize + b.byteSize⟩ n =
          ⟨o + a.byteSize, o + a.byteSize + b.byteSize⟩ := by
        simp only [Span.shiftDown, Span.mk.injEq]
        omega
      rw [List.map_cons, Edit.shiftDown, hrange, applyEditsFrom_cons, applyEditsFrom_cons, hrest]
      simp only [Nat.add_assoc]

/-- Where no edit reaches over an offset, a text is edited before it and behind it on its own. -/
theorem EditsOf.part (h : EditsOf (a ++ b) (pre ++ post))
    (hpre : ∀ e ∈ pre, e.range.stop ≤ a.byteSize)
    (hpost : ∀ e ∈ post, a.byteSize ≤ e.range.start) :
    EditsOf a pre ∧ EditsOf b (post.map (·.shiftDown a.byteSize)) ∧
      applyEdits (a ++ b) (pre ++ post) =
        applyEdits a pre ++ applyEdits b (post.map (·.shiftDown a.byteSize)) := by
  have hp := editsOf_iff.1 h
  rw [List.map_append] at hp
  obtain ⟨ha, hb⟩ := hp.part (by simpa using hpre) (by simpa using hpost)
  rw [Nat.add_comm] at hb
  refine ⟨editsOf_iff.2 ha, editsOf_iff.2 ?_, ?_⟩
  · simpa only [List.map_map, Function.comp_def, Edit.shiftDown] using hb.shiftDown
  · rw [applyEdits, applyEdits, applyEdits, applyEditsFrom_shiftDown hb, Nat.add_comm]
    exact applyEditsFrom_append ha (by rwa [Nat.add_comm])

/-! ## Offsets -/

/-- An offset moves with the edits before it. -/
theorem remapStartFrom_append (h : ∀ e ∈ pre, e.range.stop ≤ i) :
    remapStartFrom i shift (pre ++ post) = remapStartFrom i (shift + netDelta pre) post := by
  induction pre generalizing shift with
  | nil => simp [netDelta]
  | cons e pre ih =>
    obtain ⟨he, h⟩ := List.forall_mem_cons.1 h
    rw [List.cons_append, remapStartFrom, if_pos he, ih h]
    simp [netDelta, Int.add_assoc]

/-- Edits behind an offset do not move it. -/
theorem remapStartFrom_before (h : ∀ e ∈ es, i ≤ e.range.start ∧ i < e.range.stop) :
    remapStartFrom i shift es = shifted i shift := by
  cases es with
  | nil => rfl
  | cons e es =>
    obtain ⟨hstart, hstop⟩ := h e List.mem_cons_self
    rw [remapStartFrom, if_neg (Nat.not_le.2 hstop), if_neg (Nat.not_lt.2 hstart)]

theorem remapEndFrom_append (h : ∀ e ∈ pre, e.range.start < i ∧ e.range.stop ≤ i) :
    remapEndFrom i shift (pre ++ post) = remapEndFrom i (shift + netDelta pre) post := by
  induction pre generalizing shift with
  | nil => simp [netDelta]
  | cons e pre ih =>
    obtain ⟨he, h⟩ := List.forall_mem_cons.1 h
    rw [List.cons_append, remapEndFrom, if_pos (by omega), ih h]
    simp [netDelta, Int.add_assoc]

theorem remapEndFrom_before (h : ∀ e ∈ es, i ≤ e.range.start ∧ e.range.start ≤ e.range.stop) :
    remapEndFrom i shift es = shifted i shift := by
  cases es with
  | nil => rfl
  | cons e es =>
    obtain ⟨hstart, hord⟩ := h e List.mem_cons_self
    rw [remapEndFrom, if_neg (by omega), if_neg (Nat.not_lt.2 hstart)]

section
variable (h : Pieces o t (es.map Edit.range))
include h

/-- A start never falls behind the place to which the text before it has moved. -/
theorem shifted_le_remapStartFrom (hi : o ≤ i) (shift : Int) :
    shifted o shift ≤ remapStartFrom i shift es := by
  induction es generalizing o t shift with
  | nil =>
    simp only [remapStartFrom, shifted]
    omega
  | cons e es ih =>
    obtain ⟨hle, hord, u, hrest⟩ := h.head
    rw [remapStartFrom]
    split
    · next hstop =>
      refine Nat.le_trans ?_ (ih hrest hstop _)
      simp only [shifted, Edit.delta, Span.size]
      omega
    · split <;> simp only [shifted] <;> omega

theorem shifted_le_remapEndFrom (hi : o ≤ i) (shift : Int) :
    shifted o shift ≤ remapEndFrom i shift es := by
  rw [← Cells.text_plain t] at h
  obtain ⟨ps, z, -, rfl, -⟩ := Patch.exists_edits_eq h
  exact Patch.shifted_le_remapEndFrom ps hi shift

theorem remapStartFrom_mono (hij : i ≤ j) (shift : Int) :
    remapStartFrom i shift es ≤ remapStartFrom j shift es := by
  induction es generalizing o t shift with
  | nil =>
    simp only [remapStartFrom, shifted]
    omega
  | cons e es ih =>
    obtain ⟨hle, hord, u, hrest⟩ := h.head
    rw [remapStartFrom, remapStartFrom]
    by_cases hi : e.range.stop ≤ i
    · rw [if_pos hi, if_pos (hi.trans hij)]
      exact ih hrest _
    · rw [if_neg hi]
      by_cases hj : e.range.stop ≤ j
      · -- the offset in front stays before the replacement, and the one behind gets past it
        rw [if_pos hj]
        refine Nat.le_trans ?_ (shifted_le_remapStartFrom hrest hj _)
        split <;> simp only [shifted, Edit.delta, Span.size] <;> omega
      · rw [if_neg hj]
        split <;> split <;> simp only [shifted] <;> omega

theorem remapEndFrom_mono (hij : i ≤ j) (hs : 0 ≤ (o : Int) + shift) :
    remapEndFrom i shift es ≤ remapEndFrom j shift es := by
  induction es generalizing o t shift with
  | nil =>
    simp only [remapEndFrom, shifted]
    omega
  | cons e es ih =>
    obtain ⟨hle, hord, u, hrest⟩ := h.head
    rw [remapEndFrom, remapEndFrom]
    by_cases hi : e.range.stop < i ∨ e.range.stop = i ∧ e.range.start < i
    · rw [if_pos hi, if_pos (by omega)]
      exact ih hrest (Edit.shift_nonneg hle hord hs)
    · rw [if_neg hi]
      by_cases hj : e.range.stop < j ∨ e.range.stop = j ∧ e.range.start < j
      · rw [if_pos hj]
        refine Nat.le_trans ?_ (shifted_le_remapEndFrom hrest (by omega) _)
        split <;> simp only [shifted, Edit.delta, Span.size] <;> omega
      · rw [if_neg hj]
        split <;> split <;> simp only [shifted] <;> omega

/-- Where no edit takes out the bytes on both sides of an offset, an end there stays before a start
there: only insertions come between them. -/
theorem remapEndFrom_le_remapStartFrom (hi : ∀ e ∈ es, i ≤ e.range.start ∨ e.range.stop ≤ i)
    (shift : Int) : remapEndFrom i shift es ≤ remapStartFrom i shift es := by
  induction es generalizing o t shift with
  | nil => exact Nat.le_refl _
  | cons e es ih =>
    obtain ⟨hle, hord, u, hrest⟩ := h.head
    obtain ⟨he, hes⟩ := List.forall_mem_cons.1 hi
    rw [remapEndFrom, remapStartFrom]
    by_cases hstop : e.range.stop ≤ i
    · rw [if_pos hstop]
      split
      · exact ih hrest hes _
      · -- an insertion at the offset itself
        rw [if_neg (by omega)]
        refine Nat.le_trans ?_ (shifted_le_remapStartFrom hrest hstop _)
        simp only [shifted, Edit.delta, Span.size]
        omega
    · rw [if_neg hstop, if_neg (by omega), if_neg (by omega)]
      split <;> simp only [shifted] <;> omega

end

/-! ## Replacements -/

section
variable (h : EditsOf t (pre ++ e :: post))
include h

theorem EditsOf.around : (∀ d ∈ pre, d.range.stop ≤ e.range.start) ∧
    ∀ d ∈ post, e.range.stop ≤ d.range.start := by
  obtain ⟨-, hrest, hcross⟩ := List.pairwise_append.1 h.ordered
  exact ⟨fun d hd => hcross d hd e List.mem_cons_self, (List.pairwise_cons.1 hrest).1⟩

/-- The replacement of an edit is in the edited text where it lands, and the edits before have moved
it there. -/
theorem EditsOf.slice?_landing :
    (applyEdits t (pre ++ e :: post)).slice? (landing t pre e) = some e.replacement ∧
      ((landing t pre e).start : Int) = e.range.start + netDelta pre := by
  obtain ⟨hpre, hpost⟩ := h.around
  have he := h.holds e (by simp)
  obtain ⟨a, c, ht, hr⟩ := he.exists_append
  generalize t.slice e.range = b at ht hr
  subst ht
  obtain ⟨range, new⟩ := e
  obtain rfl : range = _ := hr
  obtain ⟨ha, -, happly⟩ := h.part hpre
    (List.forall_mem_cons.2 ⟨Nat.le_refl _, fun d hd => he.1.trans (hpost d hd)⟩)
  have hhead := applyEditsFrom_cons 0 [] b new c (post.map (·.shiftDown a.byteSize))
  have hzero : (⟨a.byteSize, a.byteSize + b.byteSize⟩ : Span).shiftDown a.byteSize =
      ⟨0, b.byteSize⟩ := by simp [Span.shiftDown]
  rw [landing, Text.takeBytes_byteSize_append]
  refine ⟨?_, ha.byteSize_eq⟩
  rw [happly, List.map_cons, Edit.shiftDown, hzero]
  simp only [Text.byteSize_nil, Nat.zero_add, List.nil_append] at hhead
  rw [applyEdits, applyEdits, hhead, ← List.append_assoc]
  exact Text.slice?_append ..

/-- What comes of a range covers the whole replacement of an edit that takes a byte of it out. -/
theorem EditsOf.covers (hr : r.Meets e.range) :
    (remapSpan r (pre ++ e :: post)).start ≤ (landing t pre e).start ∧
      (landing t pre e).stop ≤ (remapSpan r (pre ++ e :: post)).stop := by
  obtain ⟨k, ⟨hr₁, hr₂⟩, he₁, he₂⟩ := hr
  have hp := editsOf_iff.1 h
  obtain ⟨hpre, hpost⟩ := h.around
  obtain ⟨-, hland⟩ := h.slice?_landing
  have hord : ∀ d ∈ pre ++ e :: post, d.range.start ≤ d.range.stop := fun d hd => (h.holds d hd).1
  constructor
  · -- the range starts no later than the last byte of the edit, whose start is the replacement's
    refine Nat.le_trans (remapStartFrom_mono hp (j := e.range.stop - 1) (by omega) 0) ?_
    rw [remapStartFrom_append fun d hd => (hpre d hd).trans (by omega), remapStartFrom,
      if_neg (by omega)]
    split <;> simp only [shifted] <;> omega
  · -- and ends no sooner than the first byte of it, whose end is the replacement's
    have hstop : (landing t pre e).stop = (landing t pre e).start + e.replacement.byteSize := rfl
    refine Nat.le_trans ?_ (Nat.le_max_left ..)
    refine Nat.le_trans ?_ (remapEndFrom_mono hp (i := e.range.start + 1) (by omega) (by simp))
    rw [remapEndFrom_append fun d hd => by
      have := hpre d hd
      have := hord d (by simp [hd])
      omega]
    rw [remapEndFrom]
    split
    · have hbehind : ∀ d ∈ post, e.range.start + 1 ≤ d.range.start ∧ d.range.start ≤ d.range.stop :=
        fun d hd => ⟨Nat.le_trans (by omega) (hpost d hd), hord d (by simp [hd])⟩
      rw [remapEndFrom_before hbehind]
      simp only [shifted, Edit.delta, Span.size]
      omega
    · rw [if_pos (Nat.lt_succ_self _)]
      simp only [shifted]
      omega

end

/-! ## Ranges -/

theorem Text.Holds.slice?_of_empty (h : t.Holds r) (he : r.start = r.stop) :
    t.slice? r = some [] := by
  rw [h.slice?_eq, Text.slice, Span.size, he, Nat.sub_self, Text.takeBytes_zero]

theorem editsInside_of_empty (he : r.start = r.stop) : editsInside es r = [] := by
  rw [editsInside, List.map_eq_nil_iff, List.filter_eq_nil_iff]
  rintro e - hin
  obtain ⟨hstart, hstop, hout⟩ := of_decide_eq_true hin
  exact hout (.inl (he ▸ hstop))

/-- Edits before a range, in it and behind it. -/
structure PartedBy (r : Span) (pre mid post : List Edit) : Prop where
  before : ∀ e ∈ pre, e.range.stop ≤ r.start
  inside : ∀ e ∈ mid, e.Inside r
  behind : ∀ e ∈ post, r.stop ≤ e.range.start

theorem PartedBy.editsInside (h : PartedBy r pre mid post) :
    editsInside (pre ++ (mid ++ post)) r = mid.map (·.shiftDown r.start) := by
  have hout : ∀ {es : List Edit}, (∀ e ∈ es, e.Outside r) → es.filter (·.Inside r) = [] :=
    fun h => List.filter_eq_nil_iff.2 fun e he => by simp [Edit.Inside, h e he]
  rw [GlyphTree.editsInside, List.filter_append, List.filter_append,
    hout fun e he => .inl (h.before e he), hout fun e he => .inr (h.behind e he),
    List.filter_eq_self.2 (by simpa using h.inside), List.nil_append, List.append_nil]

/-- Sorted edits that do not reach out of a range are parted by it. -/
theorem EditsOf.exists_partedBy (h : EditsOf t es) (hes : ∀ e ∈ es, e.Inside r ∨ e.Outside r)
    (hr : r.start < r.stop) :
    ∃ pre mid post, es = pre ++ (mid ++ post) ∧ PartedBy r pre mid post := by
  have hord : ∀ e ∈ es, e.range.start ≤ e.range.stop := fun e he => (h.holds e he).1
  have hstops : es.Pairwise fun d e => d.range.stop ≤ e.range.stop :=
    h.ordered.imp_of_mem fun _ he hde => hde.trans (hord _ he)
  have hstarts : es.Pairwise fun d e => d.range.start ≤ e.range.start :=
    h.ordered.imp_of_mem fun hd _ hde => (hord _ hd).trans hde
  obtain ⟨pre, rest, rfl, hpre, hrest⟩ := exists_parts hstops r.start
  obtain ⟨mid, post, rfl, hmid, hpost⟩ :=
    exists_parts (List.pairwise_append.1 hstarts).2.1 (r.stop - 1)
  refine ⟨pre, mid, post, rfl, hpre, fun e he => ?_, fun e he => ?_⟩
  · have hstop := hrest e (by simp [he])
    have hstart := hmid e he
    refine (hes e (by simp [he])).resolve_right ?_
    simp only [Edit.Outside]
    omega
  · have := hpost e he
    omega

/-- The edits before a range move all of it, those in it only its end. -/
theorem EditsOf.remapSpan_partedBy (h : EditsOf t (pre ++ (mid ++ post)))
    (hp : PartedBy r pre mid post) (hr : r.start < r.stop) :
    remapStart r.start (pre ++ (mid ++ post)) = shifted r.start (netDelta pre) ∧
      remapEnd r.stop (pre ++ (mid ++ post)) = shifted r.stop (netDelta pre + netDelta mid) := by
  have hord : ∀ e ∈ pre ++ (mid ++ post), e.range.start ≤ e.range.stop :=
    fun e he => (h.holds e he).1
  simp only [List.forall_mem_append] at hord
  obtain ⟨hpre, -, hpost⟩ := hord
  have hmid := fun e he => Edit.inside_iff.1 (hp.inside e he)
  constructor
  · rw [remapStart, remapStartFrom_append hp.before, remapStartFrom_before, Int.zero_add]
    refine List.forall_mem_append.2 ⟨fun e he => ⟨(hmid e he).1.1, (hmid e he).2.1⟩, fun e he => ?_⟩
    have := hp.behind e he
    have := hpost e he
    omega
  · rw [remapEnd, ← List.append_assoc, remapEndFrom_append, remapEndFrom_before, Int.zero_add,
      netDelta_append]
    · exact fun e he => ⟨hp.behind e he, hpost e he⟩
    · refine List.forall_mem_append.2
        ⟨fun e he => ?_, fun e he => ⟨(hmid e he).1.2, (hmid e he).2.2⟩⟩
      have := hp.before e he
      have := hpre e he
      omega

/-- An empty range stays empty, if no edit reaches over it. -/
theorem EditsOf.slice?_remapSpan_of_empty (h : EditsOf t es) (hr : t.Holds r)
    (hes : ∀ e ∈ es, e.Inside r ∨ e.Outside r) (he : r.start = r.stop) :
    (applyEdits t es).slice? (remapSpan r es) = some [] := by
  have hp := editsOf_iff.1 h
  refine (Patch.holds_applyEdits hp hr).slice?_of_empty (Nat.max_eq_right ?_).symm
  rw [← he]
  refine remapEndFrom_le_remapStartFrom hp (fun e hmem => ?_) 0
  rcases hes e hmem with hin | hout
  · exact .inl hin.1
  · exact hout.symm.imp_left (he ▸ ·)

/-- Carrying a range over and editing what it covers commute. -/
theorem EditsOf.slice?_remapSpan (h : EditsOf t es) (hr : t.Holds r)
    (hes : ∀ e ∈ es, e.Inside r ∨ e.Outside r) :
    EditsOf (t.slice r) (editsInside es r) ∧
      (applyEdits t es).slice? (remapSpan r es) =
        some (applyEdits (t.slice r) (editsInside es r)) := by
  rcases Nat.eq_or_lt_of_le hr.1 with he | hlt
  · -- no edit is in an empty range
    rw [editsInside_of_empty he, Option.some.inj (hr.slice?_eq.symm.trans (hr.slice?_of_empty he))]
    exact ⟨⟨by simp, .nil⟩, h.slice?_remapSpan_of_empty hr hes he⟩
  · obtain ⟨pre, mid, post, rfl, hp⟩ := h.exists_partedBy hes hlt
    rw [hp.editsInside]
    obtain ⟨hstart, hstop⟩ := h.remapSpan_partedBy hp hlt
    have hmid := fun e he => Edit.inside_iff.1 (hp.inside e he)
    obtain ⟨a, c, ht, hends⟩ := hr.exists_append
    generalize t.slice r = b at ht hends ⊢
    subst ht hends
    dsimp only at hstart hstop hmid ⊢
    obtain ⟨ha, hrest, happly⟩ := h.part hp.before (List.forall_mem_append.2
      ⟨fun e he => (hmid e he).1.1, fun e he => (Nat.le_add_right ..).trans (hp.behind e he)⟩)
    rw [List.map_append] at hrest happly
    obtain ⟨hb, -, hmiddle⟩ := hrest.part
      (List.forall_mem_map.2 fun e he => Nat.sub_le_iff_le_add'.2 (hmid e he).2.2)
      (List.forall_mem_map.2 fun e he => Nat.le_sub_of_add_le' (hp.behind e he))
    refine ⟨hb, ?_⟩
    have hfirst := ha.byteSize_eq
    have hsecond := hb.byteSize_eq
    rw [netDelta_shiftDown fun e he => (hmid e he).1.1] at hsecond
    have hspan : remapSpan ⟨a.byteSize, a.byteSize + b.byteSize⟩ (pre ++ (mid ++ post)) =
        ⟨(applyEdits a pre).byteSize, (applyEdits a pre).byteSize +
          (applyEdits b (mid.map (·.shiftDown a.byteSize))).byteSize⟩ := by
      rw [remapSpan, hstart, hstop]
      simp only [shifted, Span.mk.injEq]
      omega
    rw [hspan, happly, hmiddle, ← List.append_assoc]
    exact Text.slice?_append ..

/-- What applying edits and carrying ranges over have to do with each other. -/
structure CarriesRanges (t : Text) (es : List Edit) : Prop where
  /-- All that the edits cut out of the text is on its boundaries. -/
  applied : applyEdits? t es = some (applyEdits t es)
  /-- What a range covers is edited as if it stood alone, if no edit reaches out of the range. -/
  commutes : ∀ r, t.Holds r → (∀ e ∈ es, e.Inside r ∨ e.Outside r) →
    EditsOf (t.slice r) (editsInside es r) ∧
      (applyEdits t es).slice? (remapSpan r es) =
        some (applyEdits (t.slice r) (editsInside es r))
  /-- The replacement of an edit is where it lands, and no range the edit takes a byte of misses any
  of it. -/
  covers : ∀ pre e post, es = pre ++ e :: post →
    (applyEdits t es).slice? (landing t pre e) = some e.replacement ∧
      ∀ r : Span, r.Meets e.range → (remapSpan r es).start ≤ (landing t pre e).start ∧
        (landing t pre e).stop ≤ (remapSpan r es).stop
  ordered : ∀ r, (remapSpan r es).start ≤ (remapSpan r es).stop
  inBounds : ∀ r : Span, r.start ≤ r.stop → r.stop ≤ t.byteSize →
    (remapSpan r es).stop ≤ (applyEdits t es).byteSize
  holds : ∀ r, t.Holds r → (applyEdits t es).Holds (remapSpan r es)
  /-- No sum on the way falls below zero. -/
  unfailing : ∀ r, remapSpan? r es = some (remapSpan r es)
  start_mono : Monotone (remapStart · es)
  end_mono : Monotone (remapEnd · es)
  /-- A range that no edit takes a byte of stays before all that comes behind it. -/
  disjoint : ∀ r s : Span, r.start < r.stop → (∀ e ∈ es, ¬ r.Meets e.range) → r.stop ≤ s.start →
    (remapSpan r es).stop ≤ (remapSpan s es).start

/-- A range that is not empty ends where its end comes to. -/
theorem EditsOf.remapSpan_stop (h : EditsOf t es) (hr : r.start < r.stop) :
    (remapSpan r es).stop = remapEnd r.stop es := by
  have hp := editsOf_iff.1 h
  rw [← Cells.text_plain t] at hp
  obtain ⟨ps, z, -, rfl, -⟩ := Patch.exists_edits_eq hp
  exact Patch.remapSpan_stop hr ps

/-- Sorted edits of a text that do not overlap carry its ranges over as they change what these
cover. -/
theorem EditsOf.carries_ranges (h : EditsOf t es) : CarriesRanges t es := by
  have hp := editsOf_iff.1 h
  have hstart : Monotone (remapStart · es) := fun _ _ hij => remapStartFrom_mono hp hij 0
  have hend : Monotone (remapEnd · es) := fun _ _ hij => remapEndFrom_mono hp hij (by simp)
  have hholds : ∀ r, t.Holds r → (applyEdits t es).Holds (remapSpan r es) :=
    fun r hr => Patch.holds_applyEdits hp hr
  refine ⟨applyEdits?_eq hp, fun r => h.slice?_remapSpan, ?_, fun r => remapSpan_ordered r es,
    fun r hr hsize => ?_, hholds, fun r => remapSpan?_eq hp r, hstart, hend,
    fun r s hr hes hrs => ?_⟩
  · rintro pre e post rfl
    exact ⟨h.slice?_landing.1, fun r hr => h.covers hr⟩
  · -- no end of the range comes further than the end of the text
    have hlast : t.Boundary 0 t.byteSize := by simpa using Text.boundary_end 0 t
    have hbound := (hholds ⟨t.byteSize, t.byteSize⟩ ⟨Nat.le_refl _, hlast, hlast⟩).2.2.le
    rw [Nat.zero_add] at hbound
    exact (max_le_max (hend hsize) (hstart (hr.trans hsize))).trans hbound
  · rw [h.remapSpan_stop hr]
    refine (remapEndFrom_le_remapStartFrom hp (fun e he => ?_) 0).trans (hstart hrs)
    by_contra hcut
    exact hes e he ⟨r.stop - 1, by omega, by omega⟩

/-- An insertion in front; two bytes replaced by one, an insertion right behind them and the next byte
taken out; and a byte further on replaced by three. -/
theorem carries_ranges_adjacentEdits :
    let t : Text := ['a', 'b', 'c', 'd', 'e', 'f', 'g', 'h']
    let es : List Edit := [⟨⟨0, 0⟩, ['X']⟩, ⟨⟨1, 3⟩, ['Y']⟩, ⟨⟨3, 3⟩, ['Z', 'Z']⟩, ⟨⟨3, 4⟩, []⟩,
      ⟨⟨6, 7⟩, ['W', 'W', 'W']⟩]
    EditsOf t es ∧ CarriesRanges t es ∧
      applyEdits t es = ['X', 'a', 'Y', 'Z', 'Z', 'e', 'f', 'W', 'W', 'W', 'h'] ∧
      remapSpan ⟨1, 6⟩ es = ⟨2, 7⟩ ∧
      editsInside es ⟨1, 6⟩ = [⟨⟨0, 2⟩, ['Y']⟩, ⟨⟨2, 2⟩, ['Z', 'Z']⟩, ⟨⟨2, 3⟩, []⟩] := by
  intro t es
  have h : EditsOf t es := ⟨by
    have hslices : ∀ e ∈ es, (t.slice? e.range).isSome = true := by decide
    exact fun e he => Text.isSome_slice?_iff.1 (hslices e he), by decide⟩
  exact ⟨h, h.carries_ranges, by decide, by decide, by decide⟩

end GlyphTree
