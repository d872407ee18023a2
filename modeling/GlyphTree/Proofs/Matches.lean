import GlyphTree.Pattern.Matcher
import GlyphTree.Proofs.Pieces

/-!
# Matches

The matches that a program finds in a text are pieces of it: on character boundaries, one after the
other and without overlap (`Program.pieces_scan`). An attempt never forgets where it started, and it
only ever started at a place that the run had come to. It enters and leaves groups at such places
too, so what a group covers is a piece of the match (`Program.groups_matchesIn`).
-/

namespace GlyphTree

/-- What groups have covered lies behind `start`, in order and on boundaries of a text that starts
at byte `o`; and so do the places where groups were entered. -/
structure Marks.Within (m : Marks) (start o : Nat) (t : Text) : Prop where
  opened : ∀ x ∈ m.opened, t.Boundary o x.2 ∧ start ≤ x.2
  closed : ∀ x ∈ m.closed, t.Boundary o x.2.start ∧ t.Boundary o x.2.stop ∧ start ≤ x.2.start ∧
    x.2.start ≤ x.2.stop

namespace Marks.Within

variable {m : Marks} {start o : Nat} {t : Text}

theorem none : Marks.none.Within start o t := ⟨by simp [Marks.none], by simp [Marks.none]⟩

theorem map {o' : Nat} {t' : Text} (h : m.Within start o t)
    (hb : ∀ n, t.Boundary o n → t'.Boundary o' n) : m.Within start o' t' where
  opened x hx := (h.opened x hx).imp_left (hb _)
  closed x hx := by
    obtain ⟨h1, h2, h3⟩ := h.closed x hx
    exact ⟨hb _ h1, hb _ h2, h3⟩

theorem mem_of_lookup {α : Type} {l : List (Nat × α)} {k : Nat} {x : α} (h : l.lookup k = some x) :
    (k, x) ∈ l := by
  obtain ⟨l₁, l₂, rfl, -⟩ := List.lookup_eq_some_iff.1 h
  simp

theorem openAt (h : m.Within start o t) (hs : start ≤ o + t.byteSize) (group : Nat) :
    (m.openAt group (o + t.byteSize)).Within start o t where
  opened := List.forall_mem_cons.2 ⟨⟨t.boundary_end o, hs⟩, h.opened⟩
  closed := h.closed

theorem closeAt (h : m.Within start o t) (group : Nat) :
    (m.closeAt group (o + t.byteSize)).Within start o t := by
  unfold Marks.closeAt
  split
  · rename_i n hn
    obtain ⟨hb, hs⟩ := h.opened (group, n) (mem_of_lookup hn)
    exact ⟨h.opened, List.forall_mem_cons.2 ⟨⟨hb, t.boundary_end o, hs, hb.le⟩, h.closed⟩⟩
  · exact h

end Marks.Within

/-- An attempt that comes from a boundary of the text read so far, which starts at byte `o`. -/
structure Attempt.Within (a : Attempt) (o : Nat) (t : Text) : Prop where
  start : t.Boundary o a.start
  marks : a.marks.Within a.start o t

theorem Attempt.Within.extend {a : Attempt} {o : Nat} {t : Text} (h : a.Within o t) (u : Text) :
    a.Within o (t ++ u) := ⟨h.start.extend u, h.marks.map fun _ hn => hn.extend u⟩

/-- A match covers a piece of a text that starts at byte `o`, what is behind the piece is still to
be read, and groups have covered parts of the piece. -/
structure Found.Within (m : Found) (o : Nat) (t : Text) : Prop where
  piece : ∃ a b, t = a ++ b ++ m.stop.after ∧ m.start = o + a.byteSize ∧
    m.stop.offset = o + a.byteSize + b.byteSize ∧ m.marks.Within m.start o (a ++ b)

theorem Found.Within.prepend {m : Found} {o : Nat} {t : Text} (u : Text)
    (h : m.Within (o + u.byteSize) t) : m.Within o (u ++ t) := by
  obtain ⟨a, b, ht, hs, he, hm⟩ := h
  refine ⟨u ++ a, b, ?_, ?_, ?_, ?_⟩
  · rw [ht]
    simp
  · rw [hs, Text.byteSize_append, Nat.add_assoc]
  · rw [he, Text.byteSize_append, Nat.add_assoc o]
  · rw [List.append_assoc]
    exact hm.map fun _ hn => hn.prepend u

namespace Program

variable {code : Code} {p : Program} {o : Nat} {t u : Text}

/-! ## Attempts -/

/-- What the instructions that take no character keep of attempts. -/
theorem follow_induction {P : Attempt → Prop} (code : Code) (k : Cursor) (fuel : Nat)
    {attempts : List Attempt} (visited : Visited) {waiting : List Attempt}
    (hplace : ∀ a n, P a → P { a with place := n })
    (hopen : ∀ a g, P a → P { a with marks := a.marks.openAt g k.offset })
    (hclose : ∀ a g, P a → P { a with marks := a.marks.closeAt g k.offset })
    (ha : ∀ a ∈ attempts, P a) (hw : ∀ a ∈ waiting, P a) :
    (∀ a ∈ (follow code k fuel attempts visited waiting).1, P a) ∧
      ∀ a ∈ (follow code k fuel attempts visited waiting).2, P a := by
  induction fuel generalizing attempts visited waiting with
  | zero => exact ⟨fun a h => hw a (by simpa [follow] using h), by simp [follow]⟩
  | succ fuel ih =>
    cases attempts with
    | nil => exact ⟨fun a h => hw a (by simpa [follow] using h), by simp [follow]⟩
    | cons a rest =>
      obtain ⟨ha, hr⟩ := List.forall_mem_cons.1 ha
      rw [follow]
      by_cases hv : visited.has a.place = true
      · rw [if_pos hv]
        exact ih _ hr hw
      · rw [if_neg hv]
        dsimp only
        split
        · exact ih _ hr hw
        · refine ⟨fun a h => hw a (by simpa using h), fun b hb => ?_⟩
          obtain rfl := Option.some.inj (Option.mem_def.1 hb)
          exact ha
        · exact ih _ hr (List.forall_mem_cons.2 ⟨ha, hw⟩)
        · split
          · exact ih _ (List.forall_mem_cons.2 ⟨hplace a _ ha, hr⟩) hw
          · exact ih _ hr hw
        · exact ih _ (List.forall_mem_cons.2
            ⟨hplace a _ ha, List.forall_mem_cons.2 ⟨hplace a _ ha, hr⟩⟩) hw
        · exact ih _ (List.forall_mem_cons.2 ⟨hplace _ _ (hopen a _ ha), hr⟩) hw
        · exact ih _ (List.forall_mem_cons.2 ⟨hplace _ _ (hclose a _ ha), hr⟩) hw

/-- At the end of the text `u` read so far, groups are entered and left on a boundary of it. -/
theorem follow_within (code : Code) (before : Option Char) (rest : Text) (fuel : Nat)
    {attempts : List Attempt} (ha : ∀ a ∈ attempts, a.Within o u) :
    (∀ a ∈ (follow code ⟨before, rest, o + u.byteSize⟩ fuel attempts 0 []).1, a.Within o u) ∧
      ∀ a ∈ (follow code ⟨before, rest, o + u.byteSize⟩ fuel attempts 0 []).2, a.Within o u :=
  follow_induction code _ fuel 0 (fun _ _ h => ⟨h.start, h.marks⟩)
    (fun _ g h => ⟨h.start, h.marks.openAt h.start.le g⟩)
    (fun _ g h => ⟨h.start, h.marks.closeAt g⟩) ha fun a (h : a ∈ []) => by cases h

theorem step_within (c : Char) {attempts : List Attempt} (ha : ∀ a ∈ attempts, a.Within o u) :
    ∀ a ∈ step code c attempts, a.Within o (u ++ [c]) := by
  intro a h
  obtain ⟨b, hb, hab⟩ := List.mem_filterMap.1 h
  split at hab
  · split at hab
    · cases hab
      have hb := (ha b hb).extend [c]
      exact ⟨hb.start, hb.marks⟩
    · cases hab
  · cases hab

/-! ## One match -/

/-- At the end of the text `u` read so far, attempts come from boundaries in it, and so does a
match. -/
theorem arrive_within (before : Option Char) {rest : Text} {attempts : List Attempt}
    {found : Option Found} (ha : ∀ a ∈ attempts, a.Within o u)
    (hf : ∀ m ∈ found, m.Within o (u ++ rest)) :
    (∀ a ∈ (p.arrive ⟨before, rest, o + u.byteSize⟩ attempts found).1, a.Within o u) ∧
      ∀ m ∈ (p.arrive ⟨before, rest, o + u.byteSize⟩ attempts found).2, m.Within o (u ++ rest) := by
  have hall : ∀ a ∈ (if found.isNone then
      attempts ++ [⟨p.entry, o + u.byteSize, .none⟩] else attempts), a.Within o u := by
    intro a h
    split at h
    · rcases List.mem_append.1 h with h | h
      · exact ha a h
      · obtain rfl := List.mem_singleton.1 h
        exact ⟨u.boundary_end o, .none⟩
    · exact ha a h
  unfold arrive
  dsimp only
  generalize (if found.isNone then
    attempts ++ [⟨p.entry, o + u.byteSize, .none⟩] else attempts) = all at hall ⊢
  have hs := follow_within p.code before rest (all.length + 2 * p.code.size) hall
  generalize follow p.code ⟨before, rest, o + u.byteSize⟩ (all.length + 2 * p.code.size) all 0 [] =
    r at hs ⊢
  obtain ⟨waiting, best⟩ := r
  obtain ⟨hw, hb⟩ := hs
  cases best with
  | none => exact ⟨hw, hf⟩
  | some a =>
    refine ⟨hw, fun m hm => ?_⟩
    obtain rfl := Option.some.inj (Option.mem_def.1 hm)
    obtain ⟨⟨x, y, rfl, hx⟩, hm⟩ := hb a rfl
    refine ⟨x, y, rfl, hx, ?_, hm⟩
    rw [Text.byteSize_append, Nat.add_assoc]

theorem runParts_within {before : Option Char} {rest : Text} {attempts : List Attempt}
    {found : Option Found} (ha : ∀ a ∈ attempts, a.Within o u)
    (hf : ∀ m ∈ found, m.Within o (u ++ rest)) :
    ∀ m ∈ p.runParts before (o + u.byteSize) attempts found rest, m.Within o (u ++ rest) := by
  induction rest generalizing before u attempts found with
  | nil => exact (arrive_within before ha hf).2
  | cons c rest ih =>
    have hs := arrive_within (p := p) before ha hf
    rw [runParts]
    generalize p.arrive ⟨before, c :: rest, o + u.byteSize⟩ attempts found = r at hs ⊢
    obtain ⟨waiting, found⟩ := r
    obtain ⟨hw, hf⟩ := hs
    dsimp only
    split
    · exact hf
    · have hc : (u ++ [c]) ++ rest = u ++ c :: rest := List.append_cons u c rest ▸ rfl
      rw [show o + u.byteSize + c.utf8Size = o + (u ++ [c]).byteSize by simp [Nat.add_assoc], ← hc]
      exact ih (step_within c hw) (hc ▸ hf)

/-- A match found from a place on lies in the text behind it. -/
theorem searchFrom_within (p : Program) (k : Cursor) :
    ∀ m ∈ p.searchFrom k, m.Within k.offset k.after :=
  runParts_within (u := []) (fun a (h : a ∈ []) => by cases h)
    fun m (h : m ∈ (none : Option Found)) => by cases h

theorem searchAfter_within (p : Program) (k : Cursor) (lastStop : Option Nat) :
    ∀ m ∈ p.searchAfter k lastStop, m.Within k.offset k.after := by
  intro m hm
  have hk := p.searchFrom_within k
  rw [searchAfter] at hm
  split at hm
  · cases hm
  · rename_i m' he
    split at hm
    · split at hm
      · cases hm
      · rename_i c rest hc
        have hs := p.searchFrom_within (k.step c rest) m hm
        rw [hc]
        exact Found.Within.prepend [c] (by simpa [Cursor.step] using hs)
    · exact hk m (by rw [he]; exact hm)

/-! ## All matches -/

theorem pieces_scanFrom (p : Program) (fuel : Nat) (k : Cursor) (lastStop : Option Nat) :
    Pieces k.offset k.after ((p.scanFrom fuel k lastStop).map Found.span) := by
  induction fuel generalizing k lastStop with
  | zero => exact .nil _ _
  | succ fuel ih =>
    rw [scanFrom]
    split
    · exact .nil _ _
    · rename_i m hm
      obtain ⟨a, b, ht, hs, he, -⟩ := p.searchAfter_within k lastStop m hm
      rw [List.map_cons, Found.span, hs, ht, he]
      exact .cons a b (he ▸ ih m.stop _)

/-- The matches in a text are pieces of it, from left to right. -/
theorem pieces_scan (p : Program) (t : Text) : Pieces 0 t ((p.scan t).map Found.span) :=
  p.pieces_scanFrom _ (.start t) none

theorem pieces_matchesIn (p : Program) (t : Text) :
    Pieces 0 t ((p.matchesIn t).map Match.span) := by
  have h := p.pieces_scan t
  rw [matchesIn, List.map_map]
  exact h

/-! ## Groups -/

theorem scanFrom_within (p : Program) (fuel : Nat) (k : Cursor) (lastStop : Option Nat) :
    ∀ m ∈ p.scanFrom fuel k lastStop, m.Within k.offset k.after := by
  induction fuel generalizing k lastStop with
  | zero => exact fun m hm => by cases hm
  | succ fuel ih =>
    rw [scanFrom]
    split
    · exact fun m hm => by cases hm
    · rename_i m hm
      have hw := p.searchAfter_within k lastStop m hm
      obtain ⟨a, b, ht, -, he, -⟩ := hw.piece
      refine List.forall_mem_cons.2 ⟨hw, fun m' hm' => ?_⟩
      have := ih m.stop _ m' hm'
      rw [he, Nat.add_assoc, ← Text.byteSize_append] at this
      exact ht ▸ this.prepend (a ++ b)

/-- A match is a piece of the text, and what its groups have covered are pieces of that. -/
theorem groups_matchesIn {m : Match} (hm : m ∈ p.matchesIn t) :
    ∃ a b c, t = a ++ b ++ c ∧ m.span = ⟨a.byteSize, a.byteSize + b.byteSize⟩ ∧
      ∀ s, some s ∈ m.groups → b.Holds (s.shiftDown a.byteSize) := by
  obtain ⟨f, hf, rfl⟩ := List.mem_map.1 hm
  obtain ⟨a, b, ht, hs, he, hw⟩ := (p.scanFrom_within _ (.start t) none f hf).piece
  simp only [Cursor.start, Nat.zero_add] at ht hs he hw
  refine ⟨a, b, f.stop.after, ht, by rw [Found.span, hs, he], fun s hg => ?_⟩
  obtain ⟨i, -, hi⟩ := List.mem_map.1 hg
  obtain ⟨h1, h2, h3, h4⟩ := hw.closed _ (Marks.Within.mem_of_lookup hi)
  dsimp only at h1 h2 h3 h4
  rw [hs] at h3
  have hrest : ∀ {n}, (a ++ b).Boundary 0 n → a.byteSize ≤ n → b.Boundary 0 (n - a.byteSize) :=
    fun hb hn => by simpa using (hb.rest (by simpa using hn)).shiftDown
  exact ⟨Nat.sub_le_sub_right h4 _, hrest h1 h3, hrest h2 (Nat.le_trans h3 h4)⟩

end Program

end GlyphTree
