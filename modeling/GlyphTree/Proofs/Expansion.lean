import GlyphTree.Label.Expand
import GlyphTree.Proofs.Allocation
import GlyphTree.Proofs.Sorting

/-!
# Expansion of labels

A pattern is scanned from left to right (`Scans`): at each place the longest label that stands
there is taken, and one character if there is none. There is one scan of each pattern, and what is
expanded is what it says (`expand_substitutes`): the labels are looked up by name only, so it does
not matter in which order they are kept.
-/

namespace GlyphTree

namespace Text

variable {a b t : Text}

/-- Of two beginnings of a text the one with fewer bytes is a beginning of the other. -/
theorem prefix_of_byteSize_le (ha : a <+: t) (hb : b <+: t) (h : byteSize a ≤ byteSize b) :
    a <+: b := by
  rcases List.prefix_or_prefix_of_prefix ha hb with hab | ⟨r, rfl⟩
  · exact hab
  · have hr : byteSize r = 0 := by
      rw [byteSize_append] at h
      omega
    rw [byteSize_eq_zero hr, List.append_nil]

theorem isSome_dropPrefix?_iff : (dropPrefix? a t).isSome = true ↔ a <+: t := by
  rw [Option.isSome_iff_exists]
  exact exists_congr fun r => dropPrefix?_eq_some_iff.trans eq_comm

end Text

namespace Label

theorem nameLe_refl (t : Text) : nameLe t t = true := by
  induction t with
  | nil => rfl
  | cons c cs ih => rw [nameLe, if_pos rfl, ih]

theorem longerFirst_of_name {a b : Label} (h : a.name = b.name) : longerFirst a b = true := by
  rw [longerFirst, h, if_pos rfl, nameLe_refl]

theorem byteSize_le_of_longerFirst {a b : Label} (h : longerFirst a b = true) :
    b.name.byteSize ≤ a.name.byteSize := by
  unfold longerFirst at h
  split at h
  · omega
  · exact Nat.le_of_lt (of_decide_eq_true h)

theorem byteSize_le_of_not_longerFirst {a b : Label} (h : longerFirst a b = false) :
    a.name.byteSize ≤ b.name.byteSize := by
  unfold longerFirst at h
  split at h
  · omega
  · exact Nat.le_of_not_lt (of_decide_eq_false h)

end Label

namespace Registry

variable {r r' : Registry} {l l' : Label} {t pattern : Text} {labels : List Label}

/-! ## The label at a place -/

/-- No label is empty. -/
def Named (r : Registry) : Prop := ∀ l ∈ r.labels, l.name ≠ []

/-- The longest label of a registry that a text starts with. -/
structure LongestAt (r : Registry) (t : Text) (l : Label) : Prop where
  defined : r.get? l.name = some l
  starts : l.name <+: t
  longest : ∀ l', r.get? l'.name = some l' → l'.name <+: t → l'.name.length ≤ l.name.length

theorem LongestAt.unique (h : r.LongestAt t l) (h' : r.LongestAt t l') : l = l' := by
  have hlen := Nat.le_antisymm (h'.longest l h.defined h.starts) (h.longest l' h'.defined h'.starts)
  have hname : l.name = l'.name := by
    rcases List.prefix_or_prefix_of_prefix h.starts h'.starts with hp | hp
    · exact hp.eq_of_length hlen
    · exact (hp.eq_of_length hlen.symm).symm
  exact Option.some.inj (h.defined.symm.trans (hname ▸ h'.defined))

theorem get?_name (h : r.get? t = some l) : l.name = t := by simpa using List.find?_some h

theorem mem_byLength : l ∈ r.byLength ↔ l ∈ r.labels := (sortStable_perm _ _).mem_iff

theorem byLength_pairwise (r : Registry) :
    r.byLength.Pairwise fun a b => b.name.byteSize ≤ a.name.byteSize :=
  sortStable_pairwise (R := fun a b : Label => b.name.byteSize ≤ a.name.byteSize)
    (fun h h' => Nat.le_trans h' h) Label.byteSize_le_of_longerFirst
    Label.byteSize_le_of_not_longerFirst _

/-- Sorting does not change which label is found under a name. -/
theorem find?_byLength (r : Registry) (name : Text) :
    r.byLength.find? (·.name = name) = r.get? name := by
  rw [get?, ← List.head?_filter, ← List.head?_filter, byLength, filter_sortStable]
  intro x y hx hy
  exact Label.longerFirst_of_name ((of_decide_eq_true hx).trans (of_decide_eq_true hy).symm)

theorem exists_get? (h : l ∈ r.labels) : ∃ l', r.get? l'.name = some l' ∧ l'.name = l.name := by
  cases hl : r.get? l.name with
  | none => simpa using List.find?_eq_none.1 hl l h
  | some l' => exact ⟨l', get?_name hl ▸ hl, get?_name hl⟩

theorem labelAt?_eq_some {labels : List Label} {t : Text} {l : Label}
    (h : labelAt? labels t = some l) : l ∈ labels ∧ ∃ rest, t = l.name ++ rest := by
  refine ⟨List.mem_of_find?_eq_some h, ?_⟩
  have hp := List.find?_some h
  obtain ⟨rest, hrest⟩ := Option.isSome_iff_exists.1 hp
  exact ⟨rest, Text.dropPrefix?_eq_some_iff.1 hrest⟩

theorem longestAt_of_labelAt? (h : labelAt? r.byLength t = some l) : r.LongestAt t l := by
  obtain ⟨hl, before, behind, he, hbefore⟩ := List.find?_eq_some_iff_append.1 h
  simp only [Bool.not_eq_true', ← Bool.not_eq_true, Text.isSome_dropPrefix?_iff] at hl hbefore
  refine ⟨?_, hl, fun l' hl' hstarts => ?_⟩
  · -- a label of that name before it would have been taken
    rw [← find?_byLength, List.find?_eq_some_iff_append]
    refine ⟨by simp, before, behind, he, fun x hx => ?_⟩
    have hne : x.name ≠ l.name := fun hname => hbefore x hx (hname ▸ hl)
    simpa using hne
  · have hmem : l' ∈ r.byLength := mem_byLength.2 (List.mem_of_find?_eq_some hl')
    rw [he, List.mem_append, List.mem_cons] at hmem
    rcases hmem with hmem | rfl | hmem
    · exact absurd hstarts (hbefore l' hmem)
    · exact Nat.le_refl _
    · have hsorted := (List.pairwise_append.1 (he ▸ r.byLength_pairwise)).2.1
      have hle := (List.pairwise_cons.1 hsorted).1 l' hmem
      exact (Text.prefix_of_byteSize_le hstarts hl hle).length_le

theorem labelAt?_eq_none_iff :
    labelAt? r.byLength t = none ↔ ∀ l, r.get? l.name = some l → ¬l.name <+: t := by
  rw [labelAt?, List.find?_eq_none]
  simp only [Text.isSome_dropPrefix?_iff, mem_byLength]
  refine ⟨fun h l hl => h l (List.mem_of_find?_eq_some hl), fun h l hl hstarts => ?_⟩
  obtain ⟨l', hl', hname⟩ := exists_get? hl
  exact h l' hl' (hname ▸ hstarts)

theorem labelAt?_eq_some_iff : labelAt? r.byLength t = some l ↔ r.LongestAt t l := by
  refine ⟨longestAt_of_labelAt?, fun h => ?_⟩
  cases hl : labelAt? r.byLength t with
  | none => exact absurd h.starts (labelAt?_eq_none_iff.1 hl l h.defined)
  | some l' => rw [h.unique (longestAt_of_labelAt? hl)]

/-- The characters of a label just replaced are passed over. -/
theorem expandFrom_skip (labels : List Label) (stretch a b : Text) :
    expandFrom labels stretch a.length (a ++ b) = expandFrom labels stretch 0 b := by
  induction a with
  | nil => rfl
  | cons c a ih => exact ih

/-! ## Scans -/

/-- A piece of a pattern: a literal character, or a label. -/
inductive Piece where
  | literal (c : Char)
  | label (l : Label)
deriving DecidableEq, Repr, Inhabited

namespace Piece

/-- The part of the pattern that a piece is. -/
def source : Piece → Text
  | literal c => [c]
  | label l => l.name

/-- What comes of a piece: a literal character stays, and a label gives way to its body as it is, or
if it has none to its glyph, behind a backslash if the glyph means something in patterns. -/
def expanded : Piece → Text
  | literal c => [c]
  | label l => l.body.getD (if Pattern.isMeta l.glyph then ['\\', l.glyph] else [l.glyph])

theorem expanded_label (l : Label) : expanded (.label l) = l.substitute := by
  obtain ⟨name, glyph, body⟩ := l
  cases body <;> rfl

end Piece

/-- How a pattern is cut into pieces from left to right. -/
inductive Scans (r : Registry) : Text → List Piece → Prop
  | nil : Scans r [] []
  | literal {c : Char} {rest : Text} {ps : List Piece} :
    (∀ l, r.get? l.name = some l → ¬l.name <+: c :: rest) → Scans r rest ps →
      Scans r (c :: rest) (.literal c :: ps)
  | label {t rest : Text} {l : Label} {ps : List Piece} :
    t = l.name ++ rest → r.LongestAt t l → Scans r rest ps → Scans r t (.label l :: ps)

variable {ps ps' : List Piece}

theorem Named.name_ne_nil (h : r.Named) (hl : r.get? l.name = some l) : l.name ≠ [] :=
  h l (List.mem_of_find?_eq_some hl)

theorem Scans.source (h : r.Scans t ps) : ps.flatMap Piece.source = t := by
  induction h with
  | nil => rfl
  | literal _ _ ih => rw [List.flatMap_cons, ih]; rfl
  | label he _ _ ih => rw [List.flatMap_cons, ih, he]; rfl

theorem Scans.unique (hn : r.Named) (h : r.Scans t ps) (h' : r.Scans t ps') : ps = ps' := by
  induction h generalizing ps' with
  | nil =>
    cases h' with
    | nil => rfl
    | label he hl =>
      exact absurd (List.append_eq_nil_iff.1 he.symm).1 (hn.name_ne_nil hl.defined)
  | literal hnone _ ih =>
    cases h' with
    | literal _ h' => rw [ih h']
    | label _ hl => exact absurd hl.starts (hnone _ hl.defined)
  | label he hl _ ih =>
    cases h' with
    | nil => exact absurd (List.append_eq_nil_iff.1 he.symm).1 (hn.name_ne_nil hl.defined)
    | literal hnone => exact absurd hl.starts (hnone _ hl.defined)
    | label he' hl' h' =>
      obtain rfl := hl.unique hl'
      obtain rfl := List.append_cancel_left (he.symm.trans he')
      rw [ih h']

/-- A scan comes to the end of every pattern, since no label is empty. -/
theorem Named.exists_scans (hn : r.Named) (t : Text) : ∃ ps, r.Scans t ps := by
  induction hlen : t.length using Nat.strong_induction_on generalizing t with
  | _ n ih =>
    cases t with
    | nil => exact ⟨[], .nil⟩
    | cons c cs =>
      cases hl : labelAt? r.byLength (c :: cs) with
      | none =>
        obtain ⟨ps, hps⟩ := ih cs.length (by simp [← hlen]) cs rfl
        exact ⟨_, .literal (labelAt?_eq_none_iff.1 hl) hps⟩
      | some l =>
        have hlong := longestAt_of_labelAt? hl
        obtain ⟨rest, he⟩ := hlong.starts
        have hpos := List.length_pos_iff.2 (hn.name_ne_nil hlong.defined)
        have hlt : rest.length < n := by
          rw [← hlen, ← he, List.length_append]
          omega
        obtain ⟨ps, hps⟩ := ih rest.length hlt rest rfl
        exact ⟨_, .label he.symm hlong hps⟩

theorem named_empty (pool : GlyphPool) : Named (empty pool) := fun _ h => by cases h

/-- Without labels all characters are literal. -/
theorem scans_empty (pool : GlyphPool) (t : Text) : Scans (empty pool) t (t.map .literal) := by
  induction t with
  | nil => exact .nil
  | cons c cs ih => exact .literal (fun l hl => by cases hl) ih

/-- The stretches of literal text before, between and behind the labels of a scan, if `before` is
what has been read of the first of them. -/
def stretchesFrom (before : Text) : List Piece → List Text
  | [] => [before]
  | .literal c :: ps => stretchesFrom (before ++ [c]) ps
  | .label _ :: ps => before :: stretchesFrom [] ps

/-- The stretches of literal text before, between and behind the labels of a scan. -/
def stretches (ps : List Piece) : List Text := stretchesFrom [] ps

/-- Expanding is to look through the stretches, and if nothing is wrong with any to expand the
pieces. -/
theorem Scans.expandFrom_eq (h : r.Scans t ps) (hn : r.Named) (stretch : Text) :
    expandFrom r.byLength stretch 0 t =
      match (stretchesFrom stretch.reverse ps).findSome? undefinedToken? with
      | some token => .error (.undefinedLabel token)
      | none => .ok (stretch.reverse ++ ps.flatMap Piece.expanded) := by
  induction h generalizing stretch with
  | nil =>
    rw [expandFrom, stretchesFrom, List.findSome?_singleton]
    split <;> simp [*]
  | @literal c rest ps hnone _ ih =>
    rw [expandFrom, labelAt?_eq_none_iff.2 hnone]
    dsimp only
    rw [ih, List.reverse_cons, stretchesFrom]
    simp [Piece.expanded]
  | @label t rest l ps he hl _ ih =>
    obtain ⟨c, name, hname⟩ := List.exists_cons_of_ne_nil (hn.name_ne_nil hl.defined)
    have ht : t = c :: (name ++ rest) := by rw [he, hname]; rfl
    have hskip : expandFrom r.byLength [] (l.name.length - 1) (name ++ rest) =
        expandFrom r.byLength [] 0 rest := by
      rw [hname]
      exact expandFrom_skip _ [] name rest
    subst ht
    rw [expandFrom, labelAt?_eq_some_iff.2 hl]
    dsimp only
    rw [hskip, ih, stretchesFrom, List.findSome?_cons]
    cases undefinedToken? stretch.reverse with
    | some token => rfl
    | none =>
      dsimp only [List.reverse_nil, List.nil_append]
      cases (stretchesFrom [] ps).findSome? undefinedToken? with
      | some token => rfl
      | none =>
        dsimp only
        rw [List.flatMap_cons, Piece.expanded_label, List.append_assoc]

theorem Scans.expand_eq (h : r.Scans pattern ps) (hn : r.Named) : r.expand pattern =
    match (stretches ps).findSome? undefinedToken? with
    | some token => .error (.undefinedLabel token)
    | none => .ok (ps.flatMap Piece.expanded) := h.expandFrom_eq hn []

/-! ## Labels by name -/

theorem named_iff : r.Named ↔ r.get? [] = none := by
  simp [Named, get?]

theorem LongestAt.congr (h : r.LongestAt t l) (hget : ∀ name, r'.get? name = r.get? name) :
    r'.LongestAt t l :=
  ⟨(hget _).trans h.defined, h.starts, fun l' hl' => h.longest l' ((hget _).symm.trans hl')⟩

theorem Scans.congr (h : r.Scans t ps) (hget : ∀ name, r'.get? name = r.get? name) :
    r'.Scans t ps := by
  induction h with
  | nil => exact .nil
  | literal hnone _ ih => exact .literal (fun l hl => hnone l ((hget _).symm.trans hl)) ih
  | label he hl _ ih => exact .label he (hl.congr hget) ih

/-- What is expanded depends on what is found under which name, and on nothing else. -/
theorem Named.expand_congr (hn : r.Named) (hget : ∀ name, r'.get? name = r.get? name) :
    r'.expand pattern = r.expand pattern := by
  obtain ⟨ps, hps⟩ := hn.exists_scans pattern
  have hn' : r'.Named := named_iff.2 ((hget []).trans (named_iff.1 hn))
  rw [hps.expand_eq hn, (hps.congr hget).expand_eq hn']

theorem Numbered.get?_perm (h : r.Numbered) (hp : labels.Perm r.labels) (name : Text) :
    get? { r with labels } name = r.get? name := by
  refine Option.ext fun l => ?_
  rw [get?, get?, find?_name_eq_some_iff h.names_nodup,
    find?_name_eq_some_iff ((hp.map _).nodup_iff.2 h.names_nodup), hp.mem_iff]

/-- Whatever has been defined, if no label is empty: every pattern has one scan, and what it expands
to, if anything, is put together from the pieces of the scan. The labels may be kept in any order.
-/
theorem expand_substitutes (pool : GlyphPool) (ds : List LabelDefinition)
    (hn : ((empty pool).afterAll ds).Named) (pattern : Text) :
    let r := (empty pool).afterAll ds
    (∃! ps, r.Scans pattern ps) ∧
      (∀ ps, r.Scans pattern ps → ps.flatMap Piece.source = pattern ∧
        ∀ expanded, r.expand pattern = .ok expanded → expanded = ps.flatMap Piece.expanded) ∧
      (∀ r' : Registry, (∀ name, r'.get? name = r.get? name) → r'.expand pattern = r.expand pattern) ∧
      ∀ labels, labels.Perm r.labels → expand { r with labels } pattern = r.expand pattern := by
  intro r
  have hnumbered : r.Numbered := (numbered_empty pool).afterAll ds
  obtain ⟨ps, hps⟩ := hn.exists_scans pattern
  refine ⟨⟨ps, hps, fun ps' hps' => hps'.unique hn hps⟩, fun ps hps => ⟨hps.source, ?_⟩,
    fun r' => hn.expand_congr, fun labels hp => hn.expand_congr (hnumbered.get?_perm hp)⟩
  intro expanded he
  rw [hps.expand_eq hn] at he
  split at he
  · cases he
  · exact (Except.ok.inj he).symm

/-- Of two labels that start at one place the longer is taken. The label in its body stays as it is,
and the glyph of the other label is escaped. -/
theorem expand_substitutes_overlapping :
    let r := (empty ⟨'*', '+'⟩).afterAll [⟨"<A>", none⟩, ⟨"<A>B", some "<A>?"⟩]
    r.Named ∧ (∃! ps, r.Scans "<A>B<A>C" ps) ∧
      ∀ ps, r.Scans "<A>B<A>C" ps → ps.flatMap Piece.expanded = "<A>?\\*C" := by
  intro r
  have hn : r.Named := by
    unfold Named
    decide
  have hall := expand_substitutes ⟨'*', '+'⟩ [⟨"<A>", none⟩, ⟨"<A>B", some "<A>?"⟩] hn "<A>B<A>C"
  have he : r.expand "<A>B<A>C" = .ok "<A>?\\*C" := by decide
  exact ⟨hn, hall.1, fun ps hps => ((hall.2.1 ps hps).2 _ he).symm⟩

end Registry

end GlyphTree
