import GlyphTree.Proofs.Json.Scalars

/-!
# Values in JSON

A value can be written in many ways, with white space wherever a token ends (`Writes`), and each of
them is read back as that value (`Writes.read?_eq`). The compact and the pretty layout are two of
them.
-/

namespace GlyphTree

namespace Data

mutual

/-- Values that a written form gives back: their scalars are, and the keys of their maps are
texts. -/
def Plain : Data → Prop
  | scalar s => s.Plain
  | seq items => PlainItems items
  | map entries => PlainEntries entries

/-- The given values are plain. -/
def PlainItems : List Data → Prop
  | [] => True
  | d :: ds => Plain d ∧ PlainItems ds

/-- The keys of the given entries are texts, their values plain. -/
def PlainEntries : List (Data × Data) → Prop
  | [] => True
  | e :: es => PlainEntry e ∧ PlainEntries es

/-- The key of an entry is a text, its value plain. -/
def PlainEntry : Data × Data → Prop
  | (scalar (.text _), d) => Plain d
  | _ => False

end

end Data

namespace Json

/-! ## Ways of writing -/

/-- The characters of white space. -/
def spaces : List Char := [' ', '\t', '\n', '\r']

/-- White space. -/
def Blank (w : Text) : Prop := ∀ c ∈ w, c ∈ spaces

mutual

/-- The text is the value, written in some way. -/
inductive Writes : Data → Text → Prop
  | scalar {s : Scalar} (h : s.Plain) : Writes (.scalar s) (scalarText s)
  | noItems {w : Text} (hw : Blank w) : Writes (.seq []) ('[' :: (w ++ [']']))
  | items {w u : Text} {ds : List Data} (hw : Blank w) (h : WritesItems ds u) :
      Writes (.seq ds) ('[' :: (w ++ u))
  | noEntries {w : Text} (hw : Blank w) : Writes (.map []) ('\x7b' :: (w ++ ['\x7d']))
  | entries {w u : Text} {es : List (Data × Data)} (hw : Blank w) (h : WritesEntries es u) :
      Writes (.map es) ('\x7b' :: (w ++ u))

/-- The text is the items, at least one, and the closing bracket. -/
inductive WritesItems : List Data → Text → Prop
  | last {d : Data} {t w : Text} (h : Writes d t) (hw : Blank w) :
      WritesItems [d] (t ++ (w ++ [']']))
  | next {d : Data} {ds : List Data} {t v w u : Text} (h : Writes d t) (hv : Blank v) (hw : Blank w)
      (hds : WritesItems ds u) : WritesItems (d :: ds) (t ++ (v ++ ',' :: (w ++ u)))

/-- The text is the entries, at least one, and the closing brace. -/
inductive WritesEntries : List (Data × Data) → Text → Prop
  | last {e : Data × Data} {t w : Text} (h : WritesEntry e t) (hw : Blank w) :
      WritesEntries [e] (t ++ (w ++ ['\x7d']))
  | next {e : Data × Data} {es : List (Data × Data)} {t v w u : Text} (h : WritesEntry e t)
      (hv : Blank v) (hw : Blank w) (hes : WritesEntries es u) :
      WritesEntries (e :: es) (t ++ (v ++ ',' :: (w ++ u)))

/-- The text is a key, a colon and a value. -/
inductive WritesEntry : Data × Data → Text → Prop
  | entry {k : Text} {d : Data} {t v w : Text} (hv : Blank v) (hw : Blank w) (h : Writes d t) :
      WritesEntry (.ofText k, d) (quoted k ++ (v ++ ':' :: (w ++ t)))

end

section

variable {n : Nat} {d : Data} {ds : List Data} {e : Data × Data} {es : List (Data × Data)}
  {s : Scalar} {t u v w rest : Text} {c : Char}

/-! ## White space -/

theorem blank_nil : Blank [] := fun _ h => absurd h List.not_mem_nil

theorem skipSpace_append (hw : Blank w) (t : Text) : skipSpace (w ++ t) = skipSpace t :=
  List.dropWhile_append_of_pos fun c hc => by simpa [spaces, or_assoc] using hw c hc

theorem skipSpace_cons (hc : c ∉ spaces) (t : Text) : skipSpace (c :: t) = c :: t :=
  List.dropWhile_cons_of_neg fun h => hc (by simpa [spaces, or_assoc] using h)

theorem skipSpace_blank (hw : Blank w) (hc : c ∉ spaces) (t : Text) :
    skipSpace (w ++ c :: t) = c :: t := by rw [skipSpace_append hw, skipSpace_cons hc]

/-- A number ends at white space, and at what ends it without. -/
theorem detached_append (hw : Blank w) (h : Detached t) : Detached (w ++ t) := by
  cases w with
  | nil => exact h
  | cons b w =>
    have hb : ∀ c ∈ spaces, c.isDigit = false ∧ c ≠ '.' ∧ c ≠ 'e' ∧ c ≠ 'E' := by simp [spaces]
    rintro c hc
    exact Option.some.inj hc ▸ hb b (hw b List.mem_cons_self)

/-- A comma or a bracket ends what stands before it, also behind white space. -/
theorem closes (hw : Blank w) (hc : c ∈ [',', ']', '\x7d']) (t : Text) :
    skipSpace (w ++ c :: t) = c :: t ∧ Detached (w ++ c :: t) := by
  have hall : ∀ c ∈ [',', ']', '\x7d'],
      c ∉ spaces ∧ c.isDigit = false ∧ c ≠ '.' ∧ c ≠ 'e' ∧ c ≠ 'E' := by simp [spaces]
  obtain ⟨hsolid, hdet⟩ := hall c hc
  exact ⟨skipSpace_blank hw hsolid t, detached_append hw fun _ hd => Option.some.inj hd ▸ hdet⟩

/-- The text starts with a character that is no white space and closes nothing. -/
def Opens (t : Text) : Prop := ∃ c u, t = c :: u ∧ c ∉ spaces ∧ c ≠ ']' ∧ c ≠ '\x7d'

theorem Opens.append (h : Opens t) (u : Text) : Opens (t ++ u) := by
  obtain ⟨c, t, rfl, hc⟩ := h
  exact ⟨c, t ++ u, rfl, hc⟩

theorem Opens.skipSpace_append (h : Opens t) (hw : Blank w) : skipSpace (w ++ t) = t := by
  obtain ⟨c, t, rfl, hc, -⟩ := h
  exact skipSpace_blank hw hc t

theorem opens_scalarText (h : s.Plain) : Opens (scalarText s) := by
  cases s with
  | null => exact ⟨'n', _, rfl, by decide⟩
  | bool b => cases b <;> exact ⟨_, _, rfl, by decide⟩
  | nat n =>
    obtain ⟨d, ds, hd, hdigit, -⟩ := exists_decimal_eq n
    have hne : ∀ c ∈ spaces ++ [']', '\x7d'], c.isDigit = false := by simp [spaces]
    have hmem : d ∉ spaces ++ [']', '\x7d'] := fun hm => by simp [hne d hm] at hdigit
    exact ⟨d, ds, hd, by simpa [not_or] using hmem⟩
  | minusZero => exact h.elim
  | number => exact h.elim
  | text t => exact ⟨'"', _, rfl, by decide⟩
  | broken t => exact h.elim

theorem Writes.opens (h : Writes d t) : Opens t := by
  cases h with
  | scalar h => exact opens_scalarText h
  | noItems _ => exact ⟨'[', _, rfl, by decide⟩
  | items _ _ => exact ⟨'[', _, rfl, by decide⟩
  | noEntries _ => exact ⟨'\x7b', _, rfl, by decide⟩
  | entries _ _ => exact ⟨'\x7b', _, rfl, by decide⟩

theorem WritesItems.opens (h : WritesItems ds u) : Opens u := by
  cases h with
  | last h _ => exact h.opens.append _
  | next h _ _ _ => exact h.opens.append _

theorem WritesEntry.opens (h : WritesEntry e t) : Opens t := by
  cases h
  exact ⟨'"', _, rfl, by decide⟩

theorem WritesEntries.opens (h : WritesEntries es u) : Opens u := by
  cases h with
  | last h _ => exact h.opens.append _
  | next h _ _ _ => exact h.opens.append _

/-! ## Reading -/

/-- What a bracket opens is a sequence of what is read behind it. -/
theorem readValue_items (ht : skipSpace t = u) (hu : Opens u) :
    readValue (n + 1) ('[' :: t) = (readItems n u).map fun (ds, rest) => (.seq ds, rest) := by
  obtain ⟨c, u, rfl, -, hc, -⟩ := hu
  rw [readValue, ht]
  split
  · next he => exact absurd (List.cons.inj he).1 hc
  · rfl

/-- What a brace opens is a map of what is read behind it. -/
theorem readValue_entries (ht : skipSpace t = u) (hu : Opens u) :
    readValue (n + 1) ('\x7b' :: t) = (readEntries n u).map fun (es, rest) => (.map es, rest) := by
  obtain ⟨c, u, rfl, -, -, hc⟩ := hu
  rw [readValue, ht]
  split
  · next he => exact absurd (List.cons.inj he).1 hc
  · rfl

theorem readItems_last (hread : readValue n t = some (d, u)) (hu : skipSpace u = ']' :: rest) :
    readItems (n + 1) t = some ([d], rest) := by
  rw [readItems, hread]
  simp only [hu]

theorem readItems_next (hread : readValue n t = some (d, u)) (hu : skipSpace u = ',' :: v) :
    readItems (n + 1) t =
      (readItems n (skipSpace v)).map fun (ds, rest) => (d :: ds, rest) := by
  rw [readItems, hread]
  simp only [hu]

section
variable {key : Scalar} (hkey : readString t = some (key, v)) (hcolon : skipSpace v = ':' :: w)
  (hread : readValue n (skipSpace w) = some (d, u))
include hkey hcolon hread

theorem readEntries_last (hu : skipSpace u = '\x7d' :: rest) :
    readEntries (n + 1) ('"' :: t) = some ([(.scalar key, d)], rest) := by
  rw [readEntries, hkey]
  simp only [hcolon, hread, hu]

theorem readEntries_next {u' : Text} (hu : skipSpace u = ',' :: u') :
    readEntries (n + 1) ('"' :: t) =
      (readEntries n (skipSpace u')).map fun (es, rest) => ((.scalar key, d) :: es, rest) := by
  rw [readEntries, hkey]
  simp only [hcolon, hread, hu]

end

/-- A scalar is read back. -/
theorem readValue_scalarText (h : s.Plain) (hrest : Detached rest) :
    readValue (n + 1) (scalarText s ++ rest) = some (.scalar s, rest) := by
  cases s with
  | null => rfl
  | bool b => cases b <;> rfl
  | nat m =>
    have hread := readPlain_decimal h hrest
    obtain ⟨d, ds, hd, hdigit, -⟩ := exists_decimal_eq m
    have hplain : ∀ c, c.isDigit = false → ∀ t, d :: (ds ++ rest) = c :: t → False := by
      intro c hc t he
      rw [(List.cons.inj he).1, hc] at hdigit
      cases hdigit
    rw [hd, List.cons_append] at hread
    rw [scalarText, hd, List.cons_append, readValue, hread]
    · rfl
    · exact hplain _ rfl
    · exact hplain _ rfl
    · exact hplain _ rfl
  | minusZero => exact h.elim
  | number => exact h.elim
  | text t =>
    have hread := readString_flatMap t rest
    rw [scalarText, quoted, List.cons_append, List.cons_append, List.append_assoc, readValue]
    rw [List.singleton_append, hread]
    rfl
  | broken t => exact h.elim

/-- What is written in fewer than `n` characters is read back. -/
structure ReadsBack (n : Nat) : Prop where
  value : ∀ {d t rest}, Writes d t → t.length < n → Detached rest →
    readValue n (t ++ rest) = some (d, rest)
  items : ∀ {ds u rest}, WritesItems ds u → u.length < n →
    readItems n (u ++ rest) = some (ds, rest)
  entries : ∀ {es u rest}, WritesEntries es u → u.length < n →
    readEntries n (u ++ rest) = some (es, rest)

theorem ReadsBack.value_succ (ih : ReadsBack n) (h : Writes d t) (hn : t.length < n + 1)
    (hrest : Detached rest) : readValue (n + 1) (t ++ rest) = some (d, rest) := by
  cases h with
  | scalar h => exact readValue_scalarText h hrest
  | @noItems w hw =>
    obtain ⟨hspace, -⟩ := closes hw (c := ']') (by decide) rest
    rw [List.cons_append, List.append_assoc, readValue, List.singleton_append, hspace]
    rfl
  | @items w u ds hw h =>
    have hlen : u.length < n := by
      simp at hn
      omega
    have hopens := h.opens.append rest
    rw [List.cons_append, List.append_assoc, readValue_items (hopens.skipSpace_append hw) hopens,
      ih.items h hlen]
    rfl
  | @noEntries w hw =>
    obtain ⟨hspace, -⟩ := closes hw (c := '\x7d') (by decide) rest
    rw [List.cons_append, List.append_assoc, readValue, List.singleton_append, hspace]
    rfl
  | @entries w u es hw h =>
    have hlen : u.length < n := by
      simp at hn
      omega
    have hopens := h.opens.append rest
    rw [List.cons_append, List.append_assoc, readValue_entries (hopens.skipSpace_append hw) hopens,
      ih.entries h hlen]
    rfl

theorem ReadsBack.items_succ (ih : ReadsBack n) (h : WritesItems ds u) (hn : u.length < n + 1) :
    readItems (n + 1) (u ++ rest) = some (ds, rest) := by
  cases h with
  | @last d t w h hw =>
    have hlen : t.length < n := by
      simp at hn
      omega
    obtain ⟨hspace, hdet⟩ := closes hw (c := ']') (by decide) rest
    rw [List.append_assoc, List.append_assoc, List.singleton_append,
      readItems_last (ih.value h hlen hdet) hspace]
  | @next d ds t v w u h hv hw hds =>
    have hlen : t.length < n ∧ u.length < n := by
      simp at hn
      omega
    obtain ⟨hspace, hdet⟩ := closes hv (c := ',') (by decide) (w ++ (u ++ rest))
    have hbehind := (hds.opens.append rest).skipSpace_append hw
    simp only [List.append_assoc, List.cons_append]
    rw [readItems_next (ih.value h hlen.1 hdet) hspace, hbehind, ih.items hds hlen.2]
    rfl

/-- A key is read back, and what stands behind its colon is read as its value. -/
theorem ReadsBack.entry (ih : ReadsBack n) (h : WritesEntry e t) (hn : t.length < n)
    (hrest : Detached rest) : ∃ key t' v w, t ++ rest = '"' :: t' ∧ readString t' = some (key, v) ∧
      skipSpace v = ':' :: w ∧ readValue n (skipSpace w) = some (e.2, rest) ∧ e.1 = .scalar key := by
  cases h with
  | @entry k d t v w hv hw h =>
    have hlen : t.length < n := by
      simp at hn
      omega
    refine ⟨.text k, k.flatMap escapeChar ++ '"' :: (v ++ ':' :: (w ++ (t ++ rest))), _,
      w ++ (t ++ rest), ?_, readString_flatMap .., skipSpace_blank hv (by decide) _, ?_, rfl⟩
    · simp [quoted]
    · rw [(h.opens.append rest).skipSpace_append hw]
      exact ih.value h hlen hrest

theorem ReadsBack.entries_succ (ih : ReadsBack n) (h : WritesEntries es u) (hn : u.length < n + 1) :
    readEntries (n + 1) (u ++ rest) = some (es, rest) := by
  cases h with
  | @last e t w h hw =>
    have hlen : t.length < n := by
      simp at hn
      omega
    obtain ⟨hspace, hdet⟩ := closes hw (c := '\x7d') (by decide) rest
    obtain ⟨key, t', v, w', ht, hkey, hcolon, hread, he⟩ := ih.entry h hlen hdet
    obtain ⟨_, d⟩ := e
    obtain rfl : _ = Data.scalar key := he
    rw [List.append_assoc, List.append_assoc, List.singleton_append, ht,
      readEntries_last hkey hcolon hread hspace]
  | @next e es t v w u h hv hw hes =>
    have hlen : t.length < n ∧ u.length < n := by
      simp at hn
      omega
    obtain ⟨hspace, hdet⟩ := closes hv (c := ',') (by decide) (w ++ (u ++ rest))
    obtain ⟨key, t', v', w', ht, hkey, hcolon, hread, he⟩ := ih.entry h hlen.1 hdet
    have hbehind := (hes.opens.append rest).skipSpace_append hw
    obtain ⟨_, d⟩ := e
    obtain rfl : _ = Data.scalar key := he
    simp only [List.append_assoc, List.cons_append]
    rw [ht, readEntries_next hkey hcolon hread hspace, hbehind, ih.entries hes hlen.2]
    rfl

/-- Whatever is written is read back. -/
theorem readsBack (n : Nat) : ReadsBack n := by
  induction n with
  | zero => exact ⟨fun _ hn => absurd hn (Nat.not_lt_zero _), fun _ hn => absurd hn (Nat.not_lt_zero _),
      fun _ hn => absurd hn (Nat.not_lt_zero _)⟩
  | succ n ih => exact ⟨ih.value_succ, ih.items_succ, ih.entries_succ⟩

/-- A text that is a value written in some way is read as that value. -/
theorem Writes.read?_eq (h : Writes d t) (hv : Blank v) (hw : Blank w) :
    read? (v ++ t ++ w) = some d := by
  have hspace : skipSpace (v ++ t ++ w) = t ++ w := by
    rw [List.append_assoc]
    exact (h.opens.append w).skipSpace_append hv
  have hdet : Detached w := by simpa using detached_append hw (t := []) (fun _ h => by cases h)
  have hend : skipSpace w = [] := by simpa [skipSpace] using skipSpace_append hw []
  have hlen : t.length < 2 * (v ++ t ++ w).length + 2 := by
    simp
    omega
  rw [read?, hspace, (readsBack _).value h hlen hdet]
  simp [hend]

end

/-! ## Layouts -/

mutual

theorem writes_compact : ∀ d : Data, d.Plain → Writes d (compact d)
  | .scalar _, h => .scalar h
  | .seq [], _ => .noItems blank_nil
  | .seq (d :: ds), h => .items (w := []) blank_nil (writesItems_compact (d :: ds) (by simp) h)
  | .map [], _ => .noEntries blank_nil
  | .map (e :: es), h => .entries (w := []) blank_nil (writesEntries_compact (e :: es) (by simp) h)

theorem writesItems_compact : ∀ ds : List Data, ds ≠ [] → Data.PlainItems ds →
    WritesItems ds (compactItems ds ++ [']'])
  | [], hne, _ => absurd rfl hne
  | [d], _, h => .last (writes_compact d h.1) blank_nil
  | d :: d' :: ds, _, h => by
    have := WritesItems.next (writes_compact d h.1) blank_nil blank_nil
      (writesItems_compact (d' :: ds) (by simp) h.2)
    simpa [compactItems] using this

theorem writesEntries_compact : ∀ es : List (Data × Data), es ≠ [] → Data.PlainEntries es →
    WritesEntries es (compactEntries es ++ ['\x7d'])
  | [], hne, _ => absurd rfl hne
  | [e], _, h => .last (writesEntry_compact e h.1) blank_nil
  | e :: e' :: es, _, h => by
    have := WritesEntries.next (writesEntry_compact e h.1) blank_nil blank_nil
      (writesEntries_compact (e' :: es) (by simp) h.2)
    simpa [compactEntries] using this

theorem writesEntry_compact : ∀ e : Data × Data, Data.PlainEntry e → WritesEntry e (compactEntry e)
  | (.scalar (.text _), d), h => .entry blank_nil blank_nil (writes_compact d h)

end

theorem blank_newLine (level : Nat) : Blank (newLine level) := by
  intro c hc
  rcases List.mem_cons.1 hc with rfl | hc
  · decide
  · obtain rfl := List.eq_of_mem_replicate hc
    decide

mutual

theorem writes_pretty : ∀ (d : Data) (level : Nat), d.Plain → Writes d (pretty level d)
  | .scalar _, _, h => .scalar h
  | .seq [], _, _ => .noItems blank_nil
  | .seq (d :: ds), level, h => by
    obtain ⟨u, hu, hw⟩ := writesItems_pretty (d :: ds) level (level + 1) (by simp) h
    have := Writes.items (blank_newLine (level + 1)) hw
    rwa [← hu] at this
  | .map [], _, _ => .noEntries blank_nil
  | .map (e :: es), level, h => by
    obtain ⟨u, hu, hw⟩ := writesEntries_pretty (e :: es) level (level + 1) (by simp) h
    have := Writes.entries (blank_newLine (level + 1)) hw
    rwa [← hu] at this

theorem writesItems_pretty : ∀ (ds : List Data) (outer level : Nat), ds ≠ [] → Data.PlainItems ds →
    ∃ u, prettyItems level ds ++ newLine outer ++ [']'] = newLine level ++ u ∧ WritesItems ds u
  | [], _, _, hne, _ => absurd rfl hne
  | [d], outer, level, _, h =>
    ⟨_, by simp [prettyItems], .last (writes_pretty d level h.1) (blank_newLine outer)⟩
  | d :: d' :: ds, outer, level, _, h => by
    obtain ⟨u, hu, hw⟩ := writesItems_pretty (d' :: ds) outer level (by simp) h.2
    refine ⟨_, ?_, .next (writes_pretty d level h.1) blank_nil (blank_newLine level) hw⟩
    simp [prettyItems, ← hu]

theorem writesEntries_pretty : ∀ (es : List (Data × Data)) (outer level : Nat), es ≠ [] →
    Data.PlainEntries es → ∃ u, prettyEntries level es ++ newLine outer ++ ['\x7d'] =
      newLine level ++ u ∧ WritesEntries es u
  | [], _, _, hne, _ => absurd rfl hne
  | [e], outer, level, _, h =>
    ⟨_, by simp [prettyEntries], .last (writesEntry_pretty e level h.1) (blank_newLine outer)⟩
  | e :: e' :: es, outer, level, _, h => by
    obtain ⟨u, hu, hw⟩ := writesEntries_pretty (e' :: es) outer level (by simp) h.2
    refine ⟨_, ?_, .next (writesEntry_pretty e level h.1) blank_nil (blank_newLine level) hw⟩
    simp [prettyEntries, ← hu]

theorem writesEntry_pretty : ∀ (e : Data × Data) (level : Nat), Data.PlainEntry e →
    WritesEntry e (prettyEntry level e)
  | (.scalar (.text k), d), level, h => by
    have hblank : Blank [' '] := fun c hc => List.mem_singleton.1 hc ▸ by decide
    have := WritesEntry.entry (k := k) blank_nil hblank (writes_pretty d level h)
    simpa [prettyEntry, pretty, scalarText, Data.ofText] using this

end

/-- The compact layout of a plain value is read as that value. -/
theorem read?_compact {d : Data} (h : d.Plain) : read? (compact d) = some d := by
  simpa using (writes_compact d h).read?_eq blank_nil blank_nil

/-- The pretty layout of a plain value is read as that value. -/
theorem read?_pretty {d : Data} (h : d.Plain) (level : Nat) : read? (pretty level d) = some d := by
  simpa using (writes_pretty d level h).read?_eq blank_nil blank_nil

end Json

end GlyphTree
