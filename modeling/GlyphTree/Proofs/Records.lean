import GlyphTree.Proofs.Making
import GlyphTree.Proofs.Runs

/-!
# Reading records

A row of records is cut at one separator and each of its pieces at the first of another
(`records_eq_ok_iff`), so records that hold no separator where they must not are read back as they
were written (`records_write`). The tree of the records is what they say: the further ones are the
nodes after the root, in order, each hidden on the next placeholder of the root's text
(`describes_recorded`).
-/

namespace GlyphTree

namespace Text

variable {sep g : Char} {t a b : Text}

theorem splitAt_eq_splitOn (sep : Char) (t : Text) : splitAt sep t = List.splitOn sep t := by
  induction t with
  | nil => rfl
  | cons c t ih =>
    rw [splitAt, List.splitOn_cons_eq_if_modifyHead, ih]
    obtain ⟨piece, pieces, h⟩ := List.exists_cons_of_ne_nil (List.splitOn_ne_nil sep t)
    by_cases hc : c = sep <;> simp [hc, h]

theorem splitOnce_append (h : sep ∉ a) (b : Text) :
    splitOnce sep (a ++ sep :: b) = some (a, b) := by
  induction a with
  | nil => simp [splitOnce]
  | cons c a ih =>
    rw [List.mem_cons, not_or] at h
    simp [splitOnce, Ne.symm h.1, ih h.2]

theorem splitOnce_of_not_mem (h : sep ∉ t) : splitOnce sep t = none := by
  induction t with
  | nil => rfl
  | cons c t ih =>
    rw [List.mem_cons, not_or] at h
    simp [splitOnce, Ne.symm h.1, ih h.2]

/-- A text is cut at its first separator. -/
theorem splitOnce_eq_some_iff : splitOnce sep t = some (a, b) ↔ t = a ++ sep :: b ∧ sep ∉ a := by
  constructor
  · intro h
    by_cases hmem : sep ∈ t
    · obtain ⟨a', b', rfl, ha⟩ := List.eq_append_cons_of_mem hmem
      cases (splitOnce_append ha b').symm.trans h
      exact ⟨rfl, ha⟩
    · cases (splitOnce_of_not_mem hmem).symm.trans h
  · rintro ⟨rfl, ha⟩
    exact splitOnce_append ha b

/-- A character is found as often as it stands in the text. -/
theorem length_occurrences_singleton (g : Char) (t : Text) :
    (occurrences [g] t).length = t.count g := by
  suffices h : ∀ o, (occurrencesFrom [g] 0 o t).length = t.count g from h 0
  induction t with
  | nil => simp [occurrencesFrom]
  | cons c t ih =>
    intro o
    rw [occurrencesFrom_singleton_cons]
    by_cases hc : g = c
    · simp [← hc, ih]
    · simp [hc, Ne.symm hc, ih]

/-- Where a character is found: behind the bytes of what is before it, from left to right. -/
theorem exists_of_getElem?_occurrences {i n : Nat} (h : (occurrences [g] t)[i]? = some n) :
    ∃ a b, t = a ++ g :: b ∧ a.count g = i ∧ n = a.byteSize := by
  suffices hfrom : ∀ o, (occurrencesFrom [g] 0 o t)[i]? = some n →
      ∃ a b, t = a ++ g :: b ∧ a.count g = i ∧ n = o + a.byteSize by
    obtain ⟨a, b, ht, hcount, hn⟩ := hfrom 0 h
    exact ⟨a, b, ht, hcount, hn.trans (Nat.zero_add _)⟩
  clear h
  induction t generalizing i with
  | nil => simp [occurrencesFrom]
  | cons c t ih =>
    intro o h
    rw [occurrencesFrom_singleton_cons] at h
    by_cases hc : g = c
    · subst hc
      cases i with
      | zero => exact ⟨[], t, rfl, rfl, by simpa [eq_comm] using h⟩
      | succ i =>
        obtain ⟨a, b, rfl, hcount, hn⟩ := ih (o + g.utf8Size) (by simpa using h)
        exact ⟨g :: a, b, rfl, by simp [hcount], by simp [hn, Nat.add_assoc]⟩
    · obtain ⟨a, b, rfl, hcount, hn⟩ := ih (o + c.utf8Size) (by simpa [hc] using h)
      exact ⟨c :: a, b, rfl, by simp [Ne.symm hc, hcount], by simp [hn, Nat.add_assoc]⟩

end Text

/-! ## Records as text -/

theorem bind_eq_ok_iff {ε α β : Type} {m : Except ε α} {k : α → Except ε β} {y : β} :
    m >>= k = .ok y ↔ ∃ x, m = .ok x ∧ k x = .ok y := by
  cases m <;> simp [bind, Except.bind]

/-- All calls of a loop that ends without an error give a result. -/
theorem mapM_eq_ok_iff {ε α β : Type} {f : α → Except ε β} {xs : List α} {ys : List β} :
    xs.mapM f = .ok ys ↔ List.Forall₂ (fun x y => f x = .ok y) xs ys := by
  induction xs generalizing ys with
  | nil => cases ys <;> simp [pure, Except.pure]
  | cons x xs ih =>
    simp only [List.mapM_cons, bind_eq_ok_iff, ih, pure, Except.pure, Except.ok.injEq,
      List.forall₂_cons_left_iff, eq_comm (b := ys)]
    simp

namespace RecordSyntax

variable {s : RecordSyntax} {serialized : Text} {rs : List (Text × Text)}

/-- The text of a record, up to where it is separated from the next. -/
def piece (s : RecordSyntax) (r : Text × Text) : Text := r.1 ++ s.fieldSep :: r.2

/-- A row of records. -/
def write (s : RecordSyntax) (rs : List (Text × Text)) : Text :=
  rs.flatMap fun r => s.piece r ++ [s.recordSep]

@[simp] theorem write_nil : s.write [] = [] := rfl

@[simp] theorem write_cons (r : Text × Text) (rs : List (Text × Text)) :
    s.write (r :: rs) = s.piece r ++ s.recordSep :: s.write rs := by
  simp [write]

/-- The pieces of a row of records that hold anything. -/
def pieces (s : RecordSyntax) (serialized : Text) : List Text :=
  (List.splitOn s.recordSep serialized).filter (· ≠ [])

/-- A record whose name ends at the first field separator. -/
def Parses (s : RecordSyntax) (piece : Text) (r : Text × Text) : Prop :=
  piece = s.piece r ∧ s.fieldSep ∉ r.1

/-- A record that its separators set off from others, and its name from its text. -/
structure Separable (s : RecordSyntax) (r : Text × Text) : Prop where
  name_field : s.fieldSep ∉ r.1
  name_record : s.recordSep ∉ r.1
  text_record : s.recordSep ∉ r.2

instance (s : RecordSyntax) (r : Text × Text) : Decidable (s.Separable r) :=
  decidable_of_iff (s.fieldSep ∉ r.1 ∧ s.recordSep ∉ r.1 ∧ s.recordSep ∉ r.2)
    ⟨fun h => ⟨h.1, h.2.1, h.2.2⟩, fun h => ⟨h.name_field, h.name_record, h.text_record⟩⟩

theorem parses_iff {piece : Text} {r : Text × Text} :
    s.Parses piece r ↔ Text.splitOnce s.fieldSep piece = some r := Text.splitOnce_eq_some_iff.symm

/-- Records are what the pieces that hold anything parse as. -/
theorem records_eq_ok_iff :
    s.records serialized = .ok rs ↔ List.Forall₂ s.Parses (s.pieces serialized) rs := by
  have hpieces : (Text.splitAt s.recordSep serialized).filter (!·.isEmpty) =
      s.pieces serialized := by
    rw [Text.splitAt_eq_splitOn, pieces]
    exact List.filter_congr fun piece _ => by cases piece <;> rfl
  rw [records, hpieces, mapM_eq_ok_iff]
  refine iff_of_eq (congrArg (List.Forall₂ · _ _) (funext₂ fun piece r => propext ?_))
  rw [parses_iff]
  cases Text.splitOnce s.fieldSep piece <;> simp

theorem pieces_append {piece : Text} (hne : piece ≠ []) (hpiece : s.recordSep ∉ piece)
    (others : Text) :
    s.pieces (piece ++ s.recordSep :: others) = piece :: s.pieces others := by
  rw [pieces, List.splitOn_append_cons_self_of_not_mem hpiece,
    List.filter_cons_of_pos (by simpa using hne), pieces]

theorem pieces_write (hsep : s.fieldSep ≠ s.recordSep) (h : ∀ r ∈ rs, s.Separable r) :
    s.pieces (s.write rs) = rs.map s.piece := by
  induction rs with
  | nil => simp [pieces]
  | cons r rs ih =>
    obtain ⟨hr, hrs⟩ := List.forall_mem_cons.1 h
    have hpiece : s.recordSep ∉ s.piece r := by
      simp [piece, hr.name_record, hr.text_record, Ne.symm hsep]
    rw [write_cons, pieces_append (by simp [piece]) hpiece, ih hrs, List.map_cons]

/-- Records are read as they were written. -/
theorem records_write (hsep : s.fieldSep ≠ s.recordSep) (h : ∀ r ∈ rs, s.Separable r) :
    s.records (s.write rs) = .ok rs := by
  rw [records_eq_ok_iff, pieces_write hsep h, List.forall₂_map_left_iff, List.forall₂_same]
  exact fun r hr => ⟨rfl, (h r hr).name_field⟩

/-- There are records where every piece has a field separator. -/
theorem exists_records_iff : (∃ rs, s.records serialized = .ok rs) ↔
    ∀ piece ∈ s.pieces serialized, s.fieldSep ∈ piece := by
  simp only [records_eq_ok_iff]
  induction s.pieces serialized with
  | nil => simp
  | cons piece pieces ih =>
    rw [List.forall_mem_cons, ← ih]
    constructor
    · rintro ⟨_, hrs⟩
      cases hrs with
      | cons h hrest => exact ⟨by simp [h.1, RecordSyntax.piece], _, hrest⟩
    · rintro ⟨hmem, rs, hrest⟩
      obtain ⟨name, text, rfl, hname⟩ := List.eq_append_cons_of_mem hmem
      exact ⟨(name, text) :: rs, .cons ⟨rfl, hname⟩ hrest⟩

end RecordSyntax

/-! ## The tree of records -/

namespace Cells

/-- A text whose placeholders stand for nodes reads with what they stand for in their places. -/
theorem fill_slotted {g : Char} {r : NodeId → Text} {u : Text} {ids : List NodeId}
    (h : u.count g = ids.length) :
    fill r (slotted g u ids) = Text.alternate (List.splitOn g u) (ids.map r) := by
  induction u generalizing ids with
  | nil =>
    obtain rfl := List.length_eq_zero_iff.1 h.symm
    rfl
  | cons c u ih =>
    rw [slotted, List.splitOn_cons_eq_if_modifyHead]
    by_cases hc : g = c
    · subst hc
      cases ids with
      | nil => simp at h
      | cons i ids =>
        have hrest : fill r (slotted g u ids) = _ := ih (by simpa using h)
        simp [Text.alternate, hrest]
    · have hrest : fill r (slotted g u ids) = _ := ih (by simpa [Ne.symm hc] using h)
      have halt := Text.alternate_modifyHead [c] (List.splitOn_ne_nil g u) (ids.map r)
      simpa [hc, Ne.symm hc, hrest] using halt.symm

end Cells

namespace Tree

variable {t : Tree} {g : Char} {first : Text × Text} {rest : List (Text × Text)}

/-- What the children put into a tree one after the other do to its nodes. -/
theorem node_addChildren (width : Nat) (children : List ((Text × Text) × Nat))
    (hroot : root < t.size) :
    let t' := children.foldl (addChild width) t
    t'.size = t.size + children.length ∧
    t'.node root =
      { t.node root with children := t.children root ++ List.range' t.size children.length } ∧
    (∀ j, j < t.size → j ≠ root → t'.node j = t.node j) ∧
    ∀ (i : Nat) name text start, children[i]? = some ((name, text), start) →
      t'.node (t.size + i) =
        ⟨name, text, some ⟨root, ⟨start, start + width⟩⟩, none, none, [], []⟩ := by
  induction children generalizing t with
  | nil => simp [children]
  | cons child children ih =>
    obtain ⟨⟨name, text⟩, start⟩ := child
    obtain ⟨hsize, htop, hold, hnew⟩ := ih (t := addChild width t ((name, text), start)) (by simp)
    rw [size_addChild] at hsize htop hold hnew
    simp only [List.foldl_cons, List.length_cons]
    refine ⟨hsize.trans (by omega), ?_, fun j hj hjr => ?_, fun i name' text' start' hi => ?_⟩
    · rw [htop, children_addChild hroot, if_pos rfl, node_addChild hroot,
        if_neg (Nat.ne_of_lt hroot), if_pos rfl]
      simp [List.range'_succ]
    · rw [hold j (by omega) hjr, node_addChild hroot, if_neg (Nat.ne_of_lt hj), if_neg hjr]
    · cases i with
      | zero =>
        cases hi
        rw [Nat.add_zero, hold t.size (by omega) (Nat.ne_of_gt hroot), node_addChild hroot,
          if_pos rfl]
      | succ i =>
        rw [← hnew i _ _ _ hi, Nat.add_right_comm]
        rfl

/-- A node of a record that is hidden on a placeholder of the root's text, the one that has `i`
others before it. -/
def HiddenOn (g : Char) (top : Text) (i : Nat) (r : Text × Text) (n : Node) : Prop :=
  ∃ before after, top = before ++ g :: after ∧ before.count g = i ∧
    n = ⟨r.1, r.2, some ⟨root, ⟨before.byteSize, before.byteSize + g.utf8Size⟩⟩, none, none, [], []⟩

/-- What a row of records says of the tree it describes: the root is the first record, and the nodes
after it are the further ones, each hidden on the next placeholder. -/
structure Describes (g : Char) (first : Text × Text) (rest : List (Text × Text)) (t : Tree) :
    Prop where
  size : t.size = rest.length + 1
  top : t.node root = ⟨first.1, first.2, none, none, none, List.range' 1 rest.length, []⟩
  child : ∀ (i : Nat) r, rest[i]? = some r → HiddenOn g first.2 i r (t.node (i + 1))
  expandedText : t.expandedText root =
    some (Text.alternate (List.splitOn g first.2) (rest.map Prod.snd))

section
variable (hlen : (Text.occurrences [g] first.2).length = rest.length)
include hlen

theorem node_recorded :
    (recorded g first rest).size = rest.length + 1 ∧
      (recorded g first rest).node root =
        ⟨first.1, first.2, none, none, none, List.range' 1 rest.length, []⟩ ∧
      ∀ (i : Nat) r, rest[i]? = some r →
        HiddenOn g first.2 i r ((recorded g first rest).node (i + 1)) := by
  have hone : ((ofText first.2).rename root first.1).size = 1 := size_rename ..
  have htop : ((ofText first.2).rename root first.1).node root =
      ⟨first.1, first.2, none, none, none, [], []⟩ := by
    rw [node_rename, if_pos ⟨rfl, Nat.zero_lt_one⟩]
    rfl
  obtain ⟨hsize, hroot, -, hchild⟩ := node_addChildren g.utf8Size
    (rest.zip (Text.occurrences [g] first.2)) (hone ▸ Nat.zero_lt_one : root < _)
  rw [← recorded, hone, List.length_zip, hlen, Nat.min_self] at hsize hroot
  rw [← recorded, hone] at hchild
  refine ⟨hsize.trans (Nat.add_comm ..), ?_, fun i r hi => ?_⟩
  · rw [hroot, children, htop, List.nil_append]
  · obtain ⟨n, hn⟩ : ∃ n, (Text.occurrences [g] first.2)[i]? = some n :=
      ⟨_, List.getElem?_eq_getElem (hlen ▸ (List.getElem?_eq_some_iff.1 hi).1)⟩
    obtain ⟨before, after, ht, hbefore, rfl⟩ := Text.exists_of_getElem?_occurrences hn
    refine ⟨before, after, ht, hbefore, ?_⟩
    rw [Nat.add_comm]
    exact hchild i r.1 r.2 _ (List.getElem?_zip_eq_some.2 ⟨hi, hn⟩)

/-- The further nodes have no children, so that they stand for their texts. -/
theorem reading_recorded :
    (List.range' 1 rest.length).map (recorded g first rest).reading = rest.map Prod.snd := by
  obtain ⟨hsize, -, hchild⟩ := node_recorded hlen
  have hs := (wellFormed_recorded g first rest).1.shaped
  refine List.ext_getElem (by simp) fun i hi _ => ?_
  rw [List.length_map, List.length_range'] at hi
  obtain ⟨before, after, -, -, hnode⟩ := hchild i _ (List.getElem?_eq_getElem hi)
  have hlt : i + 1 < (recorded g first rest).size := hsize ▸ Nat.succ_lt_succ hi
  have hread := hs.reading_of_childless hlt (by rw [children, hnode])
  simp [Nat.add_comm 1 i, hread, hnode]

/-- The tree made of records is the one that they describe. -/
theorem describes_recorded : Describes g first rest (recorded g first rest) := by
  obtain ⟨hw, hl⟩ := wellFormed_recorded g first rest
  obtain ⟨hsize, htop, hchild⟩ := node_recorded hlen
  have hcount : first.2.count g = (List.range' 1 rest.length).length := by
    rw [← Text.length_occurrences_singleton, hlen, List.length_range']
  refine ⟨hsize, htop, hchild, ?_⟩
  rw [expandedText_eq hw.shaped.root, hw.shaped.reading_eq hl, Cells.fill_slotted hcount,
    reading_recorded hlen]

end

variable {s : RecordSyntax} {serialized : Text}

/-- Records describe a tree if the text of the first has a placeholder for each of the others. -/
theorem exists_ofRecords_of_records (hr : s.records serialized = .ok (first :: rest)) :
    (∃ t, ofRecords s serialized = .ok t) ↔ first.2.count s.placeholder = rest.length := by
  simp [ofRecords_eq_ok_iff, hr, Text.length_occurrences_singleton]

theorem describes_ofRecords (h : ofRecords s serialized = .ok t)
    (hr : s.records serialized = .ok (first :: rest)) : Describes s.placeholder first rest t := by
  obtain ⟨first', rest', hr', hlen, rfl⟩ := ofRecords_eq_ok_iff.1 h
  cases hr.symm.trans hr'
  exact describes_recorded hlen

/-- The rows that describe a tree. -/
theorem exists_ofRecords_iff : (∃ t, ofRecords s serialized = .ok t) ↔
    (∀ piece ∈ s.pieces serialized, s.fieldSep ∈ piece) ∧
    ∃ name text others, s.pieces serialized = (name ++ s.fieldSep :: text) :: others ∧
      s.fieldSep ∉ name ∧ text.count s.placeholder = others.length := by
  rw [← RecordSyntax.exists_records_iff]
  constructor
  · rintro ⟨t, ht⟩
    obtain ⟨⟨name, text⟩, rest, hr, -, -⟩ := ofRecords_eq_ok_iff.1 ht
    have hcount := (exists_ofRecords_of_records hr).1 ⟨t, ht⟩
    have hrecords := RecordSyntax.records_eq_ok_iff.1 hr
    obtain ⟨piece, others, ⟨rfl, hname⟩, hrest, hpieces⟩ := List.forall₂_cons_right_iff.1 hrecords
    exact ⟨⟨_, hr⟩, name, text, others, hpieces, hname, hcount.trans hrest.length_eq.symm⟩
  · rintro ⟨⟨rs, hr⟩, name, text, others, hpieces, hname, hcount⟩
    have hrecords := RecordSyntax.records_eq_ok_iff.1 hr
    rw [hpieces, List.forall₂_cons_left_iff] at hrecords
    obtain ⟨first, rest, hparse, hrest, rfl⟩ := hrecords
    have hfirst : s.Parses (name ++ s.fieldSep :: text) (name, text) := ⟨rfl, hname⟩
    rw [RecordSyntax.parses_iff] at hparse hfirst
    cases hparse.symm.trans hfirst
    exact (exists_ofRecords_of_records hr).2 (hcount.trans hrest.length_eq)

/-- What is written is read back. -/
theorem ofRecords_write (hsep : s.fieldSep ≠ s.recordSep) (h : ∀ r ∈ first :: rest, s.Separable r)
    (hcount : first.2.count s.placeholder = rest.length) :
    ∃ t, ofRecords s (s.write (first :: rest)) = .ok t ∧ Describes s.placeholder first rest t := by
  have hr := RecordSyntax.records_write hsep h
  obtain ⟨t, ht⟩ := (exists_ofRecords_of_records hr).2 hcount
  exact ⟨t, ht, describes_ofRecords ht hr⟩

/-- A row of records describes a tree just if every piece of it that holds anything has a field
separator and the text of the first has one placeholder for each of the others. From records that
their separators set off, written one after the other, comes the tree that they describe. -/
theorem ofRecords_parses_what_is_written (s : RecordSyntax) :
    (∀ serialized, (∃ t, ofRecords s serialized = .ok t) ↔
      (∀ piece ∈ s.pieces serialized, s.fieldSep ∈ piece) ∧
      ∃ name text others, s.pieces serialized = (name ++ s.fieldSep :: text) :: others ∧
        s.fieldSep ∉ name ∧ text.count s.placeholder = others.length) ∧
    (s.fieldSep ≠ s.recordSep → ∀ first rest, (∀ r ∈ first :: rest, s.Separable r) →
      first.2.count s.placeholder = rest.length →
      ∃ t, ofRecords s (s.write (first :: rest)) = .ok t ∧
        Describes s.placeholder first rest t) :=
  ⟨fun _ => exists_ofRecords_iff, fun hsep _ _ => ofRecords_write hsep⟩

/-- A placeholder in the text of a child stays where it is. -/
theorem ofRecords_parses_groot : ∃ t,
    ofRecords ⟨':', ';', '¤'⟩ "Groot:AAA¤BBB¤;comment:X;comment:Y¤;" = .ok t ∧
      t.expandedText root = some "AAAXBBBY¤" := by
  obtain ⟨t, ht, hdescribes⟩ := (ofRecords_parses_what_is_written ⟨':', ';', '¤'⟩).2 (by decide)
    ("Groot", "AAA¤BBB¤") [("comment", "X"), ("comment", "Y¤")] (by decide) (by decide)
  exact ⟨t, ht, hdescribes.expandedText⟩

end Tree

end GlyphTree
