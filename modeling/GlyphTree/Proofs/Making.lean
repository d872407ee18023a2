import GlyphTree.Proofs.Editing
import GlyphTree.Tree.Records

/-!
# Trees at the start

A tree made of a text is well-formed, and so is one made of records: the children are put on the
placeholders of the root's text from left to right, so at each step the cells before the next
placeholder are marked and those behind it are not.
-/

namespace GlyphTree

/-- A text in which each `g` is the glyph of the next of some nodes, as long as there are any. -/
def Cells.slotted (g : Char) : Text → List NodeId → Cells
  | [], _ => []
  | c :: u, ids =>
    if g = c then ⟨c, ids.head?.map .glyph⟩ :: slotted g u ids.tail
    else ⟨c, none⟩ :: slotted g u ids

@[simp] theorem Cells.slotted_nil (g : Char) (u : Text) : slotted g u [] = plain u := by
  induction u with
  | nil => rfl
  | cons c u ih =>
    rw [slotted, List.tail_nil, ih]
    split <;> rfl

namespace Tree

open Cells

variable {t : Tree} {a : Cells} {u : Text} {g : Char}

/-! ## A text -/

theorem layout_ofText (text : Text) (config : Config) :
    Layout (ofText text config) root (plain text) := by
  have hnode : (ofText text config).node root = ⟨[], text, none, none, none, [], []⟩ := rfl
  refine ⟨Nat.zero_lt_one, ?_, ?_, fits_plain _, nested_plain _, by simp⟩
  · rw [hnode, text_plain]
  · rw [children, hnode, starts_plain]

/-- The tree of a text is well-formed, and stands for the text. -/
theorem wellFormed_ofText (text : Text) (config : Config) :
    WellFormed (ofText text config) ∧ (ofText text config).expandedText root = some text := by
  have hsize : (ofText text config).size = 1 := rfl
  have hroot : ∀ {q}, q < (ofText text config).size → q = root := fun hq => Nat.lt_one_iff.1 hq
  -- neither the root nor any number that no node has lists anything or is unfolded
  have hempty : ∀ q, (ofText text config).below q = [] ∧
      ((ofText text config).node q).isUnfolded = false := by
    intro q
    rcases Nat.lt_or_ge q (ofText text config).size with hq | hq
    · rw [hroot hq]
      exact ⟨rfl, rfl⟩
    · rw [below, children, expandedChildren, node_eq_default hq]
      exact ⟨rfl, rfl⟩
  have hnil : ∀ {q c : NodeId}, c ∉ (ofText text config).below q := by
    intro q c hc
    rw [(hempty q).1] at hc
    cases hc
  have hs : Shaped (ofText text config) := by
    refine ⟨Nat.zero_lt_one, rfl, rfl, fun p hp => ?_, fun p hp => ?_, fun p => ?_,
      fun p c hc => absurd (List.mem_append_right _ hc) hnil,
      ⟨fun _ => 0, fun p c hc => absurd hc hnil⟩⟩
    · exact hroot hp ▸ ⟨_, layout_ofText text config⟩
    · rw [(hempty p).2] at hp
      cases hp
    · rw [(List.append_eq_nil_iff.1 (hempty p).1).2]
      exact .nil
  have hst : Stacked (ofText text config) [] :=
    ⟨.nil, by simp, fun p c hc _ => absurd (List.mem_append_left _ hc) hnil⟩
  refine ⟨⟨hs, hst⟩, ?_⟩
  rw [expandedText_eq hs.root, hs.reading_of_childless hs.root rfl]
  rfl

/-! ## Records -/

@[simp] theorem size_addChild (width : Nat) (t : Tree) (child : (Text × Text) × Nat) :
    (addChild width t child).size = t.size + 1 := by
  simp [addChild]

section
variable {width start : Nat} {name text : Text} (hroot : root < t.size)
include hroot

theorem node_addChild (j : NodeId) : (addChild width t ((name, text), start)).node j =
    if j = t.size then ⟨name, text, some ⟨root, ⟨start, start + width⟩⟩, none, none, [], []⟩
    else if j = root then { t.node root with children := t.children root ++ [t.size] }
    else t.node j := by
  have hne : root ≠ t.size := Nat.ne_of_lt hroot
  rw [addChild, node_setChildren _ (by rw [size_alloc]; exact Nat.lt_succ_of_lt hroot),
    node_alloc, if_neg hne, node_alloc]
  by_cases hj : j = root
  · rw [if_pos hj, if_pos hj, if_neg (hj ▸ hne)]
  · rw [if_neg hj, if_neg hj]

theorem children_addChild (j : NodeId) : (addChild width t ((name, text), start)).children j =
    if j = root then t.children root ++ [t.size] else t.children j := by
  rw [children, node_addChild hroot]
  split
  · rename_i hj
    rw [hj, if_neg (Nat.ne_of_gt hroot), children, node_eq_default (Nat.le_refl _)]
    rfl
  · split <;> rfl

/-- All else is as it was. -/
theorem same_addChild (j : NodeId) :
    ((addChild width t ((name, text), start)).node j).fold = (t.node j).fold ∧
      (addChild width t ((name, text), start)).expandedChildren j = t.expandedChildren j ∧
      (j < t.size → ((addChild width t ((name, text), start)).node j).place = (t.node j).place ∧
        ((addChild width t ((name, text), start)).node j).text = (t.node j).text) := by
  rw [expandedChildren, expandedChildren, node_addChild hroot]
  by_cases hj : j = t.size
  · rw [if_pos hj, node_eq_default (Nat.le_of_eq hj.symm)]
    exact ⟨rfl, rfl, fun h => absurd hj (Nat.ne_of_lt h)⟩
  · rw [if_neg hj]
    split
    · rename_i hjr
      rw [hjr]
      exact ⟨rfl, rfl, fun _ => ⟨rfl, rfl⟩⟩
    · exact ⟨rfl, rfl, fun _ => ⟨rfl, rfl⟩⟩

theorem kept_addChild : Kept [root] t (addChild width t ((name, text), start)) where
  size := by simp
  content j hj hjr := by
    refine ⟨((same_addChild hroot j).2.2 hj).2, ?_, (same_addChild hroot j).1⟩
    rw [children_addChild hroot, if_neg (by simpa using hjr)]
  stands j hj _ := ⟨((same_addChild hroot j).2.2 hj).1, (same_addChild hroot j).1⟩
  kids q hq c hc hlt := by
    refine ⟨root, by simp, ?_⟩
    rw [children_addChild hroot] at hc
    split at hc
    · rcases List.mem_append.1 hc with hc | hc
      · exact hc
      · exact absurd (List.mem_singleton.1 hc) (Nat.ne_of_lt hlt)
    · rename_i hqr
      rcases hq with hq | hq
      · exact absurd (List.mem_singleton.1 hq) hqr
      · rw [children, node_eq_default hq] at hc
        cases hc

/-- The fresh node ranks lowest. -/
theorem ranked_addChild (h : Ranked t.below) :
    Ranked (addChild width t ((name, text), start)).below := by
  obtain ⟨rank, hr⟩ := h
  refine ⟨fun x => if x = t.size then 0 else rank x + 1, fun q c hc => ?_⟩
  rw [below, children_addChild hroot, (same_addChild hroot q).2.1] at hc
  have hq : q ≠ t.size := by
    rintro rfl
    rw [if_neg (Nat.ne_of_gt hroot), ← below, below, children, expandedChildren,
      node_eq_default (Nat.le_refl _)] at hc
    cases hc
  simp only [if_neg hq]
  split
  · exact Nat.succ_pos _
  · rename_i hcs
    refine Nat.succ_lt_succ (hr q c ?_)
    split at hc
    · rename_i hqr
      simp only [List.mem_append, List.mem_singleton, hcs, or_false] at hc
      rw [hqr] at hc ⊢
      exact List.mem_append.2 hc
    · exact hc

end

theorem Layout.addChild (hl : Layout t root (a ++ ⟨g, none⟩ :: plain u)) (name text : Text) :
    Layout (addChild g.utf8Size t ((name, text), a.size)) root
      ((a ++ [⟨g, some (.glyph t.size)⟩]) ++ plain u) := by
  have hmem : t.size ∉ starts (a ++ ⟨g, none⟩ :: plain u) := fun hm =>
    Nat.lt_irrefl _ (hl.lt_size (hl.children ▸ hm))
  have hne : root ≠ t.size := Nat.ne_of_lt hl.lt
  refine ⟨Nat.lt_of_lt_of_le hl.lt (kept_addChild hl.lt).size, ?_, ?_, ?_, ?_, ?_⟩
  · rw [((same_addChild hl.lt root).2.2 hl.lt).2, hl.text]
    simp
  · rw [children_addChild hl.lt, if_pos rfl, hl.children]
    simp
  · rw [List.append_assoc]
    refine fits_append.2 ⟨(fits_append.1 hl.fits).1.congr fun i hi => ?_,
      fits_some.2 ⟨⟨?_, ?_⟩, fits_plain _⟩⟩
    · have hi : i ∈ t.children root := hl.children ▸ hl.nested.mem_ids.1 (by simp [hi])
      exact ⟨((same_addChild hl.lt i).2.2 (hl.lt_size hi)).1, (same_addChild hl.lt i).1⟩
    · rw [node_addChild hl.lt, if_pos rfl, Nat.zero_add]
    · rw [node_addChild hl.lt, if_pos rfl]
  · rw [List.append_assoc]
    exact hl.nested.mark hmem
  · simpa [hne] using hl.irrefl

/-- One more child on the next placeholder of the root. -/
theorem WellFormed.addChild (hw : WellFormed t)
    (hl : Layout t root (a ++ ⟨g, none⟩ :: plain u)) (name text : Text) :
    WellFormed (addChild g.utf8Size t ((name, text), a.size)) := by
  have hroot := hw.shaped.root
  have hk : Kept [root] t (Tree.addChild g.utf8Size t ((name, text), a.size)) :=
    kept_addChild hroot
  have hu : ∀ j, ((Tree.addChild g.utf8Size t ((name, text), a.size)).node j).isUnfolded =
      (t.node j).isUnfolded := fun j => Node.isUnfolded_congr (same_addChild hroot j).1
  refine ⟨hw.shaped.kept hk (fun q hq hlt => ?_) (fun q hq hqu => ?_)
    (fun j => (same_addChild hroot j).2.1) (ranked_addChild hroot hw.shaped.ranked),
    hw.stacked.kept hk hu⟩
  · rcases hq with hq | hq
    · exact List.mem_singleton.1 hq ▸ ⟨_, hl.addChild name text⟩
    · have hqs : q = t.size :=
        Nat.le_antisymm (Nat.le_of_lt_succ (Nat.lt_of_lt_of_eq hlt (size_addChild ..))) hq
      refine ⟨plain text, hlt, ?_, ?_, fits_plain _, nested_plain _, by simp⟩
      · rw [node_addChild hroot, if_pos hqs, text_plain]
      · rw [children, node_addChild hroot, if_pos hqs, starts_plain]
  · rw [hu] at hqu
    rcases hq with hq | hq
    · rw [List.mem_singleton.1 hq, Node.isUnfolded, hw.shaped.topFold] at hqu
      cases hqu
    · rw [node_eq_default hq] at hqu
      cases hqu

/-- The children are put on the placeholders behind the cells `a`, in order. -/
theorem WellFormed.addChildren (hw : WellFormed t) (hl : Layout t root (a ++ plain u))
    (kids : List (Text × Text)) :
    let t' := (kids.zip (Text.occurrencesFrom [g] 0 a.size u)).foldl (Tree.addChild g.utf8Size) t
    WellFormed t' ∧ Layout t' root (a ++ slotted g u (List.range' t.size kids.length)) := by
  induction u generalizing t a kids with
  | nil => simpa [Text.occurrencesFrom, slotted, plain] using And.intro hw hl
  | cons c u ih =>
    have hsize : ∀ m, Cells.size (a ++ [⟨c, m⟩]) = a.size + c.utf8Size := fun m => by simp
    rw [Text.occurrencesFrom_singleton_cons, slotted]
    by_cases hc : g = c
    · subst hc
      cases kids with
      | nil => simpa [plain] using And.intro hw hl
      | cons kid kids =>
        have h := ih (hw.addChild hl kid.1 kid.2) (hl.addChild kid.1 kid.2) kids
        rw [size_addChild, hsize] at h
        simpa [List.range'_succ] using h
    · have h := ih hw (a := a ++ [⟨c, none⟩]) (by simpa [plain] using hl) kids
      rw [hsize] at h
      simpa [hc] using h

/-- The tree of a root and of further nodes on its placeholders, as many as there are of both. -/
def recorded (g : Char) (first : Text × Text) (rest : List (Text × Text)) : Tree :=
  (rest.zip (Text.occurrences [g] first.2)).foldl (Tree.addChild g.utf8Size)
    ((ofText first.2).rename root first.1)

/-- The root of a tree made of records has its placeholders for the other nodes, in order. -/
theorem wellFormed_recorded (g : Char) (first : Text × Text) (rest : List (Text × Text)) :
    WellFormed (recorded g first rest) ∧
      Layout (recorded g first rest) root (slotted g first.2 (List.range' 1 rest.length)) := by
  have ha := alike_rename (ofText first.2) root first.1
  have hw := (wellFormed_ofText first.2 {}).1
  have hl := ha.kept.layout hw.shaped (layout_ofText first.2 {}) List.not_mem_nil
  have h := (hw.alike ha (folds_rename _ _ _)).addChildren (a := []) (g := g) hl rest
  rwa [size_rename] at h

variable {s : RecordSyntax} {serialized : Text}

/-- When a row of records describes a tree, and which one. -/
theorem ofRecords_eq_ok_iff : ofRecords s serialized = .ok t ↔
    ∃ first rest, s.records serialized = .ok (first :: rest) ∧
      (Text.occurrences [s.placeholder] first.2).length = rest.length ∧
      recorded s.placeholder first rest = t := by
  unfold ofRecords
  split
  · rename_i h
    simp [h]
  · rename_i h
    simp [h]
  · rename_i name text rest h
    dsimp only
    split
    · rename_i hlen
      simp [h, hlen, recorded]
    · rename_i hlen
      simp [h, hlen]

/-- A tree made of records is well-formed. -/
theorem wellFormed_ofRecords (h : ofRecords s serialized = .ok t) : WellFormed t := by
  obtain ⟨first, rest, -, -, rfl⟩ := ofRecords_eq_ok_iff.1 h
  exact (wellFormed_recorded s.placeholder first rest).1

end Tree

end GlyphTree
