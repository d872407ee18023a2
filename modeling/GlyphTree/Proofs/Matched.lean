import GlyphTree.Proofs.Landing

/-!
# What hiding matches does

The matches that a hide keeps are those that do not part the two markers of an unfolded child
(`keptMatches`). Each of them gives way to a glyph, and a fresh node on the glyph takes over what is
in the match: its text, its groups and the children inside. The nodes that are hit may lie below each
other, and children of one of them may have come below a fresh node before it is its turn; still each
of them is treated as it was before the hide (`Reachable.hideMatches_kept`).
-/

namespace GlyphTree.Tree

open Cells Region

variable {t t' : Tree} {p n x : NodeId} {plan : Plan} {cuts : List Cut} {cut : Cut} {cs d z : Cells}
  {rs : List Region} {name pattern label target : Text} {glyph : Char} {program : Program}
  {circles : Prop}

/-! ## Kept matches -/

/-- Whether a span of the text of `p` covers just one of the two markers of an unfolded child. -/
def parts (t : Tree) (p : NodeId) (s : Span) : Bool :=
  (t.children p).any fun c => (t.node c).isUnfolded && (t.node c).atoms.countP s.encloses == 1

/-- The matches in the text of `p` that part no unfolded child. -/
def keptMatches (t : Tree) (program : Program) (p : NodeId) : List Match :=
  (program.matchesIn (t.node p).text).filter fun m => !t.parts p m.span

/-- An atom of a child is a marked cell. -/
theorem Layout.mem_marks_of_atom (h : Layout t p cs) {c : NodeId} (hc : c ∈ t.children p) {a : Span}
    (ha : a ∈ (t.node c).atoms) : (a, c) ∈ marks 0 cs := by
  rw [← h.sort_ownAtoms, (sortByKey_perm _ _).mem_iff]
  exact List.mem_flatMap.2 ⟨c, hc, List.mem_map_of_mem ha⟩

/-- A piece of a text holds each atom of a child or does not touch it. -/
theorem Layout.overlaps_eq_encloses {a s b : Cells} (h : Layout t p (a ++ s ++ b)) {c : NodeId}
    (hc : c ∈ t.children p) {atom : Span} (ha : atom ∈ (t.node c).atoms) :
    Span.overlaps ⟨a.size, a.size + s.size⟩ atom = Span.encloses ⟨a.size, a.size + s.size⟩ atom := by
  have hmark := h.mem_marks_of_atom hc ha
  rw [marks_append, marks_append, List.mem_append, List.mem_append, size_append] at hmark
  simp only [Nat.zero_add] at hmark
  rw [Bool.eq_iff_iff]
  simp only [Span.overlaps, Span.encloses, Span.isEmpty, Bool.and_eq_true, Bool.not_eq_true',
    decide_eq_true_eq, decide_eq_false_iff_not]
  rcases hmark with (hm | hm) | hm <;> have := mem_marks hm <;> simp only at this <;> omega

/-- A hidden child has one atom, an unfolded one two. -/
theorem length_atoms_of_child (h : Layout t p cs) {c : NodeId} (hc : c ∈ t.children p) :
    (t.node c).atoms.length = if (t.node c).isUnfolded then 2 else 1 := by
  obtain ⟨pl, hpl, -⟩ := Option.map_eq_some_iff.1 (h.parent hc)
  rw [Node.atoms, hpl, Node.isUnfolded]
  cases (t.node c).fold <;> rfl

/-- Of the cuts of pieces of a text those are whole that part no unfolded child. -/
theorem Layout.isWhole_eq {a s b : Cells} (h : Layout t p (a ++ s ++ b))
    (hr : cut.range = ⟨a.size, a.size + s.size⟩) : t.isWhole p cut = !t.parts p cut.range := by
  rw [isWhole, parts, List.not_any_eq_all_not, Bool.eq_iff_iff, List.all_eq_true, List.all_eq_true]
  refine forall₂_congr fun c hc => ?_
  have htouched : (t.node c).atoms.filter cut.range.overlaps =
      (t.node c).atoms.filter cut.range.encloses :=
    List.filter_congr fun atom ha => hr ▸ h.overlaps_eq_encloses hc ha
  have hlen := length_atoms_of_child h hc
  rw [Cut.respects, htouched, ← List.countP_eq_length_filter]
  have hle := List.countP_le_length (p := cut.range.encloses) (l := (t.node c).atoms)
  cases hu : (t.node c).isUnfolded
  · rw [hu, if_neg Bool.false_ne_true] at hlen
    simp only [Bool.false_and, Bool.not_false, decide_true, Bool.true_and, Bool.or_eq_true,
      decide_eq_true_eq, iff_true]
    omega
  · rw [hu, if_pos rfl] at hlen
    simp only [decide_true, Bool.true_and, Bool.or_eq_true, decide_eq_true_eq, Bool.not_eq_true',
      beq_eq_false_iff_ne]
    omega

/-- The cuts of matches that a hide makes are those of the kept matches. -/
theorem Layout.wholeCuts_matchCuts (h : Layout t p cs) (name : Text) (glyph : Char)
    (program : Program) : t.wholeCuts p (t.matchCuts name glyph program p) =
      (t.keptMatches program p).map (matchCut name glyph) := by
  rw [wholeCuts, matchCuts, keptMatches, List.filter_map]
  refine congrArg _ (List.filter_congr fun m hm => ?_)
  obtain ⟨a, s, b, ht, hr, -⟩ := program.groups_matchesIn hm
  obtain ⟨as, b, rfl, has, rfl⟩ := exists_of_text_eq_append (h.text.symm.trans ht)
  obtain ⟨a, s, rfl, rfl, rfl⟩ := exists_of_text_eq_append has
  exact h.isWhole_eq hr

/-! ## Children inside -/

/-- The children of `p` that stand within a span of its text. -/
def childrenWithin (t : Tree) (p : NodeId) (s : Span) : List NodeId :=
  (t.children p).filter fun c => s.encloses ((t.node c).span.getD ⟨0, 0⟩)

/-- The children inside a closed region. -/
theorem Layout.childrenWithin_eq {a s b : Cells} (h : Layout t p (a ++ s ++ b)) (hs : Closed s) :
    t.childrenWithin p ⟨a.size, a.size + s.size⟩ = starts s := by
  obtain ⟨hin, -⟩ := h.filter_region hs (List.Sublist.refl _)
  rw [← starts_append, ← starts_append, ← h.children, List.filter_map] at hin
  have := congrArg (List.map Prod.fst) hin
  rwa [map_withSpan_fst, map_withSpan_fst] at this

/-- The fresh node of each region has the children inside. -/
theorem Landed.children_eq (hl : Landed t t' n d.size rs) (h : Layout t p (d ++ Region.cells rs z))
    (hc : ∀ r ∈ rs, Closed r.gone) {i : Nat} (hi : (Region.cuts d.size rs)[i]? = some cut) :
    t'.children (n + i) = t.childrenWithin p cut.range := by
  induction rs generalizing n d i with
  | nil => cases hi
  | cons r rs ih =>
    obtain ⟨hr, hrs⟩ := List.forall_mem_cons.1 hc
    rw [Region.cells_cons] at h
    cases i with
    | zero =>
      have hmid : Layout t p ((d ++ r.kept) ++ r.gone ++ Region.cells rs z) := by simpa using h
      obtain rfl := Option.some.inj hi
      rw [Nat.add_zero, hl.1.layout.children, ← hmid.childrenWithin_eq hr, size_append]
    | succ i =>
      have hsize : (d ++ r.kept ++ r.gone).size = d.size + r.kept.size + r.gone.size := by
        rw [size_append, size_append]
      have := ih (n := n + 1) (d := d ++ r.kept ++ r.gone) (hsize ▸ hl.2) (by simpa using h) hrs
        (by rw [hsize]; exact hi)
      rwa [Nat.add_assoc, Nat.add_comm 1] at this

/-- The fresh nodes of `p`, the first of which is `n`, have the children that stood in the
regions. -/
def Gathered (t t' : Tree) (n p : NodeId) (cuts : List Cut) : Prop :=
  ∀ i cut, cuts[i]? = some cut → t'.children (n + i) = t.childrenWithin p cut.range

theorem Fitting.gathered (h : Fitting t p cuts) :
    Gathered t (t.splice p cuts) t.size p cuts := by
  intro i cut hi
  obtain ⟨rs, z, hl, rfl, hr⟩ := h
  have hrs : rs ≠ [] := by
    rintro rfl
    cases hi
  have hspliced := hl.splice hrs (fun r hm => (hr r hm).1) fun r hm => (hr r hm).2
  exact Landed.children_eq (d := []) hspliced.landed hl (fun r hm => (hr r hm).1) hi

theorem Gathered.congr {u : Tree} (h : Gathered t t' n p cuts)
    (hchildren : t.children p = u.children p)
    (hplace : ∀ c ∈ u.children p, (t.node c).place = (u.node c).place) :
    Gathered u t' n p cuts := fun i cut hi => by
  rw [h i cut hi, childrenWithin, childrenWithin, hchildren]
  exact List.filter_congr fun c hc => by rw [Node.span, hplace c hc, Node.span]

/-- Each node of a plan is treated as it was before any of them was cut. -/
theorem Separate.gathered (h : Separate t plan) (hw : WellFormed t)
    (hf : ∀ e ∈ plan, Fitting t e.1 e.2) :
    Plan.Numbered (Gathered t (t.applyPlan plan)) t.size plan := by
  induction plan generalizing t with
  | nil => trivial
  | cons e plan ih =>
    obtain ⟨p, cuts⟩ := e
    obtain ⟨hfit, hfits⟩ := List.forall_mem_cons.1 hf
    rw [applyPlan, List.foldl_cons]
    dsimp only
    cases cuts with
    | nil => exact ⟨(fun _ _ hi => by cases hi), ih h.tail hw hfits⟩
    | cons c cuts =>
      obtain ⟨rs, z, hl, -, hrs, hpos, hs⟩ := hfit.spliced (by simp)
      have hgathered := hfit.gathered
      have hcuts := (List.forall_mem_cons.1 h.fresh).1
      have hsize := size_splice_fresh hcuts t p
      have hrest := ih h.splice (hs.wellFormed hl hw hrs hpos) fun e he =>
        (hfits e he).kept hw.shaped (hs.kept hl) (h.ne_head e he)
      rw [List.isEmpty_cons, if_neg Bool.false_ne_true]
      refine ⟨fun i cut hi => ?_, ?_⟩
      · -- the fresh node is not cut itself
        have hi' := (List.getElem?_eq_some_iff.1 hi).1
        have hkept := h.splice.carriedOut.preserved (t.size + i)
          (hsize ▸ Nat.add_lt_add_left hi' _)
        exact (hkept.children (h.tail.not_mem_of_le (Nat.le_add_right _ _))).trans
          (hgathered i cut hi)
      · rw [← hsize]
        exact hrest.imp fun e he n hg => hg.congr (h.children_head e he) (h.place_head e he)

/-! ## The whole hide -/

/-- The number of kept matches in the texts of nodes. -/
def keptCount (t : Tree) (program : Program) (ps : List NodeId) : Nat :=
  (ps.map fun p => (t.keptMatches program p).length).sum

/-- What the hide of kept matches in the text of `p` has made of `p` and of the fresh nodes, the
first of which has the number `n`. -/
structure HitAt (t t' : Tree) (name : Text) (glyph : Char) (kept : List Match) (n p : NodeId) :
    Prop where
  /-- The new text is the old one with a glyph for each match, and the nodes stand on these. -/
  text : ∃ glyphs, Collapses 0 0 (t.node p).text (kept.map fun m => (m.span, glyph))
      (t'.node p).text glyphs ∧
    ∀ i m s, kept[i]? = some m → glyphs[i]? = some s → (t'.node (n + i)).place = some ⟨p, s⟩
  /-- The node of a match holds the matched text, and the groups from the start of the match on. -/
  made : ∀ i m, kept[i]? = some m → (t'.node (n + i)).name = name ∧
    (t'.node (n + i)).text = (t.node p).text.slice m.span ∧
    (t'.node (n + i)).groups = groupTable m ∧ (t'.node (n + i)).fold = none
  /-- The node of a match takes over the children inside, in their order. -/
  taken : ∀ i m, kept[i]? = some m → t'.children (n + i) = t.childrenWithin p m.span
  /-- What is listed at `p` are the fresh nodes and the children that are in no match. -/
  listed : (t'.children p).Perm (List.range' n kept.length ++ (t.children p).filter
    (t.stays (kept.map (matchCut name glyph))))

theorem regions_map (f : NodeId → List Cut) (ps : List NodeId) :
    Plan.regions (ps.map fun p => (p, f p)) = (ps.map fun p => (f p).length).sum := by
  induction ps with
  | nil => rfl
  | cons p ps ih => rw [List.map_cons, Plan.regions_cons, ih, List.map_cons, List.sum_cons]

theorem Shaped.matchPlan_eq (hs : Shaped t) (name : Text) (glyph : Char) (program : Program)
    (target : Text) : t.matchPlan name glyph program target = (t.targets target).map fun p =>
      (p, (t.keptMatches program p).map (matchCut name glyph)) := by
  refine List.map_congr_left fun p hp => ?_
  obtain ⟨cs, hl⟩ := hs.layout p (hs.mem_targets hp)
  rw [hl.wholeCuts_matchCuts]

theorem Parted.hitAt {kept : List Match} (h : Parted t t' n p (kept.map (matchCut name glyph)))
    (hg : Gathered t t' n p (kept.map (matchCut name glyph)))
    (hp : Pieces 0 (t.node p).text (kept.map Match.span))
    (hsolid : ∀ m ∈ kept, m.span.isEmpty = false) : HitAt t t' name glyph kept n p := by
  have hcut : ∀ {i m}, kept[i]? = some m →
      (kept.map (matchCut name glyph))[i]? = some (matchCut name glyph m) := fun hi => by
    rw [List.getElem?_map, hi, Option.map_some]
  have hmade := fun i m hi => h.made i _ (hcut (i := i) (m := m) hi)
  obtain ⟨glyphs, hon⟩ := h.onGlyphs (by rwa [List.map_map])
  refine ⟨⟨glyphs, ?_, fun i m s hi hs => ?_⟩, fun i m hi => ?_, fun i m hi => hg i _ (hcut hi), ?_⟩
  · have hcollapses := hon.collapses
    rwa [List.map_map] at hcollapses
  · exact hon.on i _ s (hcut hi) hs (hsolid m (List.mem_of_getElem? hi))
  · obtain ⟨hname, hgroups⟩ := Origin.fresh.inj (hmade i m hi).origin
    exact ⟨hname.symm, (hmade i m hi).text, hgroups.symm, (hmade i m hi).fold⟩
  · have hlisted := h.children
    rwa [List.length_map] at hlisted

/-- What the hide of all kept matches of a program makes of a tree. -/
structure HidesKept (t t' : Tree) (name : Text) (glyph : Char) (program : Program) (target : Text) :
    Prop where
  /-- Fresh nodes are numbered in the order of the targets, which is live order, and of the matches
  in the text of each. -/
  hit : ∀ before p after, t.targets target = before ++ p :: after →
    HitAt t t' name glyph (t.keptMatches program p) (t.size + t.keptCount program before) p
  size : t'.size = t.size + t.keptCount program (t.targets target)
  spared : ∀ x < t.size, x ∉ t.targets target → (t'.node x).text = (t.node x).text ∧
    t'.children x = t.children x ∧
      ((t.node x).isUnfolded = false → (t'.node x).groups = (t.node x).groups)
  same : ∀ x < t.size, (t'.node x).name = (t.node x).name ∧ t'.isIgnored x = t.isIgnored x ∧
    (t'.node x).fold = (t.node x).fold

theorem WellFormed.hidesKept (hw : WellFormed t) (ht : Tied circles t)
    (hsolid : (t.matchPlan name glyph program target).Solid) :
    HidesKept t (t.applyPlan (t.matchPlan name glyph program target)) name glyph program target := by
  have hs := hw.shaped
  have hseparate := ht.separate_matchPlan name glyph program target
  have hdone := hseparate.carriedOut
  have hgathered := hseparate.gathered hw (hs.fitting_matchPlan hsolid).2
  have hregions : ∀ ps : List NodeId, Plan.regions (ps.map fun p =>
      (p, (t.keptMatches program p).map (matchCut name glyph))) = t.keptCount program ps := by
    intro ps
    rw [regions_map, keptCount]
    simp only [List.length_map]
  have hfst : (t.matchPlan name glyph program target).map Prod.fst = t.targets target := by
    simp [matchPlan, Function.comp_def]
  refine ⟨fun before p after htargets => ?_, ?_, fun x hx hnot => ?_, fun x hx => ?_⟩
  · rw [hs.matchPlan_eq, htargets, List.map_append, List.map_cons] at hdone hgathered hsolid
    rw [hs.matchPlan_eq, htargets, List.map_append, List.map_cons, ← hregions]
    refine hdone.parted.middle.hitAt hgathered.middle ?_ fun m hm => ?_
    · exact (program.pieces_matchesIn _).of_sublist (List.filter_sublist.map _)
    · exact hsolid _ (List.mem_append_right _ List.mem_cons_self) _ (List.mem_map_of_mem hm)
  · rw [hdone.size, hs.matchPlan_eq, hregions]
  · have hkept := hdone.preserved x hx
    rw [hfst] at hkept
    exact ⟨hkept.text hnot, hkept.children hnot, hkept.groups hnot⟩
  · have hkept := hdone.preserved x hx
    have hignored := (grows_applyPlan t (t.matchPlan name glyph program target)).ignored
    exact ⟨hkept.name, by rw [isIgnored, hignored, isIgnored], hkept.fold⟩

/-- A hide of matches that succeeds has a glyph and a program. -/
theorem exists_program_of_hideMatches {count : Nat}
    (h : (t.hideMatches name pattern label target).result = .ok count) :
    ∃ glyph program, t.labels.glyph label = .ok glyph ∧ t.compile pattern = .ok program := by
  unfold hideMatches at h
  split at h
  · cases h
  · cases h
  · exact ⟨_, _, ‹_›, ‹_›⟩

/-- A hide that collapses no empty region and succeeds hides the kept matches of its pattern, and
changes nothing else. -/
theorem Reachable.hideMatches_kept (h : Reachable t)
    (hsolid : t.SolidMatches name pattern label target)
    (hok : (t.hideAll name pattern label target).result = .ok () ∨
      ∃ b, (t.hideAny name pattern label target).result = .ok b) :
    ∃ glyph program, t.labels.glyph label = .ok glyph ∧ t.compile pattern = .ok program ∧
      HidesKept t (t.hideAll name pattern label target).tree name glyph program target ∧
      HidesKept t (t.hideAny name pattern label target).tree name glyph program target ∧
      (t.hideAll name pattern label target).result = .ok () ∧
      (t.hideAny name pattern label target).result =
        .ok (decide (0 < t.keptCount program (t.targets target))) := by
  rcases t.hideMatches_cases name pattern label target with ⟨e, he, -⟩ | ⟨count, hcount, hsize⟩
  · simp [hideAll, hideAny, Outcome.map, he, Except.map] at hok
  · obtain ⟨glyph, program, hglyph, hprogram⟩ := exists_program_of_hideMatches hcount
    have hkept : HidesKept t (t.hideMatches name pattern label target).tree name glyph program
        target := by
      rw [hideMatches_tree]
      simp only [SolidMatches, hglyph, hprogram] at hsolid
      simpa only [matchesToHide, hglyph, hprogram] using h.wellFormed.hidesKept h.reached.tied hsolid
    have hall : count = t.keptCount program (t.targets target) :=
      Nat.add_left_cancel (hsize.symm.trans hkept.size)
    refine ⟨glyph, program, hglyph, hprogram, hkept, hkept, ?_, ?_⟩
    · rw [hideAll, Outcome.map, hcount]
      rfl
    · rw [hideAny, Outcome.map, hcount, ← hall]
      rfl

/-- Matches the body of one unfolded node with its markers, and a closing marker with what comes
behind it. -/
def aroundMarkers : Text := ['\\', '(', 'x', 'y', 'z', '\\', ')', '|', '>', '\\', '*']

set_option maxRecDepth 20000 in
/-- The match that takes a closing marker along is dropped, and the other one takes an unfolded node
over. -/
theorem hideMatches_kept_aroundMarkers :
    let made := (unfoldedTwice.hideAll ['n'] aroundMarkers ['#'] ['*']).tree
    unfoldedTwice.SolidMatches ['n'] aroundMarkers ['#'] ['*'] ∧
      (unfoldedTwice.hideAll ['n'] aroundMarkers ['#'] ['*']).result = .ok () ∧
      (∃ glyph program, unfoldedTwice.compile aroundMarkers = .ok program ∧
        HidesKept unfoldedTwice made ['n'] glyph program ['*']) ∧
      (unfoldedTwice.node root).text = ['*', '<', '(', 'x', 'y', 'z', ')', '>', '*'] ∧
      (made.node root).text = ['*', '<', '#', '>', '*'] ∧ made.size = 6 ∧
      (made.node 5).text = ['(', 'x', 'y', 'z', ')'] ∧ made.children 5 = [3] ∧
      (made.node 3).isUnfolded = true := by
  -- all that is to be computed, at once, since each run of `cbv` makes the tree anew
  obtain ⟨hsolid, hok, htexts⟩ :
      decide (unfoldedTwice.SolidMatches ['n'] aroundMarkers ['#'] ['*']) = true ∧
      (unfoldedTwice.hideAll ['n'] aroundMarkers ['#'] ['*']).result = .ok () ∧
      (unfoldedTwice.node root).text = ['*', '<', '(', 'x', 'y', 'z', ')', '>', '*'] ∧
      ((unfoldedTwice.hideAll ['n'] aroundMarkers ['#'] ['*']).tree.node root).text =
        ['*', '<', '#', '>', '*'] ∧
      (unfoldedTwice.hideAll ['n'] aroundMarkers ['#'] ['*']).tree.size = 6 ∧
      ((unfoldedTwice.hideAll ['n'] aroundMarkers ['#'] ['*']).tree.node 5).text =
        ['(', 'x', 'y', 'z', ')'] ∧
      (unfoldedTwice.hideAll ['n'] aroundMarkers ['#'] ['*']).tree.children 5 = [3] ∧
      ((unfoldedTwice.hideAll ['n'] aroundMarkers ['#'] ['*']).tree.node 3).isUnfolded = true := by
    cbv
  have hsolid := of_decide_eq_true hsolid
  obtain ⟨glyph, program, -, hprogram, hkept, -⟩ :=
    reachable_unfoldedTwice.hideMatches_kept hsolid (.inl hok)
  exact ⟨hsolid, hok, ⟨glyph, program, hprogram, hkept⟩, htexts⟩

end GlyphTree.Tree
