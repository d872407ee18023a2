import GlyphTree.Proofs.Carrying
import GlyphTree.Proofs.Views

/-!
# Where fresh nodes come to stand

A fresh node stands where the start of its region is carried by the edits that collapse all regions
of the text. For a region that is not empty that is where its glyph is. An empty region counts as an
insertion before the place it is at, so its node comes to stand behind its glyph, and hides what
comes there (`onGlyphs_hides`).
-/

namespace GlyphTree

/-- Text `t'` is `t` with one glyph for each of the regions, and `glyphs` are the places of these in
`t'`. The texts start at bytes `o` and `n`. -/
inductive Collapses : Nat → Nat → Text → List (Span × Char) → Text → List Span → Prop where
  | nil (o n : Nat) (t : Text) : Collapses o n t [] t []
  | cons {o n : Nat} (a b : Text) (g : Char) {t t' : Text} {regions : List (Span × Char)}
      {glyphs : List Span} :
      Collapses (o + a.byteSize + b.byteSize) (n + a.byteSize + g.utf8Size) t regions t' glyphs →
      Collapses o n (a ++ b ++ t)
        ((⟨o + a.byteSize, o + a.byteSize + b.byteSize⟩, g) :: regions) (a ++ g :: t')
        (⟨n + a.byteSize, n + a.byteSize + g.utf8Size⟩ :: glyphs)

namespace Cut

/-- The region and the glyph that is to stand for it. -/
def region (c : Cut) : Span × Char := (c.range, c.glyph)

/-- The node for a region comes to stand on its glyph, or behind it if the region is empty. -/
structure LandsAt (es : List Edit) (c : Cut) (glyph : Span) : Prop where
  on : c.range.isEmpty = false → c.landing es = glyph
  behind : c.range.isEmpty = true → glyph.stop ≤ (c.landing es).start

end Cut

variable {o n : Nat} {t t' : Text} {cuts : List Cut} {es : List Edit}
  {regions : List (Span × Char)} {glyphs : List Span}

/-! ## Glyphs in a text -/

/-- Edits further on carry a start on, not back. -/
theorem le_remapStartFrom {pos : Nat} (shift : Int) (h : Pieces pos t (cuts.map Cut.range)) :
    shifted pos shift ≤ remapStartFrom pos shift (cuts.map Cut.edit) := by
  induction cuts generalizing t shift with
  | nil => exact Nat.le_refl _
  | cons c cuts ih =>
    obtain ⟨range, glyph, origin⟩ := c
    simp only [List.map_cons] at h
    cases h with
    | cons a b h =>
      simp only [List.map_cons, Cut.edit, remapStartFrom]
      split
      · -- an insertion at the place itself
        rename_i hle
        have hzero : pos + a.byteSize + b.byteSize = pos := by omega
        rw [hzero] at h
        refine Nat.le_trans ?_ (ih _ h)
        simp only [shifted, Edit.delta, Span.size]
        omega
      · rw [if_neg (by omega)]

section
variable (a b : Text) (glyph : Char)

/-- By how far a glyph in place of `b` carries on what follows. -/
theorem shift_add_delta (o n : Nat) :
    (n : Int) - o + Edit.delta ⟨⟨o + a.byteSize, o + a.byteSize + b.byteSize⟩, [glyph]⟩ =
      ((n + a.byteSize + glyph.utf8Size : Nat) : Int) - (o + a.byteSize + b.byteSize : Nat) := by
  simp only [Edit.delta, Span.size, Text.byteSize_cons, Text.byteSize_nil]
  omega

/-- Where the node of the first region lands. -/
theorem landsAt_head {origin : Origin}
    (h : Pieces (o + a.byteSize + b.byteSize) t (cuts.map Cut.range))
    (hland : remapStart (o + a.byteSize) es = remapStartFrom (o + a.byteSize) ((n : Int) - o)
      (⟨⟨o + a.byteSize, o + a.byteSize + b.byteSize⟩, [glyph]⟩ :: cuts.map Cut.edit)) :
    Cut.LandsAt es ⟨⟨o + a.byteSize, o + a.byteSize + b.byteSize⟩, glyph, origin⟩
      ⟨n + a.byteSize, n + a.byteSize + glyph.utf8Size⟩ := by
  rw [remapStartFrom, shift_add_delta] at hland
  refine ⟨fun hne => ?_, fun he => ?_⟩
  · simp only [Span.isEmpty, decide_eq_false_iff_not] at hne
    rw [if_neg hne, if_neg (Nat.lt_irrefl _), shifted] at hland
    have hstart : remapStart (o + a.byteSize) es = n + a.byteSize := by omega
    simp only [Cut.landing, hstart]
  · simp only [Span.isEmpty, decide_eq_true_eq] at he
    have hzero : o + a.byteSize + b.byteSize = o + a.byteSize := by omega
    rw [if_pos he] at hland
    rw [hzero] at h
    have hle := le_remapStartFrom (((n + a.byteSize + glyph.utf8Size : Nat) : Int) -
      (o + a.byteSize + b.byteSize : Nat)) h
    rw [← hland, shifted] at hle
    simp only [Cut.landing]
    omega

end

/-- Regions that are pieces of a text give way to glyphs, and their nodes land where these are. What
starts at `o` or behind has been carried on from `o` to `n` by the edits before. -/
theorem exists_collapses (h : Pieces o t (cuts.map Cut.range))
    (hes : ∀ pos, o ≤ pos →
      remapStart pos es = remapStartFrom pos ((n : Int) - o) (cuts.map Cut.edit)) :
    ∃ glyphs,
      Collapses o n t (cuts.map Cut.region) (applyEditsFrom o t (cuts.map Cut.edit)) glyphs ∧
        List.Forall₂ (Cut.LandsAt es) cuts glyphs := by
  induction cuts generalizing o n t with
  | nil => exact ⟨[], .nil o n t, .nil⟩
  | cons c cuts ih =>
    obtain ⟨range, glyph, origin⟩ := c
    simp only [List.map_cons] at h
    cases h with
    | @cons _ a b t _ h =>
      obtain ⟨glyphs, hcollapses, hlands⟩ := ih (n := n + a.byteSize + glyph.utf8Size) h
        fun pos hpos => by
          rw [hes pos (by omega), ← shift_add_delta, List.map_cons, Cut.edit, remapStartFrom,
            if_pos hpos]
      refine ⟨⟨n + a.byteSize, n + a.byteSize + glyph.utf8Size⟩ :: glyphs, ?_,
        .cons (landsAt_head a b glyph h (hes _ (Nat.le_add_right _ _))) hlands⟩
      simp only [List.map_cons, Cut.edit, Cut.region]
      rw [applyEditsFrom_cons, List.append_assoc _ [glyph], List.singleton_append]
      exact .cons a b glyph hcollapses

/-- With what stood in the regions back in place of the glyphs, the text is as it was. -/
theorem Collapses.restore (h : Collapses o n t regions t' glyphs) (before : Text)
    (ho : before.byteSize = o) :
    applyEditsFrom n t' (List.zipWith (fun s r => ⟨s, (before ++ t).slice r.1⟩) glyphs regions) =
      t := by
  induction h generalizing before with
  | nil => rfl
  | @cons o n a b g t t' regions glyphs h ih =>
    subst ho
    have hbody : (before ++ (a ++ b ++ t)).slice
        ⟨before.byteSize + a.byteSize, before.byteSize + a.byteSize + b.byteSize⟩ = b := by
      rw [← List.append_assoc, ← List.append_assoc, ← Text.byteSize_append]
      exact Text.slice_middle (before ++ a) b t
    have hrest := ih (before ++ a ++ b) (by simp [Nat.add_assoc])
    rw [show before ++ a ++ b ++ t = before ++ (a ++ b ++ t) by simp] at hrest
    rw [List.zipWith_cons_cons, hbody, List.append_cons, show n + a.byteSize + g.utf8Size =
      n + a.byteSize + Text.byteSize [g] from rfl, applyEditsFrom_cons]
    exact congrArg _ hrest

/-- There are as many glyphs as regions. -/
theorem Collapses.length_eq (h : Collapses o n t regions t' glyphs) :
    glyphs.length = regions.length := by
  induction h with
  | nil => rfl
  | cons _ _ _ _ ih => rw [List.length_cons, List.length_cons, ih]

/-- Whether a command collapses what a pattern or a capture group has found. -/
def Command.hidesFound : Command → Bool
  | .hideAll .. | .hideAny .. | .hideGroup .. => true
  | _ => false

namespace Tree

variable {t t' : Tree} {p id n : NodeId} {plan : Plan} {c : Command} {circles : Prop}
  {name label scope source pattern target : Text} {glyph : Char} {group : Nat}

/-! ## Plans of hides -/

/-- The cuts of each node cut pieces out of its text. -/
def Sliced (t : Tree) (plan : Plan) : Prop :=
  ∀ e ∈ plan, Pieces 0 (t.node e.1).text (e.2.map Cut.range)

theorem Tied.separate_matchPlan (h : Tied circles t) (name : Text) (glyph : Char)
    (program : Program) (target : Text) :
    Separate t (t.matchPlan name glyph program target) := by
  refine ⟨?_, fun e he => ?_, fun e he c hc => ?_, fun e _ c => h.isParent_child⟩
  · have hnd : (t.targets target).Nodup := h.nodup_liveOrder.filter _
    simpa [matchPlan, Function.comp_def] using hnd
  · obtain ⟨id, hid, rfl⟩ := List.mem_map.1 he
    exact h.lt_of_target hid
  · obtain ⟨id, -, rfl⟩ := List.mem_map.1 he
    obtain ⟨m, -, rfl⟩ := List.mem_map.1 (List.mem_filter.1 hc).1
    rfl

theorem Tied.separate_planOf (h : Tied circles t) (c : Command) : Separate t (t.planOf c) where
  nodup := nodup_planOf h.nodup_liveOrder h.nodup_documentOrder c
  lt _ he := h.lt_planOf he
  fresh _ he _ hcut := Cut.isFresh_iff.2 (origin_of_mem_planOf he hcut)
  parent _ _ _ := h.isParent_child

/-- What a pattern or a capture group finds in a text are pieces of it. -/
theorem sliced_planOf (t : Tree) (hc : c.hidesFound = true) : Sliced t (t.planOf c) := by
  intro e he
  cases c with
  | hideAll | hideAny =>
    obtain ⟨-, glyph, program, -, hcuts⟩ := mem_matchesToHide he
    have hpieces := program.pieces_matchesIn (t.node e.1).text
    rw [hcuts]
    rw [show Match.span = Cut.range ∘ matchCut _ glyph from rfl, ← List.map_map] at hpieces
    exact hpieces.of_sublist (List.filter_sublist.map _)
  | hideGroup =>
    obtain ⟨-, glyph, range, -, hslice, hcuts⟩ := mem_groupToHide he
    obtain ⟨b, hb⟩ := Option.isSome_iff_exists.1 hslice
    rw [hcuts]
    exact (Pieces.of_slice? hb).of_sublist (List.filter_sublist.map Cut.range)
  | _ => cases hc

theorem tree_perform_hidesFound (t : Tree) (hc : c.hidesFound = true) :
    (t.perform c).tree = t.applyPlan (t.planOf c) := by
  cases c with
  | hideAll => exact hideMatches_tree ..
  | hideAny => exact hideMatches_tree ..
  | hideGroup => exact hideGroup_tree ..
  | _ => cases hc

/-! ## Standing -/

/-- The edit that puts the text of a node in place of what it stands on. -/
def reveal (t : Tree) (id : NodeId) : Edit := ⟨(t.node id).span.getD ⟨0, 0⟩, (t.node id).text⟩

/-- How the fresh nodes of a node `p` stand in its new text, the first of them having the number
`n`. -/
structure OnGlyphs (t t' : Tree) (n p : NodeId) (cuts : List Cut) (glyphs : List Span) : Prop where
  /-- The new text of `p` is its old one with a glyph for each region. -/
  collapses : Collapses 0 0 (t.node p).text (cuts.map Cut.region) (t'.node p).text glyphs
  /-- A node for each region holds what was in it. -/
  holds : ∀ i cut, cuts[i]? = some cut → (t'.node (n + i)).text = (t.node p).text.slice cut.range
  /-- The node for a region that is not empty stands on its glyph. -/
  on : ∀ i cut glyph, cuts[i]? = some cut → glyphs[i]? = some glyph → cut.range.isEmpty = false →
    (t'.node (n + i)).place = some ⟨p, glyph⟩
  /-- The node for an empty region stands behind its glyph. -/
  behind : ∀ i cut glyph, cuts[i]? = some cut → glyphs[i]? = some glyph →
    cut.range.isEmpty = true →
      ∃ s : Span, (t'.node (n + i)).place = some ⟨p, s⟩ ∧ glyph.stop ≤ s.start
  /-- With the texts of the nodes back in the places they stand on the text is as before, if no
  region is empty. -/
  restores : (∀ cut ∈ cuts, cut.range.isEmpty = false) →
    applyEdits (t'.node p).text ((List.range' n cuts.length).map t'.reveal) = (t.node p).text

theorem Parted.onGlyphs {cuts : List Cut} (h : Parted t t' n p cuts)
    (hp : Pieces 0 (t.node p).text (cuts.map Cut.range)) :
    ∃ glyphs, OnGlyphs t t' n p cuts glyphs := by
  obtain ⟨glyphs, hcollapses, hlands⟩ : ∃ glyphs,
      Collapses 0 0 (t.node p).text (cuts.map Cut.region) (t'.node p).text glyphs ∧
        List.Forall₂ (Cut.LandsAt (cuts.map Cut.edit)) cuts glyphs :=
    h.text ▸ exists_collapses hp fun _ _ => rfl
  have hland : ∀ i cut glyph, cuts[i]? = some cut → glyphs[i]? = some glyph →
      Cut.LandsAt (cuts.map Cut.edit) cut glyph := fun i cut glyph hi hg => by
    obtain ⟨hi', rfl⟩ := List.getElem?_eq_some_iff.1 hi
    obtain ⟨hg', rfl⟩ := List.getElem?_eq_some_iff.1 hg
    exact hlands.get hi' hg'
  have hon : ∀ i cut glyph, cuts[i]? = some cut → glyphs[i]? = some glyph →
      cut.range.isEmpty = false → (t'.node (n + i)).place = some ⟨p, glyph⟩ :=
    fun i cut glyph hi hg hne => by
      rw [(h.made i cut hi).place, (hland i cut glyph hi hg).on hne]
  refine ⟨glyphs, hcollapses, fun i cut hi => (h.made i cut hi).text, hon,
    fun i cut glyph hi hg he => ⟨_, (h.made i cut hi).place, (hland i cut glyph hi hg).behind he⟩,
    fun hne => ?_⟩
  have hlen : glyphs.length = cuts.length := by simpa using hcollapses.length_eq
  have hreveal : (List.range' n cuts.length).map t'.reveal = List.zipWith
      (fun s r => (⟨s, (t.node p).text.slice r.1⟩ : Edit)) glyphs (cuts.map Cut.region) := by
    refine List.ext_getElem (by simp [hlen]) fun i hi hi' => ?_
    have hi : i < cuts.length := by simpa using hi
    have hcut := List.getElem?_eq_getElem hi
    have hplace := hon i _ _ hcut (List.getElem?_eq_getElem (hlen ▸ hi))
      (hne _ (List.getElem_mem hi))
    simp [reveal, Node.span, hplace, (h.made i _ hcut).text, Cut.region]
  rw [hreveal]
  exact hcollapses.restore [] rfl

/-- The nodes that a hide of matches or of a capture group makes, in the order of the nodes that are
cut and of the regions of each. -/
theorem onGlyphs_hides (h : Reached t) (hc : c.hidesFound = true) :
    (t.perform c).tree.size = t.size + (t.planOf c).regions ∧
      ∀ (before : Plan) p cuts after, t.planOf c = before ++ (p, cuts) :: after →
        ∃ glyphs, OnGlyphs t (t.perform c).tree (t.size + Plan.regions before) p cuts glyphs := by
  have hdone := (h.tied.separate_planOf c).carriedOut
  rw [tree_perform_hidesFound t hc]
  refine ⟨hdone.size, fun before p cuts after hplan => ?_⟩
  have hsliced := sliced_planOf t hc
  rw [hplan] at hdone hsliced ⊢
  exact hdone.parted.middle.onGlyphs (hsliced (p, cuts) (by simp))

set_option maxRecDepth 20000 in
theorem onGlyphs_hides_twoRuns :
    let t := ofText ['a', 'x', 'x', 'b', 'x']
    let c : Command := .hideAll ['n'] ['x', '+'] ['#'] ['*']
    let made := (t.perform c).tree
    Reached t ∧ c.hidesFound = true ∧
      t.planOf c = [(0, [⟨⟨1, 3⟩, '#', .fresh ['n'] none⟩, ⟨⟨4, 5⟩, '#', .fresh ['n'] none⟩])] ∧
      (made.node 0).text = ['a', '#', 'b', '#'] ∧ made.size = 3 ∧
      applyEdits (made.node 0).text [made.reveal 1, made.reveal 2] = (t.node 0).text := by
  have hr : Reached (ofText ['a', 'x', 'x', 'b', 'x']) := .initial (.ofText _ _)
  obtain ⟨-, hstand⟩ := onGlyphs_hides hr (c := .hideAll ['n'] ['x', '+'] ['#'] ['*']) rfl
  have hplan : (ofText ['a', 'x', 'x', 'b', 'x']).planOf (.hideAll ['n'] ['x', '+'] ['#'] ['*']) =
      [(0, [⟨⟨1, 3⟩, '#', .fresh ['n'] none⟩, ⟨⟨4, 5⟩, '#', .fresh ['n'] none⟩])] := by cbv
  obtain ⟨glyphs, hg⟩ := hstand [] 0 _ [] hplan
  exact ⟨hr, rfl, hplan, by cbv, by cbv, hg.restores (by decide)⟩

set_option maxRecDepth 20000 in
/-- The node for the empty region before a text stands on the character behind its glyph, so that
what comes there is lost when its text is put back. -/
theorem not_onGlyph_of_isEmpty :
    let t := ofText ['a', 'b']
    let made := (t.perform (.hideAll ['n'] ['^'] ['#'] ['*'])).tree
    Reachable t ∧ t.planOf (.hideAll ['n'] ['^'] ['#'] ['*']) =
        [(0, [⟨⟨0, 0⟩, '#', .fresh ['n'] none⟩])] ∧
      (made.node 0).text = ['#', 'a', 'b'] ∧ (made.node 1).place = some ⟨0, ⟨1, 2⟩⟩ ∧
      applyEdits (made.node 0).text [made.reveal 1] = ['#', 'b'] :=
  ⟨.initial (.ofText _ _), by cbv⟩

end Tree

end GlyphTree
