import GlyphTree.Proofs.Checked.Content

/-!
# Checked splices

Collapsing regions, with checks. A child inside a region stands no sooner than the body of the node
that takes it over, and it still stands there when its turn comes, for the cuts settled before have
moved others only (`Settleable`). So whatever is cut in a text that is laid out, with or without an
unfolded node, is safe to cut.
-/

namespace GlyphTree

namespace Tree

open Cells Patch Region

variable {t u : Tree} {p c id j : NodeId} {text : Text} {es : List Edit} {cut : Cut}
  {cuts : List Cut} {kids : List (NodeId × Span)} {moved : List NodeId}

/-! ## Definitions -/

/-- The tree with the node of a cut in it, not yet standing anywhere new, and its number. -/
def prepare? (t : Tree) (text : Text) (c : Cut) : Option (Tree × NodeId) :=
  match c.origin with
  | .fresh name groups => do
    let text ← text.slice? c.range
    return (t.alloc ⟨name, text, none, groups, none, [], []⟩, t.size)
  | .back node inner => do
    let text ← text.slice? inner
    let t ← t.modify? node fun n => some (moveGroups inner.start 0 { n with text, fold := none })
    return (t, node)

/-- Makes the node of a cut stand on its glyph, with the children `moved` out of the region. -/
def settle? (t : Tree) (parent : NodeId) (text : Text) (es : List Edit) (c : Cut)
    (moved : List NodeId) : Option Tree := do
  let start ← remapStartFrom? c.range.start 0 es
  let (t, id) ← t.prepare? text c
  let t ← moved.foldlM (fun t child => t.moveChild? id c.body.start 0 child) t
  t.putChild? parent id ⟨start, start + c.glyph.utf8Size⟩

/-- Settles cuts one after the other. -/
def settleAll? (parent : NodeId) (text : Text) (es : List Edit) :
    List Cut → List (NodeId × Span) → Tree → Option Tree
  | [], _, t => some t
  | c :: cs, kids, t => do
    let inside := kids.filter fun k => c.range.encloses k.2
    let outside := kids.filter fun k => !c.range.encloses k.2
    settleAll? parent text es cs outside (← t.settle? parent text es c (inside.map Prod.fst))

/-- A child with its span. -/
def withSpan? (t : Tree) (id : NodeId) : Option (NodeId × Span) :=
  (t.node? id).map fun n => (id, n.span.getD ⟨0, 0⟩)

/-- Collapses sorted regions of a node's text that do not overlap into glyphs. -/
def splice? (t : Tree) (parent : NodeId) (cuts : List Cut) : Option Tree := do
  let text := (← t.node? parent).text
  let es := cuts.map Cut.edit
  let kids ← (← t.children? parent).mapM t.withSpan?
  let stays := fun (k : NodeId × Span) => !cuts.any fun c => c.range.encloses k.2
  let t ← t.setChildren? parent ((kids.filter stays).map Prod.fst)
  settleAll? parent text es cuts kids (← t.rewrite? parent es)

/-! ## One cut -/

/-- The cuts of a text can be settled, and `kids` taken over by their nodes. -/
structure Settleable (t : Tree) (p : NodeId) (text : Text) (cuts : List Cut)
    (kids : List (NodeId × Span)) : Prop where
  housed : t.Housed
  parent : p < t.size
  nodup : (kids.map Prod.fst).Nodup
  lt : ∀ k ∈ kids, k.1 < t.size
  body : ∀ c ∈ cuts, text.Holds c.body
  back : ∀ c ∈ cuts, ∀ node inner, c.origin = .back node inner →
    node < t.size ∧ ∀ k ∈ kids, k.1 ≠ node
  moves : ∀ c ∈ cuts, ∀ k ∈ kids, c.range.encloses k.2 = true → t.MovesBy c.body.start 0 k.1

/-- The node of a cut, fresh or not, is one of the tree, and no other node has moved. -/
theorem prepare?_eq (h : t.Housed) (hbody : text.Holds cut.body)
    (hback : ∀ node inner, cut.origin = .back node inner → node < t.size) :
    t.prepare? text cut = some (t.prepare text cut) ∧ (t.prepare text cut).1.Housed ∧
      t.size ≤ (t.prepare text cut).1.size ∧
      (t.prepare text cut).2 < (t.prepare text cut).1.size ∧
      ∀ j, ((t.prepare text cut).1.node j).place = (t.node j).place := by
  have hslice := hbody.slice?_eq
  unfold prepare? prepare
  cases ho : cut.origin with
  | fresh name groups =>
    rw [Cut.body, ho] at hslice
    dsimp only at hslice ⊢
    rw [hslice]
    have halloc := h.alloc (n := ⟨name, text.slice cut.range, none, groups, none, [], []⟩)
      ⟨fun _ hc => absurd hc List.not_mem_nil, fun _ hp => by cases hp⟩
    refine ⟨rfl, halloc, by simp, by simp, fun j => ?_⟩
    rw [node_alloc]
    split
    · next hj => rw [hj, node_eq_default (Nat.le_refl _)]; rfl
    · rfl
  | back node inner =>
    rw [Cut.body, ho] at hslice
    dsimp only at hslice ⊢
    have hlt := hback node inner ho
    rw [hslice, Option.bind_eq_bind, Option.bind_some, modify?_some hlt]
    exact ⟨rfl, h.modify fun hn => hn, by simp, by simpa using hlt,
      fun j => place_modify t node j rfl⟩

/-- Settling a cut leaves all nodes where they are but its own and those taken over. -/
theorem settle?_eq (h : Settleable t p text (cut :: cuts) kids)
    (hes : Pieces 0 text (es.map Edit.range)) (hnd : moved.Nodup)
    (hmoved : ∀ c ∈ moved, c < t.size ∧ t.MovesBy cut.body.start 0 c) :
    t.settle? p text es cut moved = some (t.settle p text es cut moved) ∧
      (t.settle p text es cut moved).Housed ∧
      ∀ j, j < t.size → j ∉ moved → (∀ inner, cut.origin ≠ .back j inner) →
        ((t.settle p text es cut moved).node j).place = (t.node j).place := by
  have hback := fun node inner ho => (h.back cut List.mem_cons_self node inner ho).1
  obtain ⟨hpre, hhoused, hle, hid, hplace⟩ :=
    prepare?_eq h.housed (h.body cut List.mem_cons_self) hback
  have hown : ∀ j, j < t.size → j = (t.prepare text cut).2 →
      ∃ inner, cut.origin = .back j inner := fun j hj he => by
    unfold prepare at he
    cases ho : cut.origin with
    | fresh name groups => simp only [ho] at he; exact absurd hj (by rw [he]; exact lt_irrefl _)
    | back node inner => simp only [ho] at he; exact ⟨inner, he ▸ rfl⟩
  unfold settle? settle
  rw [remapStartFrom?_eq hes (Nat.zero_le _) (by simp), hpre]
  generalize t.prepare text cut = r at hhoused hle hid hplace hown
  obtain ⟨u, id⟩ := r
  dsimp only at hhoused hle hid hplace hown
  obtain ⟨hfold, hfhoused, hfplace⟩ := foldlM_moveChild? hhoused hid hnd fun c hc =>
    ⟨(hmoved c hc).1.trans_le hle, (hmoved c hc).2.congr (hplace c)⟩
  have hput := fun s => putChild?_eq (p := p) (c := id) hfhoused
    (by rw [size_foldl_moveChild]; exact h.parent.trans_le hle)
    (by rw [size_foldl_moveChild]; exact hid) s
  simp only [Option.bind_eq_bind, Option.bind_some, hfold]
  refine ⟨hput _, hfhoused.putChild ?_ ?_ _, fun j hj hnot hne => ?_⟩
  · rw [size_foldl_moveChild]; exact h.parent.trans_le hle
  · rw [size_foldl_moveChild]; exact hid
  · have hjid : j ≠ id := fun e => (hown j hj e).elim hne
    exact (place_putChild hjid _).trans ((hfplace j hnot).trans (hplace j))

/-! ## All cuts -/

theorem settleAll?_eq (h : Settleable t p text cuts kids)
    (hes : Pieces 0 text (es.map Edit.range)) :
    settleAll? p text es cuts kids t = some (settleAll p text es cuts kids t) ∧
      (settleAll p text es cuts kids t).Housed := by
  induction cuts generalizing t kids with
  | nil => exact ⟨rfl, h.housed⟩
  | cons cut cuts ih =>
    have hinside : ((kids.filter fun k => cut.range.encloses k.2).map Prod.fst).Nodup :=
      h.nodup.sublist ((List.filter_sublist).map Prod.fst)
    obtain ⟨hstep, hhoused, hplace⟩ := settle?_eq h hes hinside fun c hc => by
      obtain ⟨k, hk, rfl⟩ := List.mem_map.1 hc
      obtain ⟨hk, henc⟩ := List.mem_filter.1 hk
      exact ⟨h.lt k hk, h.moves cut List.mem_cons_self k hk henc⟩
    rw [settleAll?, settleAll, hstep]
    have hsize := Nat.le.intro (size_settle t p text es cut
      ((kids.filter fun k => cut.range.encloses k.2).map Prod.fst)).symm
    have hsub : ∀ k ∈ kids.filter fun k => !cut.range.encloses k.2, k ∈ kids := fun k hk =>
      (List.mem_filter.1 hk).1
    refine ih ⟨hhoused, h.parent.trans_le hsize, h.nodup.sublist ((List.filter_sublist).map _),
      fun k hk => (h.lt k (hsub k hk)).trans_le hsize,
      fun c hc => h.body c (List.mem_cons_of_mem _ hc), fun c hc node inner ho => ?_,
      fun c hc k hk henc => ?_⟩
    · obtain ⟨hlt, hne⟩ := h.back c (List.mem_cons_of_mem _ hc) node inner ho
      exact ⟨hlt.trans_le hsize, fun k hk => hne k (hsub k hk)⟩
    · refine (h.moves c (List.mem_cons_of_mem _ hc) k (hsub k hk) henc).congr
        (hplace k.1 (h.lt k (hsub k hk)) (fun hmem => ?_) fun inner ho =>
          (h.back cut List.mem_cons_self k.1 inner ho).2 k (hsub k hk) rfl)
      -- a child is not both inside the region and outside of it
      obtain ⟨k', hk', he⟩ := List.mem_map.1 hmem
      obtain rfl := List.inj_on_of_nodup_map h.nodup (List.mem_filter.1 hk').1 (hsub k hk) he
      simp_all

section

variable (h : t.Housed) (hp : p < t.size) (hnd : (t.children p).Nodup)
  (hbody : ∀ cut ∈ cuts, (t.node p).text.Holds cut.body)
  (hback : ∀ cut ∈ cuts, ∀ node inner, cut.origin = .back node inner →
    node < t.size ∧ node ∉ t.children p)
  (hmoves : ∀ cut ∈ cuts, ∀ c ∈ t.children p,
    cut.range.encloses (t.withSpan c).2 = true → t.MovesBy cut.body.start 0 c)
include h hp hnd hbody hback hmoves

/-- The children inside the cuts stand where they stood when they have been taken off the list and the
text has been edited. -/
theorem Housed.settleable {stays : List NodeId} (hstays : stays = (t.children p).filter fun c =>
    !cuts.any fun cut => cut.range.encloses (t.withSpan c).2) (es : List Edit) :
    Settleable ((t.setChildren p stays).rewrite p es) p (t.node p).text cuts
      ((t.children p).map t.withSpan) := by
  have hsize : ((t.setChildren p stays).rewrite p es).size = t.size := by simp
  have hfst : ((t.children p).map t.withSpan).map Prod.fst = t.children p := by
    rw [List.map_map]
    exact List.map_id _
  have hkid : ∀ k ∈ (t.children p).map t.withSpan, k.1 ∈ t.children p ∧ k = t.withSpan k.1 :=
    fun k hk => by
      obtain ⟨c, hc, rfl⟩ := List.mem_map.1 hk
      exact ⟨hc, rfl⟩
  refine ⟨Housed.rewrite (h.setChildren fun c hc => ?_) p es, hsize ▸ hp, by rwa [hfst],
    fun k hk => ?_, hbody, fun cut hcut node inner ho => ?_, fun cut hcut k hk henc => ?_⟩
  · exact h.lt_of_mem (List.mem_filter.1 (hstays ▸ hc)).1
  · rw [hsize]
    exact h.lt_of_mem (hkid k hk).1
  · obtain ⟨hlt, hnot⟩ := hback cut hcut node inner ho
    exact ⟨hsize ▸ hlt, fun k hk e => hnot (e ▸ (hkid k hk).1)⟩
  · obtain ⟨hmem, he⟩ := hkid k hk
    rw [he] at henc
    have hoff : k.1 ∉ (t.setChildren p stays).children p := fun hin => by
      rw [Tree.children, node_setChildren _ hp, if_pos rfl, hstays] at hin
      have hno := (List.mem_filter.1 hin).2
      simp only [Bool.not_eq_true', List.any_eq_false] at hno
      exact hno cut hcut henc
    exact (hmoves cut hcut k.1 hmem henc).congr
      ((place_rewrite hoff es).trans (place_modify t p k.1 rfl))

/-- Cuts may be spliced if they are pieces of the text, their bodies are spans of it, and no child
inside one of them stands before the body. -/
theorem Housed.splice?_eq (hpieces : Pieces 0 (t.node p).text (cuts.map Cut.range)) :
    t.splice? p cuts = some (t.splice p cuts) ∧ (t.splice p cuts).Housed := by
  have hkids : (t.children p).mapM t.withSpan? = some ((t.children p).map t.withSpan) :=
    mapM_eq_some fun c hc => by rw [withSpan?, node?_eq (h.lt_of_mem hc)]; rfl
  have hranges : (cuts.map Cut.edit).map Edit.range = cuts.map Cut.range := by
    rw [List.map_map]; rfl
  obtain ⟨stays, hs, hstays⟩ : ∃ stays, stays = (((t.children p).map t.withSpan).filter fun k =>
      !cuts.any fun cut => cut.range.encloses k.2).map Prod.fst ∧ stays = (t.children p).filter
        fun c => !cuts.any fun cut => cut.range.encloses (t.withSpan c).2 :=
    ⟨_, rfl, filter_spans_fst (fun s => !cuts.any fun cut => cut.range.encloses s)
      (fun c => (t.withSpan c).2) (t.children p)⟩
  have hcleared : (t.setChildren p stays).Housed := h.setChildren fun c hc =>
    h.lt_of_mem (List.mem_filter.1 (hstays ▸ hc)).1
  have htext : ((t.setChildren p stays).node p).text = (t.node p).text := by
    rw [node_setChildren _ hp, if_pos rfl]
  have hrewrite : (t.setChildren p stays).rewrite? p (cuts.map Cut.edit) =
      some ((t.setChildren p stays).rewrite p (cuts.map Cut.edit)) :=
    rewrite?_eq hcleared (by simpa using hp) (by rwa [htext, hranges])
  have hedits : Pieces 0 (t.node p).text ((cuts.map Cut.edit).map Edit.range) := by rwa [hranges]
  obtain ⟨hall, hhoused⟩ := settleAll?_eq
    (h.settleable hp hnd hbody hback hmoves hstays (cuts.map Cut.edit)) hedits
  unfold splice? splice
  rw [node?_eq hp, children?_eq hp]
  simp only [Option.bind_eq_bind, Option.bind_some]
  rw [hkids]
  simp only [Option.bind_some, setChildren?_eq hp]
  subst hs
  exact ⟨by rw [hrewrite]; exact hall, hhoused⟩

end

/-! ## Regions and unfolded nodes -/

/-- A child of a node that is laid out moves with its start, for its end is not before it. -/
theorem Layout.movesBy {cs : Cells} (h : Layout t p cs) (hc : c ∈ t.children p) {sub : Nat}
    (hsub : sub ≤ t.startOf c) : t.MovesBy sub 0 c := fun s hs => by
  obtain ⟨-, hlt, -⟩ := h.fits.region h.nested (h.children ▸ hc)
  obtain rfl := Option.some.inj ((span_eq_of_parent (h.parent hc)).symm.trans hs)
  exact ⟨hsub, hsub.trans hlt.le⟩

theorem withSpan_snd (h : (t.node c).parent = some p) :
    (t.withSpan c).2 = ⟨t.startOf c, t.stopOf c⟩ := by
  rw [withSpan, span_eq_of_parent h]
  rfl

theorem start_le_of_encloses {r s : Span} (h : r.encloses s = true) : r.start ≤ s.start := by
  simp only [Span.encloses, Bool.and_eq_true, decide_eq_true_eq] at h
  exact h.1.2

theorem body_of_mem_cuts {o : Nat} {rs : List Region} (h : cut ∈ Region.cuts o rs) :
    cut.body = cut.range ∧ ∀ node inner, cut.origin ≠ .back node inner := by
  induction rs generalizing o with
  | nil => cases h
  | cons r rs ih =>
    rcases List.mem_cons.1 h with rfl | h
    · exact ⟨rfl, fun _ _ => by simp⟩
    · exact ih h

/-- Regions of a node that is laid out, for fresh nodes. -/
theorem Layout.splice?_cuts {rs : List Region} {z : Cells} (h : Layout t p (cells rs z))
    (ht : t.Housed) : t.splice? p (Region.cuts 0 rs) = some (t.splice p (Region.cuts 0 rs)) ∧
      (t.splice p (Region.cuts 0 rs)).Housed := by
  have hpieces : Pieces 0 (t.node p).text ((Region.cuts 0 rs).map Cut.range) := by
    have := pieces_edits 0 (rs.map patch) z
    rw [← edits_patch, List.map_map] at this
    rw [h.text]
    exact this
  have hnd : (t.children p).Nodup := h.children ▸ h.nested.nodup
  refine ht.splice?_eq h.lt hnd (fun cut hcut => ?_)
    (fun cut hcut node inner ho => absurd ho ((body_of_mem_cuts hcut).2 node inner))
    (fun cut hcut c hc henc => h.movesBy hc ?_) hpieces
  · rw [(body_of_mem_cuts hcut).1]
    exact hpieces.holds _ (List.mem_map_of_mem hcut)
  · rw [withSpan_snd (h.parent hc)] at henc
    rw [(body_of_mem_cuts hcut).1]
    exact start_le_of_encloses henc

/-- The region of an unfolded node that has been taken off the list of its parent. -/
theorem Layout.splice?_foldCut {a b z : Cells} {F : Fold}
    (h : Layout t p (unfoldedCells id F a b z)) (ht : t.Housed) :
    let u := t.setChildren p ((t.children p).filter (· != id))
    let cut := foldCut id
      ⟨p, ⟨a.size, a.size + F.opening.utf8Size + b.size + F.closing.utf8Size⟩⟩ F
    u.splice? p [cut] = some (u.splice p [cut]) ∧ (u.splice p [cut]).Housed := by
  intro u cut
  have hbody : cut.body = ⟨a.size + F.opening.utf8Size, a.size + F.opening.utf8Size + b.size⟩ := by
    simp [cut, foldCut, Cut.body]
  have hnode : ∀ j, (u.node j).place = (t.node j).place := fun j => place_modify t p j rfl
  have hkids : u.children p = (t.children p).filter (· != id) := by
    rw [Tree.children, node_setChildren _ h.lt, if_pos rfl]
  have htext : (u.node p).text = (unfoldedCells id F a b z).text := by
    rw [node_setChildren _ h.lt, if_pos rfl]
    exact h.text
  have hid : id ∈ t.children p := by simp [h.children, unfoldedCells]
  have hpieces : Pieces 0 (u.node p).text [cut.range] := by
    have := pieces_edits 0 [foldPatch id F a b] z
    rw [htext]
    simpa [edits, before, foldPatch, unfoldedCells, cut, foldCut, Nat.add_assoc] using this
  refine (ht.setChildren fun c hc => ht.lt_of_mem (List.mem_filter.1 hc).1).splice?_eq
    (by simpa using h.lt) ?_ ?_ ?_ ?_ hpieces
  · rw [hkids]
    exact (h.children ▸ h.nested.nodup).filter _
  · simp only [List.mem_singleton, forall_eq]
    rw [hbody, htext]
    have := Text.slice?_append (a.text ++ [F.opening]) b.text (F.closing :: z.text)
    refine Text.isSome_slice?_iff.1 (Option.isSome_iff_exists.2 ⟨b.text, ?_⟩)
    simpa [unfoldedCells, Cells.size] using this
  · simp only [List.mem_singleton, forall_eq]
    intro node inner ho
    obtain ⟨rfl, -⟩ := Origin.back.inj ho
    have hne : ∀ i ∈ u.children p, i ≠ id := fun i hi => by
      rw [hkids, List.mem_filter] at hi
      exact bne_iff_ne.1 hi.2
    exact ⟨by simpa [u] using h.lt_size hid, fun hin => hne _ hin rfl⟩
  · simp only [List.mem_singleton, forall_eq]
    intro c hc henc
    have hmem := List.mem_filter.1 (hkids ▸ hc)
    have hwith : u.withSpan c = t.withSpan c := by
      rw [withSpan, withSpan, Node.span, hnode]
      rfl
    have hin : t.withSpan c ∈ (starts b).map t.withSpan := by
      rw [← h.filter_beside.1, ← h.children_beside, ← hwith]
      exact List.mem_filter.2 ⟨hwith ▸ List.mem_map_of_mem (hkids ▸ hc), henc⟩
    obtain ⟨i, hi, he⟩ := List.mem_map.1 hin
    obtain rfl : i = c := congrArg Prod.fst he
    have hfits := (fits_append.1 (fits_append.1 h.fits).1).2
    rw [hbody]
    exact (h.movesBy hmem.1 (by simpa using ((fits_some.1 hfits).2.startOf hi).1)).congr (hnode i)

end Tree

end GlyphTree
