import GlyphTree.Proofs.Literal
import GlyphTree.Proofs.Reading

/-!
# Other changes

Edits of literal text, fresh nodes that stand nowhere, names, and content that moves from node to
node. A move of content keeps a tree well-formed as long as it puts no node below itself.
-/

namespace GlyphTree.Tree

open Cells Patch Relation

variable {t t' : Tree} {p q x : NodeId} {cs z : Cells} {ps : List Patch}

/-! ## Literal text -/

theorem starts_after_of_literal (hlit : ∀ y ∈ ps, y.Literal) :
    starts (after ps z) = starts (before ps z) := by
  induction ps with
  | nil => rfl
  | cons y ps ih =>
    obtain ⟨hy, hlit⟩ := List.forall_mem_cons.1 hlit
    rw [after, before, starts_append, starts_append, starts_append, starts_append, ih hlit, hy.gone,
      hy.new, starts_plain, starts_plain]

section
variable (h : Layout t x (before ps z)) (hps : ps ≠ []) (hlit : ∀ y ∈ ps, y.Literal)
include h hps hlit

theorem Layout.edit_literal : Layout (t.rewrite x (edits 0 ps)) x (after ps z) := by
  have hc : ∀ y ∈ ps, Closed y.gone := by
    intro y hy
    rw [(hlit y hy).gone]
    exact closed_of_nest (nest_plain [] _)
  have hset : t.setChildren x (t.children x) = t := modify_eq_self rfl
  have := h.collapse hps hc fun y hy => (hlit y hy).new
  rwa [starts_after_of_literal hlit, ← h.children, hset] at this

omit hlit in
theorem Layout.node_edit (j : NodeId) : (t.rewrite x (edits 0 ps)).node j =
    if j = x then edited (edits 0 ps) (t.node x)
    else if j ∈ t.children x then followEdits (edits 0 ps) (t.node j) else t.node j := by
  have he : edits 0 ps ≠ [] := mt edits_eq_nil.1 hps
  refine node_rewrite he h.lt ?_ (fun k => h.lt_size) ?_
  · rw [h.children]
    exact h.nested.nodup
  · rw [h.children]
    exact h.irrefl

omit hlit in
theorem Layout.content_edit (j : NodeId) :
    ((t.rewrite x (edits 0 ps)).node j).fold = (t.node j).fold ∧
      (t.rewrite x (edits 0 ps)).children j = t.children j ∧
      (t.rewrite x (edits 0 ps)).expandedChildren j = t.expandedChildren j := by
  rw [Tree.children, expandedChildren, h.node_edit hps]
  split
  · rename_i hj
    subst hj
    exact ⟨rfl, rfl, rfl⟩
  · split
    · simp [Tree.children, expandedChildren]
    · exact ⟨rfl, rfl, rfl⟩

omit hlit in
theorem Layout.kept_edit : Kept [x] t (t.rewrite x (edits 0 ps)) where
  size := Nat.le_of_eq (size_rewrite t x _).symm
  content j _ hj := by
    obtain ⟨h1, h2, -⟩ := h.content_edit hps j
    refine ⟨?_, h2, h1⟩
    rw [h.node_edit hps, if_neg (by simpa using hj)]
    split <;> simp
  stands j _ hj := by
    have hj : j ∉ t.children x := hj x (by simp)
    rw [h.node_edit hps]
    split
    · rename_i hjx
      subst hjx
      exact ⟨rfl, rfl⟩
    · exact ⟨rfl, rfl⟩
  kids q hq c hc _ := by
    rw [(h.content_edit hps q).2.1] at hc
    rcases hq with hq | hq
    · exact ⟨q, hq, hc⟩
    · rw [Tree.children, node_eq_default hq] at hc
      cases hc

/-- Edits of literal text keep a tree well-formed. -/
theorem WellFormed.edit_literal (hw : WellFormed t) (hun : (t.node x).isUnfolded = false) :
    WellFormed (t.rewrite x (edits 0 ps)) := by
  have hk := h.kept_edit hps
  have hu : ∀ j, ((t.rewrite x (edits 0 ps)).node j).isUnfolded = (t.node j).isUnfolded :=
    fun j => Node.isUnfolded_congr (h.content_edit hps j).1
  have hf : (t.rewrite x (edits 0 ps)).folds = t.folds :=
    folds_of_aside (aside_rewrite t x _)
  refine ⟨hw.shaped.kept hk (fun q hq hlt => ?_) (fun q hq hqu => ?_)
    (fun j => (h.content_edit hps j).2.2) ?_, hf ▸ hw.stacked.kept hk hu⟩
  · rcases hq with hq | hq
    · rw [List.mem_singleton.1 hq]
      exact ⟨_, h.edit_literal hps hlit⟩
    · exact absurd hlt (Nat.not_lt.2 (size_rewrite t x _ ▸ hq))
  · rw [hu] at hqu
    rcases hq with hq | hq
    · rw [List.mem_singleton.1 hq, hun] at hqu
      cases hqu
    · rw [node_eq_default hq] at hqu
      cases hqu
  · refine hw.shaped.ranked.imp fun _ hr p c hc => hr p c ?_
    rwa [below, (h.content_edit hps p).2.1, (h.content_edit hps p).2.2] at hc

end

/-- The edits that replace a text in the literal runs of a node are those of patches, each of them
of literal cells. -/
theorem Shaped.exists_replacing (hs : Shaped t) (hx : x < t.size) {old : Text} (hold : old ≠ [])
    (new : Text) : ∃ ps z, Layout t x (before ps z) ∧ edits 0 ps = t.replacingEdits old new x ∧
      ∀ y ∈ ps, y.Literal := by
  obtain ⟨cs, hl⟩ := hs.layout x hx
  obtain ⟨A, rfl, hA⟩ := exists_replaces hold new cs
  exact ⟨A.patches, A.rest, hl, (hA.edits 0).trans (hl.replacingEdits_eq old new).symm,
    hA.literal⟩

/-- The text of an unfolded node is empty and has nothing to replace. -/
theorem Shaped.replacingEdits_of_unfolded (hs : Shaped t) (hu : (t.node x).isUnfolded = true)
    (old new : Text) : t.replacingEdits old new x = [] :=
  (hs.hollow x hu).replacingEdits_eq old new

theorem WellFormed.rewrite_replacingEdits (hw : WellFormed t) (hx : x < t.size) {old : Text}
    (hold : old ≠ []) (new : Text) : WellFormed (t.rewrite x (t.replacingEdits old new x)) := by
  obtain ⟨ps, z, hl, he, hlit⟩ := hw.shaped.exists_replacing hx hold new
  rw [← he]
  by_cases hnil : ps = []
  · subst hnil
    exact hw
  · refine hw.edit_literal hl hnil hlit ?_
    by_contra hu
    rw [hw.shaped.replacingEdits_of_unfolded (by simpa using hu)] at he
    exact hnil (edits_eq_nil.1 he)

theorem WellFormed.replaceEach (hw : WellFormed t) {ids : List NodeId}
    (hids : ∀ x ∈ ids, x < t.size) {old : Text} (hold : old ≠ []) (new : Text) :
    WellFormed (replaceEach old new ids t).2 := by
  induction ids generalizing t with
  | nil => exact hw
  | cons x ids ih =>
    obtain ⟨hx, hids⟩ := List.forall_mem_cons.1 hids
    apply ih (hw.rewrite_replacingEdits hx hold new)
    intro y hy
    rw [size_rewrite]
    exact hids y hy

/-! ## Names -/

theorem node_rename (t : Tree) (id : NodeId) (name : Text) (j : NodeId) :
    (t.rename id name).node j =
      if j = id ∧ j < t.size then { t.node j with name } else t.node j := by
  unfold rename
  dsimp only
  split
  · rename_i hn
    split
    · rename_i hj
      rw [hj.1, ← hn]
    · rfl
  · have hnames : ∀ (names : NameIndex) (s : Tree), ({ s with names } : Tree).node j = s.node j :=
      fun _ _ => rfl
    rw [hnames, node_modify]

@[simp] theorem size_rename (t : Tree) (id : NodeId) (name : Text) :
    (t.rename id name).size = t.size := by
  unfold rename
  dsimp only
  split
  · rfl
  · exact size_modify t id _

theorem alike_rename (t : Tree) (id : NodeId) (name : Text) : Alike t (t.rename id name) := by
  refine ⟨size_rename t id name, fun j => ?_⟩
  rw [node_rename]
  split
  · exact ⟨name, _, rfl⟩
  · exact ⟨_, _, rfl⟩

theorem aside_rename (t : Tree) (id : NodeId) (name : Text) :
    (t.rename id name).aside = t.aside := by
  unfold rename
  dsimp only
  split <;> rfl

theorem folds_rename (t : Tree) (id : NodeId) (name : Text) :
    (t.rename id name).folds = t.folds := folds_of_aside (aside_rename t id name)

theorem alike_foldl_rename (ids : List NodeId) (name : Text) (t : Tree) :
    Alike t (ids.foldl (fun t id => t.rename id name) t) ∧
      (ids.foldl (fun t id => t.rename id name) t).aside = t.aside := by
  induction ids generalizing t with
  | nil => exact ⟨.refl t, rfl⟩
  | cons id ids ih =>
    obtain ⟨h1, h2⟩ := ih (t.rename id name)
    exact ⟨(alike_rename t id name).trans h1, h2.trans (aside_rename t id name)⟩

theorem alike_renameAll (t : Tree) (newName scope oldName : Text) :
    Alike t (t.renameAll newName scope oldName).2 ∧
      (t.renameAll newName scope oldName).2.aside = t.aside := alike_foldl_rename ..

/-! ## Fresh nodes -/

theorem node_alloc_of_ne {n : Node} {j : NodeId} (hj : j ≠ t.size) :
    (t.alloc n).node j = t.node j := by
  rw [node_alloc, if_neg hj]

theorem children_alloc (name text : Text) (groups : Groups) (j : NodeId) :
    (t.alloc ⟨name, text, none, groups, none, [], []⟩).children j = t.children j ∧
      (t.alloc ⟨name, text, none, groups, none, [], []⟩).expandedChildren j =
        t.expandedChildren j := by
  rw [children, children, expandedChildren, expandedChildren, node_alloc]
  split
  · rename_i hj
    rw [node_eq_default (Nat.le_of_eq hj.symm)]
    exact ⟨rfl, rfl⟩
  · exact ⟨rfl, rfl⟩

theorem isUnfolded_alloc (name text : Text) (groups : Groups) (j : NodeId) :
    ((t.alloc ⟨name, text, none, groups, none, [], []⟩).node j).isUnfolded =
      (t.node j).isUnfolded := by
  rw [node_alloc]
  split
  · rename_i hj
    rw [node_eq_default (Nat.le_of_eq hj.symm)]
    rfl
  · rfl

theorem kept_detached (t : Tree) (text : Text) : Kept [] t (t.detached text).2 := by
  change Kept [] t (t.alloc ⟨[], text, none, none, none, [], []⟩)
  have hc := children_alloc (t := t) [] text none
  refine ⟨(size_alloc t _).symm ▸ Nat.le_succ _, fun j hj _ => ?_, fun j hj _ => ?_,
    fun q hq c hc' _ => ?_⟩
  · rw [(hc j).1, node_alloc_of_ne (Nat.ne_of_lt hj)]
    exact ⟨rfl, rfl, rfl⟩
  · rw [node_alloc_of_ne (Nat.ne_of_lt hj)]
    exact ⟨rfl, rfl⟩
  · rw [(hc q).1, Tree.children, node_eq_default (hq.resolve_left List.not_mem_nil)] at hc'
    cases hc'

theorem Shaped.shaped_detached (hs : Shaped t) (text : Text) : Shaped (t.detached text).2 := by
  have hk := kept_detached t text
  change Kept [] t (t.alloc ⟨[], text, none, none, none, [], []⟩) at hk
  change Shaped (t.alloc ⟨[], text, none, none, none, [], []⟩)
  have hc := children_alloc (t := t) [] text none
  refine hs.kept hk (fun q hq hlt => ?_) (fun q hq hu => ?_) (fun j => (hc j).2) ?_
  · -- the fresh node is laid out as its text
    have hqs : q = t.size :=
      Nat.le_antisymm (Nat.le_of_lt_succ (Nat.lt_of_lt_of_eq hlt (size_alloc t _)))
        (hq.resolve_left List.not_mem_nil)
    subst hqs
    refine ⟨plain text, hlt, ?_, ?_, fits_plain _, nested_plain _, by simp⟩
    · rw [node_alloc, if_pos rfl, text_plain]
    · rw [Tree.children, node_alloc, if_pos rfl, starts_plain]
  · rw [isUnfolded_alloc, node_eq_default (hq.resolve_left List.not_mem_nil)] at hu
    cases hu
  · refine hs.ranked.imp fun _ hr p c hcp => hr p c ?_
    rwa [below, (hc p).1, (hc p).2] at hcp

/-- A fresh node that stands nowhere. -/
theorem WellFormed.faithful_detached (hw : WellFormed t) (text : Text) :
    Faithful t (t.detached text).2 := by
  have hk := kept_detached t text
  have hs := hw.shaped.shaped_detached text
  refine ⟨⟨hs, hw.stacked.kept hk fun j => isUnfolded_alloc [] text none j⟩, ?_⟩
  exact hw.shaped.reading_unique
    (fun x cs hl => hs.reading_eq (hk.layout hw.shaped hl List.not_mem_nil)) hw.shaped.root

/-! ## Content -/

/-- A node that stands in the text of `target` from now on. -/
def adopted (target : NodeId) (n : Node) : Node :=
  { n with place := n.place.map fun p => { p with parent := target } }

section
variable {target source : NodeId} (hne : target ≠ source)
include hne

theorem replaceContent_eq : t.replaceContent target source =
    ((t.children source).foldl (fun t c => t.modify c (adopted target))
      ((t.rename target (t.node source).name).setChildren source [])).modify target fun m =>
        { m with text := (t.node source).text, groups := (t.node source).groups,
                 children := t.children source } := by
  unfold replaceContent
  rw [if_neg hne]
  rfl

theorem size_replaceContent : (t.replaceContent target source).size = t.size := by
  rw [replaceContent_eq hne, size_modify, size_foldl_modify, size_setChildren, size_rename]

theorem folds_replaceContent : (t.replaceContent target source).folds = t.folds := by
  rw [replaceContent_eq hne, ← folds_rename t target (t.node source).name]
  exact folds_of_aside (by simp [aside_foldl_modify])

/-- The nodes after a move of content, be the source its own child or not. -/
theorem node_replaceContent_of_nodup (ht : target < t.size) (hsource : source < t.size)
    (hnd : (t.children source).Nodup) (hlt : ∀ k ∈ t.children source, k < t.size) (j : NodeId) :
    (t.replaceContent target source).node j =
      { (if j ∈ t.children source then adopted target (t.node j) else t.node j) with
        name := (t.node (if j = target then source else j)).name
        text := (t.node (if j = target then source else j)).text
        groups := (t.node (if j = target then source else j)).groups
        children := if j = target then t.children source else if j = source then []
          else t.children j } := by
  rw [replaceContent_eq hne, node_modify, size_foldl_modify, size_setChildren, size_rename,
    node_foldl_modify _ hnd (fun k hk => by simpa using hlt k hk),
    node_setChildren _ (by simpa using hsource), node_rename, node_rename]
  by_cases hj : j = target
  · subst hj
    simp only [ht, hne, and_self, if_true, if_false]
    split <;> rfl
  · by_cases hjs : j = source
    · subst hjs
      simp only [hj, false_and, if_true, if_false]
      split <;> rfl
    · simp only [hj, hjs, false_and, if_false]
      split <;> rfl

theorem node_replaceContent (ht : target < t.size) (hl : Layout t source cs) (j : NodeId) :
    (t.replaceContent target source).node j =
      if j = target then
        { (if j ∈ t.children source then adopted target (t.node j) else t.node j) with
          name := (t.node source).name, text := (t.node source).text,
          groups := (t.node source).groups, children := t.children source }
      else if j = source then { t.node source with children := [] }
      else if j ∈ t.children source then adopted target (t.node j)
      else t.node j := by
  rw [node_replaceContent_of_nodup hne ht hl.lt (hl.children ▸ hl.nested.nodup) fun _ => hl.lt_size]
  by_cases hj : j = target
  · simp only [hj, if_true]
  · by_cases hjs : j = source
    · have hirr : source ∉ t.children source := hl.children ▸ hl.irrefl
      subst hjs
      simp only [hj, hirr, if_true, if_false]
    · simp only [hj, hjs, if_false]
      split <;> rfl

/-- Content moves with the children; nothing else is listed anywhere else. -/
theorem children_replaceContent (ht : target < t.size) (hl : Layout t source cs) (j : NodeId) :
    (t.replaceContent target source).children j =
        (if j = target then t.children source else if j = source then [] else t.children j) ∧
      (t.replaceContent target source).expandedChildren j = t.expandedChildren j ∧
      ((t.replaceContent target source).node j).fold = (t.node j).fold := by
  rw [children, expandedChildren, node_replaceContent hne ht hl]
  by_cases hj : j = target
  · rw [if_pos hj, if_pos hj]
    split <;> exact ⟨rfl, rfl, rfl⟩
  · rw [if_neg hj, if_neg hj]
    by_cases hjs : j = source
    · rw [if_pos hjs, if_pos hjs, hjs]
      exact ⟨rfl, rfl, rfl⟩
    · rw [if_neg hjs, if_neg hjs]
      split <;> exact ⟨rfl, rfl, rfl⟩

section
variable (ht : target < t.size) (hl : Layout t source cs)
include ht hl

theorem layout_replaceContent_source :
    Layout (t.replaceContent target source) source (plain (t.node source).text) := by
  refine ⟨by rw [size_replaceContent hne]; exact hl.lt, ?_, ?_, fits_plain _, nested_plain _,
    by simp⟩
  · rw [node_replaceContent hne ht hl, if_neg (Ne.symm hne), if_pos rfl, text_plain]
  · rw [(children_replaceContent hne ht hl source).1, if_neg (Ne.symm hne), if_pos rfl,
      starts_plain]

theorem layout_replaceContent_target (hself : target ∉ t.children source) :
    Layout (t.replaceContent target source) target cs := by
  refine ⟨by rw [size_replaceContent hne]; exact ht, ?_, ?_, ?_, hl.nested,
    hl.children ▸ hself⟩
  · rw [node_replaceContent hne ht hl, if_pos rfl]
    exact hl.text
  · rw [(children_replaceContent hne ht hl target).1, if_pos rfl, hl.children]
  · refine hl.fits.move (n := 0) (fun i => i) (fun i => i) (fun i _ _ => by omega)
      (fun i _ _ => by omega) fun id hid s hs => ?_
    have hid : id ∈ t.children source := hl.children ▸ hl.nested.mem_ids.1 hid
    have h1 : id ≠ target := fun e => hself (e ▸ hid)
    have h2 : id ≠ source := fun e => hl.irrefl (hl.children ▸ e ▸ hid)
    rw [node_replaceContent hne ht hl, if_neg h1, if_neg h2, if_pos hid, adopted, hs]
    exact ⟨rfl, rfl⟩

theorem kept_replaceContent : Kept [target, source] t (t.replaceContent target source) where
  size := Nat.le_of_eq (size_replaceContent hne).symm
  content j _ hj := by
    rw [List.mem_cons, List.mem_singleton, not_or] at hj
    obtain ⟨h1, -, h3⟩ := children_replaceContent hne ht hl j
    refine ⟨?_, ?_, h3⟩
    · rw [node_replaceContent hne ht hl, if_neg hj.1, if_neg hj.2]
      split <;> rfl
    · rw [h1, if_neg hj.1, if_neg hj.2]
  stands j _ hj := by
    have hjs : j ∉ t.children source := hj source (by simp)
    refine ⟨?_, (children_replaceContent hne ht hl j).2.2⟩
    rw [node_replaceContent hne ht hl, if_neg hjs]
    split
    · rfl
    · split
      · rename_i h
        rw [h]
      · rfl
  kids q hq c hc hlt := by
    refine ⟨source, by simp, ?_⟩
    rw [(children_replaceContent hne ht hl q).1] at hc
    rcases hq with hq | hq
    · rcases List.mem_cons.1 hq with hq | hq
      · rwa [if_pos hq] at hc
      · rw [List.mem_singleton.1 hq, if_neg (Ne.symm hne), if_pos rfl] at hc
        cases hc
    · have hq' : ∀ {i : NodeId}, i < t.size → q ≠ i := fun hi e => Nat.not_lt.2 hq (e ▸ hi)
      rw [if_neg (hq' ht), if_neg (hq' hl.lt), children, node_eq_default hq] at hc
      cases hc

end

end

/-- Moving content between nodes that are not unfolded, if no node comes to be below itself. -/
theorem WellFormed.replaceContent (hw : WellFormed t) {target source : NodeId}
    (ht : target < t.size) (hs : source < t.size)
    (htu : (t.node target).isUnfolded = false) (hsu : (t.node source).isUnfolded = false)
    (hr : Ranked (t.replaceContent target source).below) :
    WellFormed (t.replaceContent target source) := by
  by_cases hne : target = source
  · rw [Tree.replaceContent, if_pos hne]
    exact hw
  · obtain ⟨cs, hl⟩ := hw.shaped.layout source hs
    have hc := children_replaceContent hne ht hl
    have hself : target ∉ t.children source := by
      intro hm
      refine hr.irrefl target (.single (List.mem_append_left _ ?_))
      rwa [(hc target).1, if_pos rfl]
    have hk := kept_replaceContent hne ht hl
    have hu := fun j => Node.isUnfolded_congr (hc j).2.2
    refine ⟨hw.shaped.kept hk (fun q hq hlt => ?_) (fun q hq hqu => ?_)
      (fun j => (hc j).2.1) hr, ?_⟩
    · rcases hq with hq | hq
      · rcases List.mem_cons.1 hq with hq | hq
        · rw [hq]
          exact ⟨_, layout_replaceContent_target hne ht hl hself⟩
        · rw [List.mem_singleton.1 hq]
          exact ⟨_, layout_replaceContent_source hne ht hl⟩
      · rw [size_replaceContent hne] at hlt
        exact absurd hlt (Nat.not_lt.2 hq)
    · rw [hu] at hqu
      rcases hq with hq | hq
      · rcases List.mem_cons.1 hq with hq | hq
        · rw [hq, htu] at hqu
          cases hqu
        · rw [List.mem_singleton.1 hq, hsu] at hqu
          cases hqu
      · rw [node_eq_default hq] at hqu
        cases hqu
    · rw [folds_replaceContent hne]
      exact hw.stacked.kept hk hu

section
variable {target source : NodeId}

theorem Shaped.children_replaceContent (hs : Shaped t) (hne : target ≠ source)
    (ht : target < t.size) (hsrc : source < t.size) (j : NodeId) :
    (t.replaceContent target source).children j =
        (if j = target then t.children source else if j = source then [] else t.children j) ∧
      (t.replaceContent target source).expandedChildren j = t.expandedChildren j ∧
      ((t.replaceContent target source).node j).fold = (t.node j).fold := by
  obtain ⟨cs, hl⟩ := hs.layout source hsrc
  exact Tree.children_replaceContent hne ht hl j

theorem Shaped.isUnfolded_replaceContent (hs : Shaped t) (hne : target ≠ source)
    (ht : target < t.size) (hsrc : source < t.size) (j : NodeId) :
    ((t.replaceContent target source).node j).isUnfolded = (t.node j).isUnfolded :=
  Node.isUnfolded_congr (hs.children_replaceContent hne ht hsrc j).2.2

/-- Whatever is below a node after a move of content was below that node or the source. -/
theorem Shaped.mem_below_replaceContent (hs : Shaped t) (ht : target < t.size)
    (hsrc : source < t.size) {j c : NodeId} (hc : c ∈ (t.replaceContent target source).below j) :
    c ∈ t.below j ∨ j = target ∧ c ∈ t.children source := by
  by_cases hne : target = source
  · rw [replaceContent, if_pos hne] at hc
    exact .inl hc
  · obtain ⟨h1, h2, -⟩ := hs.children_replaceContent hne ht hsrc j
    rw [below, h1, h2, List.mem_append] at hc
    rcases hc with hc | hc
    · split at hc
      · rename_i hj
        exact .inr ⟨hj, hc⟩
      · split at hc
        · cases hc
        · exact .inl (List.mem_append_left _ hc)
    · exact .inl (List.mem_append_right _ hc)

theorem Shaped.below_lt_replaceContent (hs : Shaped t) (ht : target < t.size)
    (hsrc : source < t.size) (p : NodeId) :
    ∀ c ∈ (t.replaceContent target source).below p, p < t.size ∧ c < t.size := by
  intro c hc
  rcases hs.mem_below_replaceContent ht hsrc hc with hc' | ⟨rfl, hc'⟩
  · exact hs.below_lt p c hc'
  · exact ⟨ht, (hs.below_lt source c (List.mem_append_left _ hc')).2⟩

theorem Shaped.ranked_replaceContent (hs : Shaped t) (ht : target < t.size)
    (hsrc : source < t.size) (hacyc : Acyclic (t.replaceContent target source)) :
    Ranked (t.replaceContent target source).below :=
  ranked_of_irrefl (n := t.size) hacyc (hs.below_lt_replaceContent ht hsrc)

/-- Overwriting a node with the content of another. -/
theorem WellFormed.replaceNode (hw : WellFormed t) (htu : (t.node target).isUnfolded = false)
    (hsu : (t.node source).isUnfolded = false)
    (hacyc : Acyclic (t.replaceNode target source).tree) :
    WellFormed (t.replaceNode target source).tree := by
  unfold Tree.replaceNode at hacyc ⊢
  split at hacyc
  · rename_i hs
    rw [if_pos hs]
    split at hacyc
    · rename_i ht
      rw [if_pos ht]
      exact hw.replaceContent ht hs htu hsu (hw.shaped.ranked_replaceContent ht hs hacyc)
    · rename_i ht
      rw [if_neg ht]
      exact hw
  · rename_i hs
    rw [if_neg hs]
    exact hw

end

/-- A node that has no children and is listed nowhere. -/
structure Vacant (t : Tree) (k : NodeId) : Prop where
  lt : k < t.size
  below : ∀ q, k ∉ t.below q
  expanded : t.expandedChildren k = []
  fold : (t.node k).isUnfolded = false

section
variable {a b k : NodeId}

/-- No move of content lists a vacant node. -/
theorem Vacant.not_below_replaceContent (hk : Vacant t k) (hs : Shaped t) (ha : a < t.size)
    (hb : b < t.size) (q : NodeId) : k ∉ (t.replaceContent a b).below q := fun hq => by
  rcases hs.mem_below_replaceContent ha hb hq with hq | ⟨-, hq⟩
  · exact hk.below q hq
  · exact hk.below b (List.mem_append_left _ hq)

/-- A vacant node takes the content of another one. -/
theorem WellFormed.fill_vacant (hw : WellFormed t) (hk : Vacant t k) (ha : a < t.size)
    (hka : k ≠ a) (hau : (t.node a).isUnfolded = false) :
    WellFormed (t.replaceContent k a) ∧ Vacant (t.replaceContent k a) k := by
  have h := hw.shaped.children_replaceContent hka hk.lt ha
  have hfree := hk.not_below_replaceContent hw.shaped hk.lt ha
  refine ⟨hw.replaceContent hk.lt ha hk.fold hau (hw.shaped.ranked.of_moved (k := k) (m := a)
    hfree (fun q hq c hc => ?_) fun c hc => ?_), ?_, hfree, (h k).2.1.trans hk.expanded, ?_⟩
  · exact (hw.shaped.mem_below_replaceContent hk.lt ha hc).resolve_right fun h => hq h.1
  · rw [Tree.below, (h k).1, (h k).2.1, if_pos rfl, hk.expanded, List.append_nil] at hc
    exact List.mem_append_left _ hc
  · rw [size_replaceContent hka]
    exact hk.lt
  · exact (hw.shaped.isUnfolded_replaceContent hka hk.lt ha k).trans hk.fold

/-- Content that goes from `b` to `a`, and then to `b` from a vacant node. -/
theorem WellFormed.pass_on (hw : WellFormed t) (hk : Vacant t k) (ha : a < t.size) (hb : b < t.size)
    (hka : k ≠ a) (hkb : k ≠ b) (hab : a ≠ b) (hau : (t.node a).isUnfolded = false)
    (hbu : (t.node b).isUnfolded = false)
    (hacyc : Acyclic ((t.replaceContent a b).replaceContent b k)) :
    WellFormed (t.replaceContent a b) ∧
      WellFormed ((t.replaceContent a b).replaceContent b k) := by
  have hs := hw.shaped
  obtain ⟨cs, hlb⟩ := hs.layout b hb
  obtain ⟨ds, hlk⟩ := hs.layout k hk.lt
  have h₁ := hs.children_replaceContent hab ha hb
  have hlk₁ := (kept_replaceContent hab ha hlb).layout hs hlk (by simp [hka, hkb])
  have hsize : (t.replaceContent a b).size = t.size := size_replaceContent hab
  have h₂ := fun j => children_replaceContent (Ne.symm hkb) (hsize ▸ hb) hlk₁ (j := j)
  have hlt₁ := hs.below_lt_replaceContent ha hb
  -- ranks of the last tree also rank the one in between, where nothing lists the vacant node
  have hr₂ : Ranked ((t.replaceContent a b).replaceContent b k).below := by
    apply ranked_of_irrefl (n := t.size) hacyc
    intro p c hc
    rw [below, (h₂ p).1, (h₂ p).2.1, List.mem_append] at hc
    rcases hc with hc | hc
    · split at hc
      · rename_i hp
        exact ⟨hp ▸ hb, (hlt₁ k c (List.mem_append_left _ hc)).2⟩
      · split at hc
        · cases hc
        · exact hlt₁ p c (List.mem_append_left _ hc)
    · exact hlt₁ p c (List.mem_append_right _ hc)
  have hr₁ : Ranked (t.replaceContent a b).below := by
    refine hr₂.of_moved (k := k) (m := b) (hk.not_below_replaceContent hs ha hb)
      (fun q hq c hc => ?_) fun c hc => ?_
    · rw [below, (h₂ q).1, (h₂ q).2.1, if_neg hq]
      split
      · rename_i hqb
        rw [below, (h₁ q).1, hqb, if_neg (Ne.symm hab), if_pos rfl, List.nil_append] at hc
        exact List.mem_append_right _ (hqb ▸ hc)
      · exact hc
    · rw [below, (h₁ k).2.1, hk.expanded, List.append_nil] at hc
      rw [below, (h₂ b).1, if_pos rfl]
      exact List.mem_append_left _ hc
  have hun := hs.isUnfolded_replaceContent hab ha hb
  have hw₁ := hw.replaceContent ha hb hau hbu hr₁
  exact ⟨hw₁, hw₁.replaceContent (hsize ▸ hb) (hsize ▸ hk.lt) ((hun b).trans hbu)
    ((hun k).trans hk.fold) hr₂⟩

theorem Shaped.vacant_alloc (hs : Shaped t) (text : Text) :
    Vacant (t.detached text).2 (t.detached text).1 := by
  have hc := children_alloc (t := t) [] text none
  refine ⟨?_, fun q hq => ?_, ?_, ?_⟩
  · rw [detached, size_alloc]
    exact Nat.lt_succ_self _
  · rw [detached, below, (hc q).1, (hc q).2] at hq
    exact Nat.lt_irrefl _ (hs.below_lt q _ hq).2
  · rw [detached, (hc _).2, expandedChildren, node_eq_default (Nat.le_refl _)]
    rfl
  · rw [detached, node_alloc, if_pos rfl]
    rfl

theorem swap_tree (ha : a < t.size) (hb : b < t.size) : (t.swap a b).tree =
    (((t.detached []).2.replaceContent t.size a).replaceContent a b).replaceContent b t.size := by
  rw [Tree.swap, if_pos ha, if_pos hb]
  rfl

/-- Each of the three moves by which contents are exchanged keeps the tree well-formed. -/
theorem WellFormed.swap_stages (hw : WellFormed t) (ha : a < t.size) (hb : b < t.size)
    (hau : (t.node a).isUnfolded = false) (hbu : (t.node b).isUnfolded = false)
    (hacyc : Acyclic (t.swap a b).tree) :
    WellFormed ((t.detached []).2.replaceContent t.size a) ∧
      WellFormed (((t.detached []).2.replaceContent t.size a).replaceContent a b) ∧
      WellFormed ((((t.detached []).2.replaceContent t.size a).replaceContent a b).replaceContent b
        t.size) := by
  rw [swap_tree ha hb] at hacyc
  have hv : Vacant (t.detached []).2 t.size := hw.shaped.vacant_alloc []
  have hw₀ := (hw.faithful_detached []).wellFormed
  have hne : ∀ {j}, j < t.size → t.size ≠ j := fun {j} hj (e : t.size = j) =>
    Nat.lt_irrefl j (e ▸ hj)
  have hsize : (t.detached []).2.size = t.size + 1 := size_alloc t _
  have hnode : ∀ {j}, j < t.size → (t.detached []).2.node j = t.node j := fun hj =>
    node_alloc_of_ne (Nat.ne_of_lt hj)
  have ha' : a < (t.detached []).2.size := hsize ▸ Nat.lt_succ_of_lt ha
  have hb' : b < (t.detached []).2.size := hsize ▸ Nat.lt_succ_of_lt hb
  rw [← hnode ha] at hau
  rw [← hnode hb] at hbu
  generalize (t.detached []).2 = s at *
  have hka := hne ha
  have hkb := hne hb
  generalize t.size = k at *
  obtain ⟨hw₁, hv₁⟩ := hw₀.fill_vacant hv ha' hka hau
  have hun := hw₀.shaped.isUnfolded_replaceContent hka hv.lt ha'
  have hsize₁ := size_replaceContent (t := s) hka
  refine ⟨hw₁, ?_⟩
  by_cases hab : a = b
  · subst hab
    have hsame : (s.replaceContent k a).replaceContent a a = s.replaceContent k a := if_pos rfl
    rw [hsame] at hacyc ⊢
    exact ⟨hw₁, hw₁.replaceContent (hsize₁ ▸ ha') hv₁.lt ((hun a).trans hau) hv₁.fold
      (hw₁.shaped.ranked_replaceContent (hsize₁ ▸ ha') hv₁.lt hacyc)⟩
  · exact hw₁.pass_on hv₁ (hsize₁ ▸ ha') (hsize₁ ▸ hb') hka hkb hab ((hun a).trans hau)
      ((hun b).trans hbu) hacyc

/-- Exchanging the contents of two nodes. -/
theorem WellFormed.swap (hw : WellFormed t) (hau : (t.node a).isUnfolded = false)
    (hbu : (t.node b).isUnfolded = false) (hacyc : Acyclic (t.swap a b).tree) :
    WellFormed (t.swap a b).tree := by
  by_cases ha : a < t.size
  · by_cases hb : b < t.size
    · rw [swap_tree ha hb]
      exact (hw.swap_stages ha hb hau hbu hacyc).2.2
    · rwa [Tree.swap, if_pos ha, if_neg hb]
  · rwa [Tree.swap, if_neg ha]

end

end GlyphTree.Tree
