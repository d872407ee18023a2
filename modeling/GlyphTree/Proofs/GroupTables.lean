import GlyphTree.Proofs.Following

/-!
# Group tables

A node keeps the groups with which it was made. A change takes the body of the node along, and the
groups with it, so none of them leaves the body or drops out of the table; only a move of content
gives a node other groups (`Reachable.groups_valid`).
-/

namespace GlyphTree

open Cells Patch Region

/-- Which groups of a node are present, if it has a table. -/
def Node.present (n : Node) : Option (List Bool) := n.groups.map (·.map Option.isSome)

/-- The nodes to which a command gives the content of another one. -/
def Command.overwrites : Command → List NodeId
  | .replaceNode target _ => [target]
  | .swap a b => [a, b]
  | _ => []

theorem Node.present_congr {m n : Node} (h : m.groups = n.groups) : m.present = n.present := by
  rw [present, present, h]

/-- Groups that move but are not dropped. -/
theorem Node.present_mapGroups (f : Span → Span) (n : Node) :
    (n.mapGroups fun s => some (f s)).present = n.present := by
  rw [present, mapGroups, present, Option.map_map]
  congr 1
  funext gs
  rw [Function.comp_apply, List.map_map]
  refine List.map_congr_left fun g _ => ?_
  cases g <;> rfl

namespace Tree

variable {t t' u : Tree} {p q x id : NodeId} {F : Fold} {a b c cs z : Cells} {M : Stretch}
  {written : List NodeId} {folds : List NodeId}

/-- All nodes are laid out, and the groups of each node that has a body lie in it. -/
structure Tabled (t : Tree) : Prop where
  shaped : Shaped t
  grounded : t.Grounded
  seated : ∀ {x q off b}, Body t x q off b → Seated t x q off b

/-- The tree is still tabled after a change, and no old node has lost or gained a group, but for
those in `written`. -/
structure Retains (written : List NodeId) (t t' : Tree) : Prop where
  tabled : Tabled t'
  size : t.size ≤ t'.size
  present : ∀ x, x < t.size → x ∉ written → (t'.node x).present = (t.node x).present

theorem Tabled.retains (h : Tabled t) : Retains written t t := ⟨h, Nat.le_refl _, fun _ _ _ => rfl⟩

theorem Retains.trans (h : Retains written t u) (h' : Retains written u t') : Retains written t t' where
  tabled := h'.tabled
  size := Nat.le_trans h.size h'.size
  present x hx ho :=
    (h'.present x (Nat.lt_of_lt_of_le hx h.size) ho).trans (h.present x hx ho)

/-- The groups of an unfolded node lie between its markers. -/
theorem Tabled.between (h : Tabled t) {c : NodeId} {r s : Span} (hc : c ∈ t.children p)
    (hF : (t.node c).fold = some F) (hr : (t.node c).span = some r) (hs : (t.node c).Records s) :
    (t.node p).text.Holds s ∧ Between s F r := by
  obtain ⟨cs, hcs⟩ := h.shaped.exists_layout hc
  obtain ⟨a, b, d, rfl⟩ := hcs.exists_unfolded hc hF
  obtain ⟨r', hr', rfl⟩ := (h.seated (.lent hF hcs)).groups s hs
  rw [Node.span, hcs.place_of_unfolded] at hr
  obtain rfl := Option.some.inj hr
  have hholds := Text.Holds.within hr' (Cells.text (a ++ [⟨F.opening, some (.opening c)⟩]))
    (Cells.text (⟨F.closing, some (.closing c)⟩ :: d))
  have hsize : Text.byteSize (Cells.text (a ++ [⟨F.opening, some (.opening c)⟩])) = _ :=
    size_append_opening a F (.opening c)
  rw [← text_append, ← text_append, ← unfoldedCells_eq, hsize, ← hcs.text] at hholds
  have hend : r'.stop ≤ b.size := by simpa [Cells.size] using hr'.2.2.le
  refine ⟨hholds, ?_, ?_⟩
  · simp only [Span.shiftUp]
    omega
  · simp only [Span.shiftUp]
    omega

/-! ## Single changes -/

/-- Of the bodies it is those of unfolded nodes that have to be looked at. -/
theorem tabled_of_lent (hs : Shaped t) (hg : t.Grounded)
    (h : ∀ x q, x ∈ t.children q → (t.node x).isUnfolded = true → ∃ q off b, Seated t x q off b) :
    Tabled t where
  shaped := hs
  grounded := hg
  seated {x q off b} hb := by
    rcases hb.own_or_lent with ⟨-, ⟨hu, -⟩ | ⟨hu, hx⟩⟩
    · refine ⟨hb, fun s hr => ?_⟩
      cases hb with
      | own _ hl => exact ⟨s, hl.text ▸ hg x hu s hr, rfl⟩
      | lent hf => exact absurd hu (by simp [Node.isUnfolded_of_some hf])
    · obtain ⟨q', off', b', hseat⟩ := h x q hx hu
      obtain ⟨rfl, rfl, rfl⟩ := hb.unique hseat.body
      exact hseat

theorem Carried.present {B : Stretch} {off off' : Nat} (h : Carried t t' x off B q off') :
    (t'.node x).present = (t.node x).present :=
  (Node.present_congr h.groups).trans (Node.present_mapGroups _ _)

theorem Follows.retains (h : Follows t t' p M) (ht : Tabled t) (hs : Shaped t') (hg : t'.Grounded) :
    Retains written t t' := by
  have hcases : ∀ x, x < t.size → (∃ q off b, Seated t x q off b) ∨
      ((t'.node x).groups = (t.node x).groups ∧ ∀ q, x ∉ t'.children q) := by
    intro x hx
    by_cases hl : (t.node x).isUnfolded = true ∧ ∀ q, x ∉ t.children q
    · obtain ⟨h1, -, h2⟩ := h.unlisted x hx hl.1 hl.2
      exact .inr ⟨h1, h2⟩
    · obtain ⟨q, off, b, hb⟩ := ht.shaped.exists_body hx fun hu => by
        by_contra hno
        exact hl ⟨hu, not_exists.1 hno⟩
      exact .inl ⟨q, off, b, ht.seated hb⟩
  refine ⟨tabled_of_lent hs hg fun x q hx hu => ?_, h.size, fun x hx _ => ?_⟩
  · have hlt : x < t.size := by
      by_contra hle
      rw [h.fresh x (Nat.not_lt.1 hle)] at hu
      cases hu
    obtain ⟨q', off, b, hseat⟩ := (hcases x hlt).resolve_right fun hno => hno.2 q hx
    obtain ⟨B, q'', off', rfl, hc, -⟩ := h.seated hseat
    exact ⟨_, _, _, hseat.carried hc⟩
  · rcases hcases x hx with ⟨q, off, b, hseat⟩ | ⟨hg, -⟩
    · obtain ⟨B, q', off', rfl, hc, -⟩ := h.seated hseat
      exact hc.present
    · exact Node.present_congr hg

/-- A change that leaves texts, children and groups alone, but for fresh nodes. -/
theorem Tabled.retains_of_kept (ht : Tabled t) (k : Kept [] t t') (hs : Shaped t') (hg : t'.Grounded)
    (hn : ∀ x, x < t.size → (t'.node x).groups = (t.node x).groups)
    (hfresh : ∀ x, t.size ≤ x → (t'.node x).isUnfolded = false) : Retains written t t' := by
  refine ⟨tabled_of_lent hs hg fun x q hx hu => ?_, k.size,
    fun x hx _ => Node.present_congr (hn x hx)⟩
  have hlt : x < t.size := by
    by_contra hle
    rw [hfresh x (Nat.not_lt.1 hle)] at hu
    cases hu
  have hf := (k.content x hlt (by simp)).2.2
  obtain ⟨q', off, b, hb⟩ := ht.shaped.exists_body hlt fun _ => k.listed hx hlt
  refine ⟨q', off, b, k.body ht.shaped hb (by simp) hf, fun s hr => (ht.seated hb).groups s ?_⟩
  rwa [Node.Records, ← hn x hlt]

theorem Tabled.retains_of_alike (ht : Tabled t) (h : Alike t t')
    (hg : ∀ x, (t'.node x).groups = (t.node x).groups) : Retains written t t' := by
  have hgrounded : t'.Grounded := ht.grounded.of_resembles fun j =>
    ⟨h.text j, h.fold j, fun _ => hg j⟩
  refine ht.retains_of_kept h.kept (ht.shaped.alike h) hgrounded (fun x _ => hg x) fun x hx => ?_
  rw [node_eq_default (h.size ▸ hx)]
  rfl

theorem Tabled.beside (ht : Tabled t) (hn : t'.nodes = t.nodes) : Retains written t t' := by
  have hnode : ∀ x, t'.node x = t.node x := fun x => by rw [node, hn]; rfl
  refine ht.retains_of_alike ⟨by rw [size, hn]; rfl, fun x => ⟨_, _, hnode x⟩⟩ fun x => ?_
  rw [hnode]

/-! ## Operations -/

section
variable (ht : Tabled t)
include ht

theorem Tabled.splice {rs : List Region} (hs : Spliced t (t.splice p (cuts 0 rs)) p rs z)
    (hl : Layout t p (cells rs z)) (hrs : rs ≠ []) (hpos : ∀ r ∈ rs, 0 < r.gone.size)
    (hg : ∀ cut ∈ cuts 0 rs, cut.Grounded (t.node p).text) :
    Retains [] t (t.splice p (cuts 0 rs)) :=
  (hs.follows hl ht.shaped hrs hpos).retains ht (hs.shaped hl ht.shaped hrs hpos)
    (hl.grounded_splice ht.grounded hg)

theorem Tabled.foldBack (h : Folding t (t.foldedBack p id F a b c) p id a b c F) :
    Retains [] t (t.foldedBack p id F a b c) :=
  (h.around.follows_foldBack ht.shaped h.unfolded).retains ht (h.shaped_fold ht.shaped)
    (h.around.grounded_foldedBack ht.grounded)

theorem Tabled.unfoldAt (h : Hidden t p id a b c F) :
    Retains [] t (t.unfoldAt id ⟨p, ⟨a.size, a.size + F.glyph.utf8Size⟩⟩ F) :=
  (h.follows_unfoldAt ht.shaped).retains ht (h.folding.shaped_unfold ht.shaped)
    (h.grounded_unfoldAt ht.grounded)

theorem Tabled.expandChildren (hl : Layout t x cs) (hs : Shaped (t.expandChildren x))
    (hf : ∀ c ∈ t.children x, (t.node c).fold = none) : Retains [] t (t.expandChildren x) := by
  by_cases hne : t.children x = []
  · rw [expandChildren_of_childless hne]
    exact ht.retains
  · exact (hl.follows_expandChildren ht.shaped hne hf).retains ht hs
      (hl.grounded_expandChildren hf ht.grounded)

end

/-- What holds of a plan still to be carried out and of the tree, and holds of the rest and the tree
after each node that is cut, holds of the tree in the end. -/
theorem Tabled.applyPlan_induct {P : Plan → Tree → Prop} {plan : Plan} (ht : Tabled t)
    (hw : WellFormed t) (hp : Feasible t plan)
    (hskip : ∀ {u p rest}, P ((p, []) :: rest) u → P rest u)
    (hcut : ∀ {u p rest rs z}, P ((p, cuts 0 rs) :: rest) u → Tabled u → Layout u p (cells rs z) →
      rs ≠ [] → (∀ r ∈ rs, 0 < r.gone.size) → Spliced u (u.splice p (cuts 0 rs)) p rs z →
      Retains [] u (u.splice p (cuts 0 rs)) → (∀ x ∈ rest, x.1 ≠ p ∧ x.1 < u.size) →
      P rest (u.splice p (cuts 0 rs)))
    (h : P plan t) : P [] (t.applyPlan plan) := by
  refine (hw.applyPlan_induct (P := fun rest u => P rest u ∧ Tabled u ∧ ∀ x ∈ rest, ∀ cut ∈ x.2,
    cut.Grounded (u.node x.1).text) hp.nodup hp.fitting ?_ ?_ ⟨h, ht, hp.grounded⟩).1
  · exact fun h => ⟨hskip h.1, h.2.1, (List.forall_mem_cons.1 h.2.2).2⟩
  · rintro u p l rest rs z ⟨hP, hu, hc⟩ - hl rfl hrs hpos hs hrest
    obtain ⟨hcut', hc⟩ := List.forall_mem_cons.1 hc
    have hr := hu.splice hs hl hrs hpos hcut'
    have hlt : ∀ x ∈ rest, x.1 ≠ p ∧ x.1 < u.size := fun x hx => by
      obtain ⟨hne, _, _, hlx, -⟩ := hrest x hx
      exact ⟨hne, hlx.lt⟩
    refine ⟨hcut hP hu hl hrs hpos hs hr hlt, hr.tabled, fun x hx => ?_⟩
    rw [((hs.kept hl).content x.1 (hlt x hx).2 (by simpa using (hlt x hx).1)).1]
    exact hc x hx

theorem Tabled.applyPlan {plan : Plan} (ht : Tabled t) (hw : WellFormed t) (hp : Feasible t plan) :
    Retains [] t (t.applyPlan plan) :=
  ht.applyPlan_induct (P := fun _ => Retains [] t) hw hp id
    (fun hr _ _ _ _ _ hr' _ => hr.trans hr') ht.retains

theorem Folds.retains (h : Folds t folds t') (ht : Tabled t) : Retains [] t t' := by
  induction h with
  | done => exact ht.retains
  | skip _ _ ih => exact ih ht
  | back hF _ ih =>
    have hr := ht.foldBack hF
    exact hr.trans (ih hr.tabled)

theorem Tabled.foldAll (ht : Tabled t) (hw : WellFormed t) : Retains [] t t.foldAll.tree :=
  have hr : Retains [] t { t with folds := [] } := ht.beside rfl
  hr.trans (hw.folds_foldAll.1.retains hr.tabled)

theorem Tabled.unfold (ht : Tabled t) (id : NodeId) (openLabel closeLabel : Text) :
    Retains [] t (t.unfold id openLabel closeLabel).tree := by
  rcases ht.shaped.unfold_cases id openLabel closeLabel with ⟨he, -⟩ | ⟨-, -, p, a, b, c, F, hh, he⟩
  · rw [he]
    exact ht.retains
  · rw [he]
    exact ht.unfoldAt hh

theorem Tabled.unhideAll (ht : Tabled t) (hw : WellFormed t) : Retains [] t t.unhideAll.tree := by
  have hf := hw.faithful_foldAll.wellFormed
  have hst := hw.folds_foldAll.2 ▸ hf.stacked
  rw [unhideAll_tree]
  exact hf.shaped.expand_induct (P := Retains [] t) hst
    (fun hr _ hs hl hc => hr.trans (hr.tabled.expandChildren hl hs fun c hm => (hc c hm).1))
    (ht.foldAll hw)

theorem Tabled.replaceEach {ids : List NodeId} (ht : Tabled t) (hw : WellFormed t)
    (hids : ∀ x ∈ ids, x < t.size) {old : Text} (hold : old ≠ []) (new : Text) :
    Retains [] t (Tree.replaceEach old new ids t).2 := by
  induction ids generalizing t with
  | nil => exact ht.retains
  | cons x ids ih =>
    obtain ⟨hx, hids⟩ := List.forall_mem_cons.1 hids
    have hw' := hw.rewrite_replacingEdits hx hold new
    have hids' : ∀ y ∈ ids, y < (t.rewrite x (t.replacingEdits old new x)).size := fun y hy => by
      rw [size_rewrite]
      exact hids y hy
    suffices hr : Retains [] t (t.rewrite x (t.replacingEdits old new x)) from
      hr.trans (ih hr.tabled hw' hids')
    obtain ⟨ps, z, hl, he, hlit⟩ := hw.shaped.exists_replacing hx hold new
    rw [← he] at hw' ⊢
    by_cases hps : ps = []
    · subst hps
      exact ht.retains
    · have hgrounded : (t.rewrite x (Patch.edits 0 ps)).Grounded := ht.grounded.rewrite <| by
        rw [hl.text]
        exact pieces_edits 0 ps z
      have hf : (t.node x).fold = none := by
        cases hf : (t.node x).fold with
        | none => rfl
        | some F =>
          rw [hw.shaped.replacingEdits_of_unfolded (Node.isUnfolded_of_some hf)] at he
          exact absurd (edits_eq_nil.1 he) hps
      exact (hl.follows_edit hw.shaped hps hlit hf).retains ht hw'.shaped hgrounded

theorem Tabled.detached (ht : Tabled t) (hw : WellFormed t) (text : Text) :
    Retains written t (t.detached text).2 := by
  have hgrounded := ht.grounded.alloc (n := ⟨[], text, none, none, none, [], []⟩)
    (Node.grounded_of_groups rfl)
  refine ht.retains_of_kept (kept_detached t text) (hw.shaped.shaped_detached text) hgrounded
    (fun x hx => ?_) fun x hx => ?_
  · rw [Tree.detached, node_alloc_of_ne (Nat.ne_of_lt hx)]
  · rw [Tree.detached, isUnfolded_alloc, node_eq_default hx]
    rfl

/-! ## Moves of content -/

theorem Retains.mono {written' : List NodeId} (h : Retains written t t')
    (hw : ∀ x, x < t.size → x ∈ written → x ∈ written') : Retains written' t t' :=
  ⟨h.tabled, h.size, fun x hx ho => h.present x hx fun hm => ho (hw x hx hm)⟩

theorem Tabled.replaceContent {target source : NodeId} (ht : Tabled t)
    (hs' : Shaped (t.replaceContent target source)) (htarget : target < t.size)
    (hsource : source < t.size) (htu : (t.node target).isUnfolded = false)
    (hsu : (t.node source).isUnfolded = false) :
    Retains [target] t (t.replaceContent target source) := by
  by_cases hne : target = source
  · rw [Tree.replaceContent, if_pos hne]
    exact ht.retains
  obtain ⟨cs, hl⟩ := ht.shaped.layout source hsource
  have hkids := fun j => children_replaceContent hne htarget hl j
  have hnode := node_replaceContent hne htarget hl
  have hk := kept_replaceContent hne htarget hl
  have hself : target ∉ t.children source := fun hm => hs'.not_below_self target
    (List.mem_append_left _ (by rw [(hkids target).1, if_pos rfl]; exact hm))
  have hlt := layout_replaceContent_target hne htarget hl hself
  have hsize := size_replaceContent (t := t) hne
  have hgroups : ∀ x, x ≠ target →
      ((t.replaceContent target source).node x).groups = (t.node x).groups := fun x hx => by
    rw [hnode, if_neg hx]
    split_ifs with hxs
    · rw [hxs]
    · rfl
    · rfl
  have hgrounded : (t.replaceContent target source).Grounded := ht.grounded.replaceContent hsu
  generalize t.replaceContent target source = u at *
  refine ⟨tabled_of_lent hs' hgrounded fun x q hx hu => ?_, Nat.le_of_eq hsize.symm,
    fun x _ hx => Node.present_congr (hgroups x (by simpa using hx))⟩
  rw [Node.isUnfolded_congr (hkids x).2.2] at hu
  obtain ⟨F, hF⟩ := Option.isSome_iff_exists.1 hu
  have hF' := (hkids x).2.2.trans hF
  have hxt : x ≠ target := fun e => by
    rw [e, htu] at hu
    cases hu
  have hseat : ∀ {q off b}, Body t x q off b → ∀ s, (u.node x).Records s →
      ∃ r, b.text.Holds r ∧ s = r.shiftUp off := fun hb s hr =>
    (ht.seated hb).groups s (by rwa [Node.Records, ← hgroups x hxt])
  rw [(hkids q).1] at hx
  split_ifs at hx with hqt hqs
  · obtain ⟨a, b, d, rfl⟩ := hl.exists_unfolded hx hF
    exact ⟨target, _, b, .lent hF' hlt, hseat (.lent hF hl)⟩
  · cases hx
  · obtain ⟨ds, hds⟩ := ht.shaped.exists_layout hx
    obtain ⟨a, b, d, rfl⟩ := hds.exists_unfolded hx hF
    exact ⟨q, _, b, .lent hF' (hk.layout ht.shaped hds (by simp [hqt, hqs])),
      hseat (.lent hF hds)⟩

theorem Tabled.swap {a b : NodeId} (ht : Tabled t) (hw : WellFormed t)
    (hau : (t.node a).isUnfolded = false) (hbu : (t.node b).isUnfolded = false)
    (hacyc : Acyclic (t.swap a b).tree) : Retains [a, b] t (t.swap a b).tree := by
  by_cases ha : a < t.size
  · by_cases hb : b < t.size
    · obtain ⟨hw₁, hw₂, hw₃⟩ := hw.swap_stages ha hb hau hbu hacyc
      have h₀ : Retains [] t (t.detached []).2 := ht.detached hw []
      have hsize : (t.detached []).2.size = t.size + 1 := size_alloc t _
      have hka : t.size ≠ a := Nat.ne_of_gt ha
      have hfold₀ : ∀ j, ((t.detached []).2.node j).isUnfolded = (t.node j).isUnfolded :=
        isUnfolded_alloc [] [] none
      have hfold : ∀ (s : Tree) (y z j : NodeId),
          ((s.replaceContent y z).node j).isUnfolded = (s.node j).isUnfolded := fun s y z j =>
        Node.isUnfolded_congr (fold_replaceContent s y z j)
      have hk : (t.node t.size).isUnfolded = false := by
        rw [node_eq_default (Nat.le_refl _)]
        rfl
      have hlt : ∀ {s : Tree} {j : NodeId}, t.size + 1 ≤ s.size → j ≤ t.size → j < s.size :=
        fun hs hj => Nat.lt_of_lt_of_le (Nat.lt_succ_of_le hj) hs
      have hla := Nat.le_of_lt ha
      have hlb := Nat.le_of_lt hb
      have hlk := Nat.le_refl t.size
      have hsize₀ := Nat.le_of_eq hsize.symm
      have hsize₁ := hsize₀.trans (Nat.le_of_eq (size_replaceContent hka).symm)
      rw [swap_tree ha hb]
      have h₁ := h₀.tabled.replaceContent hw₁.shaped (hlt hsize₀ hlk) (hlt hsize₀ hla)
        ((hfold₀ _).trans hk) ((hfold₀ a).trans hau)
      have h₂ := h₁.tabled.replaceContent hw₂.shaped (hlt hsize₁ hla) (hlt hsize₁ hlb)
        ((hfold ..).trans ((hfold₀ a).trans hau)) ((hfold ..).trans ((hfold₀ b).trans hbu))
      have hsize₂ := Nat.le_trans hsize₁ h₂.size
      have h₃ := h₂.tabled.replaceContent hw₃.shaped (hlt hsize₂ hlb) (hlt hsize₂ hlk)
        ((hfold ..).trans ((hfold ..).trans ((hfold₀ b).trans hbu)))
        ((hfold ..).trans ((hfold ..).trans ((hfold₀ _).trans hk)))
      have hall : Retains [t.size, a, b] t _ := (h₀.mono (by simp)).trans <|
        (h₁.mono fun _ _ hx => by simp [List.mem_singleton.1 hx]).trans <|
        (h₂.mono fun _ _ hx => by simp [List.mem_singleton.1 hx]).trans
          (h₃.mono fun _ _ hx => by simp [List.mem_singleton.1 hx])
      -- the node by way of which contents are exchanged is fresh
      refine hall.mono fun x hx hm => (List.mem_cons.1 hm).resolve_left ?_
      exact Nat.ne_of_lt hx
    · rw [Tree.swap, if_pos ha, if_neg hb]
      exact ht.retains
  · rw [Tree.swap, if_neg ha]
    exact ht.retains

/-! ## Histories -/

/-- No operation of a pipeline drops or adds a group. -/
theorem passInvariant_retains (t₀ : Tree) :
    PassInvariant True fun t => WellFormed t ∧ Retains [] t₀ t where
  beside h hn hf := ⟨invariant_wellFormed.beside h.1 hn hf, h.2.trans (h.2.tabled.beside hn)⟩
  rename {t} id name h := by
    refine ⟨invariant_wellFormed.rename id name h.1,
      h.2.trans (h.2.tabled.retains_of_alike (alike_rename t id name) fun x => ?_)⟩
    rw [node_rename]
    split <;> rfl
  hideMatches {t name pattern label target} h hs := by
    have hf := h.1.shaped.feasible_planOf (c := .hideAll name pattern label target) (hs trivial)
    refine ⟨invariant_wellFormed.hideMatches h.1 (hs trivial), ?_⟩
    rw [hideMatches_tree]
    exact h.2.trans (h.2.tabled.applyPlan h.1 hf)
  hideGroup {t name label group scope source} h hs := by
    have hf := h.1.shaped.feasible_planOf (c := .hideGroup name label group scope source)
      (hs trivial)
    refine ⟨invariant_wellFormed.hideGroup h.1 (hs trivial), ?_⟩
    rw [hideGroup_tree]
    exact h.2.trans (h.2.tabled.applyPlan h.1 hf)
  hideRest {t} name label target h := by
    have hf := h.1.shaped.feasible_planOf (c := .hideRest name label target) trivial
    refine ⟨invariant_wellFormed.hideRest name label target h.1, ?_⟩
    rw [hideRest_tree]
    exact h.2.trans (h.2.tabled.applyPlan h.1 hf)
  replaceAll {t} old new target h := by
    refine ⟨invariant_wellFormed.replaceAll old new target h.1, ?_⟩
    unfold Tree.replaceAll
    split
    · exact h.2
    · rename_i hold
      exact h.2.trans (h.2.tabled.replaceEach h.1 (fun x hx => h.1.shaped.mem_targets hx)
        (by simpa using hold) new)

theorem Tabled.perform (ht : Tabled t) (hw : WellFormed t) {c : Command} (ha : t.Admits c) :
    Retains c.overwrites t (t.perform c).tree := by
  have hi := passInvariant_retains t
  have h : WellFormed t ∧ Retains [] t t := ⟨hw, ht.retains⟩
  cases c with
  | define label => exact (hi.define h label).2
  | defineMacro label body => exact (hi.defineMacro h label body).2
  | hideAll => exact (hi.hideMatches h fun _ => ha).2
  | hideAny => exact (hi.hideMatches h fun _ => ha).2
  | hideGroup => exact (hi.hideGroup h fun _ => ha).2
  | hideRest name label target => exact (hi.hideRest name label target h).2
  | unhideAll => exact ht.unhideAll hw
  | unfold id openLabel closeLabel => exact ht.unfold id openLabel closeLabel
  | foldAll => exact ht.foldAll hw
  | replaceAll old new target => exact (hi.replaceAll old new target h).2
  | ignoreAll => exact ht.beside rfl
  | unignoreAll => exact ht.beside rfl
  | renameAll newName scope oldName => exact (hi.renameAll h newName scope oldName).2
  | renameNode id name =>
    simp only [Tree.perform, renameNode, Outcome.reply]
    split
    · exact (hi.rename id name h).2
    · exact ht.retains
  | replaceNode target source =>
    have hs := (hw.perform ha).shaped
    simp only [Tree.perform, Tree.replaceNode, Outcome.reply] at hs ⊢
    split at hs
    · rename_i hsource
      rw [if_pos hsource]
      split at hs
      · rename_i htarget
        rw [if_pos htarget]
        exact ht.replaceContent hs htarget hsource ha.1 ha.2.1
      · rename_i htarget
        rw [if_neg htarget]
        exact ht.retains
    · rename_i hsource
      rw [if_neg hsource]
      exact ht.retains
  | swap => exact ht.swap hw ha.1 ha.2.1 ha.2.2
  | detached text => exact ht.detached hw text
  | getNode name =>
    simp only [Tree.perform, Tree.getNode]
    split <;> exact ht.beside rfl
  | resetNode => exact ht.beside rfl
  | run pipeline => exact (hi.runFrom h 0 fun _ => ha).2

theorem Initial.folds_eq_nil (h : Initial t) : t.folds = [] :=
  h.induct (P := fun t => t.folds = []) (fun _ _ => rfl)
    (fun name _ hf => (folds_rename _ root name).trans hf) fun _ _ _ hf => hf

theorem Initial.tabled (h : Initial t) : Tabled t := by
  refine tabled_of_lent h.wellFormed.shaped h.grounded fun x q hx hu => ?_
  have := h.wellFormed.stacked.listed q x hx hu
  rw [h.folds_eq_nil] at this
  cases this

theorem Reachable.tabled (h : Reachable t) : Tabled t := by
  induction h with
  | initial h => exact h.tabled
  | step h ha ih => exact (ih.perform h.wellFormed ha).tabled

/-- No command of a history drops or adds a group, but for moves of content to the node. -/
theorem Reachable.present_after (h : Reachable t) {history : List Command}
    (ha : AdmitsAll t history) (hx : x < t.size) (hno : ∀ c ∈ history, x ∉ c.overwrites) :
    ((t.after history).node x).present = (t.node x).present := by
  induction history generalizing t with
  | nil => rfl
  | cons c history ih =>
    obtain ⟨hc, hno⟩ := List.forall_mem_cons.1 hno
    have hr := h.tabled.perform h.wellFormed ha.1
    exact (ih (h.step ha.1) ha.2 (Nat.lt_of_lt_of_le hx hr.size) hno).trans (hr.present x hx hc)

/-- In every reachable tree the groups of a node that is not unfolded lie in its text, and those of
an unfolded one in the text of its parent between its markers. Of the groups of a node none is lost
and none is added by any history, unless the node takes the content of another one. -/
theorem Reachable.groups_valid (h : Reachable t) :
    (∀ x, (t.node x).isUnfolded = false → ∀ s, (t.node x).Records s → (t.node x).text.Holds s) ∧
      (∀ p, ∀ c ∈ t.children p, ∀ F r, (t.node c).fold = some F → (t.node c).span = some r →
        ∀ s, (t.node c).Records s → (t.node p).text.Holds s ∧ Between s F r) ∧
      ∀ history, AdmitsAll t history → ∀ x, x < t.size → (∀ c ∈ history, x ∉ c.overwrites) →
        ((t.after history).node x).present = (t.node x).present :=
  ⟨fun x => h.tabled.grounded x, fun _ _ hc _ _ hF hr _ hs => h.tabled.between hc hF hr hs,
    fun _ ha _ hx hno => h.present_after ha hx hno⟩

/-- The node of the outer region, unfolded and with the node of its group unfolded in it, keeps its
group when its body is hidden again. -/
theorem groups_valid_fromInside :
    let t := ((ofText ['a', 'x', 'y', 'z', 'b']).after hideTwice).after unfoldFromInside
    let history : List Command := [.hideRest ['r'] ['*'] ['*'], .foldAll]
    Reachable t ∧ t.children root = [1, 2] ∧ (t.node 1).groups = some [some ⟨3, 6⟩] ∧
      ((t.after history).node 1).groups = some [some ⟨1, 2⟩] ∧
      (∀ x, (t.node x).isUnfolded = false → ∀ s, (t.node x).Records s →
        (t.node x).text.Holds s) ∧
      (∀ p, ∀ c ∈ t.children p, ∀ F r, (t.node c).fold = some F → (t.node c).span = some r →
        ∀ s, (t.node c).Records s → (t.node p).text.Holds s ∧ Between s F r) ∧
      ∀ history, AdmitsAll t history → ∀ x, x < t.size → (∀ c ∈ history, x ∉ c.overwrites) →
        ((t.after history).node x).present = (t.node x).present :=
  have h : Reachable (((ofText ['a', 'x', 'y', 'z', 'b']).after hideTwice).after unfoldFromInside) :=
    ((Reachable.initial (.ofText _ _)).after admitsAll_hideTwice).after
      ⟨trivial, trivial, trivial, trivial, trivial⟩
  ⟨h, by cbv, by cbv, by cbv, Reachable.groups_valid h⟩

end Tree

end GlyphTree
