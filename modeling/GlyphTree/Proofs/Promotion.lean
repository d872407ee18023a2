import GlyphTree.Proofs.Captures
import GlyphTree.Proofs.FreshNodes
import GlyphTree.Proofs.Rounds

/-!
# Promotion of fresh nodes

A round of a nested hide promotes a group of all live nodes in scope that carry the name of its fresh
nodes. These are the fresh nodes themselves, each of which gets one more child at most, and whatever
carried that name before the round. So promotion leaves older nodes alone as long as none of them
carries the name: in the first round if none did before, and in the later ones if the fresh nodes
are given another name (`Reached.promotes_fresh`).
-/

namespace GlyphTree.Tree

open Relation

variable {t t' u v : Tree} {p q x c id n : NodeId} {cut : Cut} {cuts : List Cut} {plan : Plan}
  {name pattern label target scope source : Text} {glyph : Char} {group : Nat} {range : Span}
  {circles : Prop}

/-! ## Plans for groups -/

/-- Whether a range of the text of a node parts no unfolded child. -/
def KeepsTogether (t : Tree) (x : NodeId) (range : Span) : Prop :=
  ∀ c ∈ t.children x, (⟨range, default, default⟩ : Cut).respects (t.node c).atoms = true

theorem isWhole_of_keepsTogether (h : t.KeepsTogether x cut.range) : t.isWhole x cut = true :=
  List.all_eq_true.2 h

theorem exists_plan_of_hideGroup (h : (t.hideGroup name label group scope source).result = .ok ()) :
    ∃ glyph plan, (t.planGroup name glyph group (t.groupSources scope source)).1 = .ok plan ∧
      t.groupToHide name label group scope source = plan := by
  unfold hideGroup at h
  unfold groupToHide
  split at h
  · cases h
  · rename_i glyph hglyph
    rw [hglyph]
    split at h
    · cases h
    · rename_i plan events hplan
      exact ⟨glyph, plan, by rw [hplan], by simp only [hplan]⟩

/-- A plan for groups has each source whose group took part in it. -/
theorem mem_planGroup_of_source {ids : List NodeId}
    (h : (t.planGroup name glyph group ids).1 = .ok plan) (hx : x ∈ ids)
    (hfold : (t.node x).isUnfolded = false) (hrange : (t.node x).groupSpan? group = some range)
    (hslice : ((t.node x).text.slice? range).isSome = true) :
    (x, t.wholeCuts x [⟨range, glyph, .fresh name none⟩]) ∈ plan := by
  induction ids generalizing plan with
  | nil => cases hx
  | cons id ids ih =>
    obtain ⟨rest, hrest, hplan⟩ := planGroup_cons h
    rcases List.mem_cons.1 hx with rfl | hx
    · rw [planGroup] at h
      dsimp only at h
      split at h
      · cases h
      · generalize t.planGroup name glyph group ids = o at h hrest
        obtain ⟨_, events⟩ := o
        obtain rfl : _ = Except.ok rest := hrest
        have hsome : ((t.node x).text.slice? range).isNone = false := by
          rw [← Option.not_isSome, hslice]
          rfl
        simp only [hfold, hrange, hsome, Bool.false_eq_true, if_false] at h
        obtain rfl := Except.ok.inj h
        exact List.mem_cons_self
    · have := ih hrest hx
      rcases hplan with rfl | ⟨_, -, -, -, rfl⟩
      · exact this
      · exact List.mem_cons_of_mem _ this

/-! ## Fresh nodes as sources -/

/-- What a hide of matches makes of a tree, and which nodes the fresh ones stand in. -/
structure FreshFrom (t t' : Tree) (name target : Text) (x p : NodeId) : Prop where
  source : p ∈ t.targets target
  listed : x ∈ t'.children p
  name : (t'.node x).name = name
  fold : (t'.node x).fold = none
  grounded : ∀ range, (t'.node x).Records range → (t'.node x).text.Holds range

theorem Tied.exists_freshFrom (h : Tied circles t) (hx : t.size ≤ x)
    (hx' : x < (t.hideAny name pattern label target).tree.size) :
    ∃ p, FreshFrom t (t.hideAny name pattern label target).tree name target x p := by
  have hdone : CarriedOut (t.matchesToHide name pattern label target) t _ :=
    (h.separate_planOf (.hideAny name pattern label target)).carriedOut
  rw [planOf, ← hideMatches_tree] at hdone
  obtain ⟨n, p, cuts, i, cut, hmem, hparted, hi, rfl⟩ := hdone.exists_parted hx hx'
  obtain ⟨hp, -⟩ := mem_matchesToHide hmem
  have hcut := List.mem_of_getElem? hi
  have hmade := hparted.made i cut hi
  obtain ⟨m, horigin⟩ := origin_of_mem_matchesToHide hmem hcut
  obtain ⟨hname, -⟩ := Origin.fresh.inj (horigin.symm.trans hmade.origin)
  refine ⟨p, hp, hparted.mem_children (List.getElem?_eq_some_iff.1 hi).1, hname.symm, hmade.fold,
    fun range hrange => ?_⟩
  rw [hideAny, Outcome.map, hmade.text]
  exact grounded_of_mem_planOf (c := .hideAny name pattern label target) hmem hcut _ _
    hmade.origin rfl range hrange

/-- The sources of a promotion are live nodes in scope that are listed under its source name. -/
theorem mem_groupSources_iff : x ∈ t.groupSources scope source ↔
    (x ∈ t.documentOrder ∧ (source, x) ∈ t.names.entries) ∧
      t.isLive x = true ∧ t.inScope scope x = true := by
  rw [groupSources, named, List.mem_filter, List.mem_filter, List.contains_iff_mem, mem_ids,
    Bool.and_eq_true]

/-- A fresh child of a target is in the scope that the target was found with. -/
theorem inScope_of_target (hp : t.isTarget target p = true) (hr : Registered t) (hg : Grows t v)
    (hx : t.size ≤ x) (hparent : v.IsParent x p) (hlt : p < v.size)
    (hname : (v.node p).name = (t.node p).name) : v.inScope target x = true := by
  unfold isTarget at hp
  unfold inScope
  rw [hg.config]
  split
  · rw [isIgnored, hg.ignored, Bool.not_eq_true', ← Bool.not_eq_true, List.contains_iff_mem]
    exact fun hmem => Nat.not_lt.2 hx (hr.ignored x hmem)
  · rename_i hwild
    rw [if_neg hwild, decide_eq_true_eq] at hp
    obtain ⟨steps, hsteps⟩ := Nat.exists_eq_succ_of_ne_zero (Nat.ne_zero_of_lt hlt)
    have hnode : ∀ {y : NodeId}, y < v.size → v.node? y = some (v.node y) := fun hy => by
      rw [node?, node, Array.getElem?_eq_getElem hy, Option.getD_some]
    rw [hsteps, isUnderWithin, hnode hparent.lt]
    dsimp only
    split
    · rfl
    · rw [show (v.node x).parent = some p from hparent]
      dsimp only
      rw [isUnderWithin, hnode hlt]
      dsimp only
      rw [if_pos (hname.trans hp)]

/-- A fresh child of a live target is a source of its groups. -/
theorem Reached.mem_groupSources (hv : Reached v) (hp : t.isTarget target p = true)
    (hr : Registered t) (hg : Grows t v) (hx : t.size ≤ x) (hlive : p ∈ v.liveOrder)
    (hmem : x ∈ v.children p) (hname : (v.node p).name = (t.node p).name)
    (hids : (name, x) ∈ v.names.entries) : x ∈ v.groupSources target name := by
  have hxlive : x ∈ v.liveOrder := by
    rw [hv.tied.mem_liveOrder] at hlive ⊢
    exact hlive.tail hmem
  exact mem_groupSources_iff.2 ⟨⟨hv.tied.live_subset hxlive, hids⟩, hv.tied.isLive_of_mem hxlive,
    inScope_of_target hp hr hg hx (hv.tied.isParent_child hmem) (hv.tied.live_lt hlive) hname⟩

/-! ## Added children -/

/-- The children of `x` that are new in `t'`. -/
def added (t t' : Tree) (x : NodeId) : List NodeId := (t'.children x).filter (t.size ≤ ·)

theorem CarriedOut.added_of_not_mem (h : CarriedOut plan t t') (ht : Tied circles t)
    (hx : x < t.size) (hnot : x ∉ plan.map Prod.fst) : t.added t' x = [] := by
  rw [added, (h.preserved x hx).children hnot]
  exact List.filter_eq_nil_iff.2 fun c hc => by simpa using (ht.isParent_child hc).lt

theorem Parted.added_perm (h : Parted t t' n p cuts) (ht : Tied circles t) (hn : t.size ≤ n) :
    (t.added t' p).Perm (List.range' n cuts.length) := by
  refine (h.children.filter _).trans (.of_eq ?_)
  rw [List.filter_append, List.filter_eq_self.2, List.filter_eq_nil_iff.2, List.append_nil]
  · intro c hc
    simpa using (ht.isParent_child (List.mem_of_mem_filter hc)).lt
  · intro c hc
    simpa using hn.trans (List.mem_range'_1.1 hc).1

/-! ## One round -/

theorem Reached.registered (h : Reached t) : Registered t := by
  induction h with
  | initial h => exact h.registered
  | step _ ih => exact ih.perform _

section
variable (h : Reached t)
include h

theorem Reached.hideAny (name pattern label target : Text) :
    Reached (t.hideAny name pattern label target).tree :=
  h.step (c := .hideAny name pattern label target)

theorem Reached.hideGroup (name label : Text) (group : Nat) (scope source : Text) :
    Reached (t.hideGroup name label group scope source).tree :=
  h.step (c := .hideGroup name label group scope source)

theorem Reached.carriedOut_hideAny (name pattern label target : Text) :
    CarriedOut (t.matchesToHide name pattern label target) t
      (t.hideAny name pattern label target).tree := by
  rw [Tree.hideAny, Outcome.map, hideMatches_tree]
  exact (h.tied.separate_planOf (.hideAny name pattern label target)).carriedOut

theorem Reached.carriedOut_hideGroup (name label : Text) (group : Nat) (scope source : Text) :
    CarriedOut (t.groupToHide name label group scope source) t
      (t.hideGroup name label group scope source).tree := by
  rw [hideGroup_tree]
  exact (h.tied.separate_planOf (.hideGroup name label group scope source)).carriedOut

/-- The node that a fresh node stands in is a live target, and still carries its name. -/
theorem Reached.parent_of_freshFrom
    (hfresh : FreshFrom t (t.hideAny name pattern label target).tree name target x q) :
    t.isTarget target q = true ∧ q < t.size ∧
      q ∈ (t.hideAny name pattern label target).tree.liveOrder := by
  obtain ⟨hlive, htarget⟩ := List.mem_filter.1 hfresh.source
  exact ⟨htarget, h.tied.live_lt hlive,
    (h.carriedOut_hideAny name pattern label target).mem_liveOrder h.tied
      (h.hideAny name pattern label target).tied hlive⟩

/-- All fresh nodes of a hide are sources of the promotion behind it. -/
theorem Reached.fresh_mem_groupSources (hx : t.size ≤ x)
    (hx' : x < (t.hideAny name pattern label target).tree.size) :
    x ∈ (t.hideAny name pattern label target).tree.groupSources target name := by
  obtain ⟨q, hfresh⟩ := h.tied.exists_freshFrom hx hx'
  obtain ⟨htarget, hlt, hlive⟩ := h.parent_of_freshFrom hfresh
  have henlists := enlists_hideAny t name pattern label target
  refine (h.hideAny name pattern label target).mem_groupSources htarget h.registered
    (grows_hideMatches ..) hx hlive hfresh.listed (henlists.name q hlt) ?_
  have := henlists.fresh x hx hx'
  rwa [hfresh.name] at this

/-- A promotion adds no child to a node that is no source, and does not change its text. -/
theorem Reached.promotion_spares (name label : Text) (group : Nat) (hx : x < t.size)
    (hnot : x ∉ t.groupSources scope source) :
    let promoted := (t.hideGroup name label group scope source).tree
    (promoted.node x).text = (t.node x).text ∧ promoted.children x = t.children x := by
  have hcut : x ∉ (t.groupToHide name label group scope source).map Prod.fst := fun hmem =>
    hnot ((groupToHide_sublist ..).subset hmem)
  have hkept := (h.carriedOut_hideGroup name label group scope source).preserved x hx
  exact ⟨hkept.text hcut, hkept.children hcut⟩

/-- The nodes that a promotion makes carry its name. -/
theorem Reached.name_of_promoted (hx : t.size ≤ x)
    (hx' : x < (t.hideGroup name label group scope source).tree.size) :
    ((t.hideGroup name label group scope source).tree.node x).name = name := by
  obtain ⟨n, q, cuts, i, cut, hmem, hparted, hi, rfl⟩ :=
    (h.carriedOut_hideGroup name label group scope source).exists_parted hx hx'
  have horigin := origin_of_mem_groupToHide hmem (List.mem_of_getElem? hi)
  obtain ⟨hname, -⟩ := Origin.fresh.inj (horigin.symm.trans (hparted.made i cut hi).origin)
  exact hname.symm

/-- A promotion adds one child at most to each node. -/
theorem Reached.length_added_le (hx : x < t.size) :
    (t.added (t.hideGroup name label group scope source).tree x).length ≤ 1 := by
  have hdone := h.carriedOut_hideGroup name label group scope source
  by_cases hmem : x ∈ (t.groupToHide name label group scope source).map Prod.fst
  · obtain ⟨⟨_, cuts⟩, he, rfl⟩ := List.mem_map.1 hmem
    have hcuts : cuts.length ≤ 1 := by
      obtain ⟨-, glyph, range, -, -, hcuts⟩ := mem_groupToHide he
      rw [show cuts = _ from hcuts]
      exact List.length_filter_le ..
    obtain ⟨before, after, hplan⟩ := List.append_of_mem he
    rw [hplan] at hdone
    have hperm := hdone.parted.middle.added_perm h.tied (Nat.le_add_right _ _)
    rwa [hperm.length_eq, List.length_range']
  · rw [hdone.added_of_not_mem h.tied hx hmem]
    exact Nat.zero_le _

/-- A promotion that does not fail adds a child to each source whose group took part and parts no
unfolded node. -/
theorem Reached.added_of_source
    (hok : (t.hideGroup name label group scope source).result = .ok ())
    (hx : x ∈ t.groupSources scope source) (hfold : (t.node x).isUnfolded = false)
    (hrange : (t.node x).groupSpan? group = some range)
    (hslice : ((t.node x).text.slice? range).isSome = true) (hkeeps : t.KeepsTogether x range) :
    let promoted := (t.hideGroup name label group scope source).tree
    ∃ c, t.added promoted x = [c] ∧ (promoted.node c).name = name ∧
      (promoted.node c).text = (t.node x).text.slice range := by
  obtain ⟨glyph, plan, hplan, heq⟩ := exists_plan_of_hideGroup hok
  have hdone := h.carriedOut_hideGroup name label group scope source
  have hmem := mem_planGroup_of_source hplan hx hfold hrange hslice
  rw [wholeCuts, List.filter_cons_of_pos (isWhole_of_keepsTogether hkeeps), List.filter_nil] at hmem
  obtain ⟨before, after, rfl⟩ := List.append_of_mem hmem
  rw [heq] at hdone
  have hparted := hdone.parted.middle
  have hmade := hparted.made 0 _ rfl
  obtain ⟨hname, -⟩ := Origin.fresh.inj hmade.origin
  refine ⟨t.size + Plan.regions before, List.perm_singleton.1
    (hparted.added_perm h.tied (Nat.le_add_right _ _)), hname.symm, hmade.text⟩

end

/-! ## Names from round to round -/

section
variable {newName : Text} (hne : newName ≠ name)
include hne

/-- What is listed under a name after a node got another one. -/
theorem mem_entries_rename (h : (name, x) ∈ (t.rename id newName).names.entries) :
    (name, x) ∈ t.names.entries ∧ (x = id → (t.node id).name ≠ name) := by
  unfold rename at h
  dsimp only at h
  split at h
  · rename_i hold
    exact ⟨h, fun _ hname => hne (hold.symm.trans hname)⟩
  · rcases List.mem_append.1 h with h | h
    · obtain ⟨h, hkept⟩ := List.mem_filter.1 h
      refine ⟨h, fun hx hname => ?_⟩
      simp [hx, hname] at hkept
    · exact absurd (congrArg Prod.fst (List.mem_singleton.1 h)).symm hne

/-- If all nodes that carry a name get another one, none is listed under it. -/
theorem not_mem_entries_renamed {ids : List NodeId}
    (hids : ∀ x, (name, x) ∈ t.names.entries → x ∈ ids ∧ (t.node x).name = name) (x : NodeId) :
    (name, x) ∉ (ids.foldl (fun t id => t.rename id newName) t).names.entries := by
  induction ids generalizing t with
  | nil => exact fun hx => absurd (hids x hx).1 List.not_mem_nil
  | cons id ids ih =>
    refine ih fun y hy => ?_
    obtain ⟨hy, hkept⟩ := mem_entries_rename hne hy
    obtain ⟨hmem, hname⟩ := hids y hy
    have hyid : y ≠ id := fun he => hkept he (he ▸ hname)
    refine ⟨(List.mem_cons.1 hmem).resolve_left hyid, ?_⟩
    rw [node_rename, if_neg fun he => hyid he.1]
    exact hname

end

section
variable (h : Reached t) (hnone : t.names.ids name = [])
include hnone

/-- Where no node carries the name of a hide before it, what carries the name then is fresh. -/
theorem lt_of_entry
    (hx : (name, x) ∈ (t.hideAny name pattern label target).tree.names.entries) : t.size ≤ x ∧
      x < (t.hideAny name pattern label target).tree.size := by
  rcases (enlists_hideAny _ name pattern label target).only _ hx with hx | ⟨hge, hlt, -⟩
  · exact absurd (mem_ids.2 hx) (hnone ▸ List.not_mem_nil)
  · exact ⟨hge, hlt⟩

theorem not_mem_groupSources_of_lt (hx : x < t.size) :
    x ∉ (t.hideAny name pattern label target).tree.groupSources target name := by
  intro hmem
  obtain ⟨⟨-, hentry⟩, -⟩ := mem_groupSources_iff.1 hmem
  exact Nat.not_lt.2 (lt_of_entry hnone hentry).1 hx

include h

/-- A round that gives its fresh nodes another name leaves none that carries the one they had. -/
theorem Reached.ids_after_round {p : Promotion} {newName : Text} (hne : newName ≠ name)
    (hp : p.name ≠ name) :
    (((t.hideAny name pattern label target).tree.hideGroup p.name p.label p.group.toNat target
      name).tree.renameAll newName target name).2.names.ids name = [] := by
  have hhidden := h.hideAny name pattern label target
  have hpromoted := hhidden.hideGroup p.name p.label p.group.toNat target name
  have henlists := enlists_hideGroup (t.hideAny name pattern label target).tree p.name p.label
    p.group.toNat target name
  have hentries : ∀ x, (name, x) ∈ ((t.hideAny name pattern label target).tree.hideGroup p.name
      p.label p.group.toNat target name).tree.names.entries →
      (name, x) ∈ (t.hideAny name pattern label target).tree.names.entries := by
    intro x hx
    rcases henlists.only _ hx with hold | ⟨hge, hlt, hname⟩
    · exact hold
    · exact absurd ((hhidden.name_of_promoted hge hlt).symm.trans hname) hp
  refine List.eq_nil_iff_forall_not_mem.2 fun x hx =>
    not_mem_entries_renamed hne (fun y hy => ?_) x (mem_ids.1 hx)
  -- what carries the name is a fresh node of the hide, and its parent is still as it was
  obtain ⟨hge, hlt⟩ := lt_of_entry hnone (hentries y hy)
  obtain ⟨q, hfresh⟩ := h.tied.exists_freshFrom hge hlt
  obtain ⟨htarget, hq, hlive⟩ := h.parent_of_freshFrom hfresh
  have hq' := hq.trans_le (enlists_hideAny _ name pattern label target).size
  obtain ⟨-, hkids⟩ := hhidden.promotion_spares p.name p.label p.group.toNat hq'
    (not_mem_groupSources_of_lt hnone hq)
  have hsource := hpromoted.mem_groupSources htarget h.registered
    ((grows_hideMatches ..).trans (grows_hideGroup ..)) hge
    ((hhidden.carriedOut_hideGroup ..).mem_liveOrder hhidden.tied hpromoted.tied
      hlive) (hkids ▸ hfresh.listed)
    ((henlists.name q hq').trans ((enlists_hideAny ..).name q hq)) hy
  obtain ⟨hnamed, hscope⟩ := List.mem_filter.1 hsource
  refine ⟨List.mem_filter.2 ⟨hnamed, (Bool.and_eq_true_iff.1 hscope).2⟩, ?_⟩
  rw [henlists.name y hlt, hfresh.name]

end

/-! ## Rounds -/

section
variable {p : Promotion} {content : Option Promotion} {newName : Option Text} {k : Nat}

/-- Rounds are steps of commands. -/
theorem Rounds.reached (hr : Rounds name pattern label target content newName k t u)
    (h : Reached t) : Reached u := by
  induction hr with
  | refl t => exact h
  | @step _ t _ _ _ _ ih =>
    refine ih (Outcome.tree_andThen (P := Reached) ?_ fun _ h _ => ?_)
    · cases content with
      | none => exact h.hideAny ..
      | some p => exact (h.hideAny ..).hideGroup ..
    · cases newName with
      | none => exact h
      | some newName => exact h.step (c := .renameAll newName target name)

/-- Rounds that give their fresh nodes another name leave none that carries the one they had. -/
theorem Rounds.ids_eq_nil {other : Text}
    (hr : Rounds name pattern label target (some p) (some other) k t u) (h : Reached t)
    (hnone : t.names.ids name = []) (hne : other ≠ name) (hp : p.name ≠ name) :
    u.names.ids name = [] := by
  induction hr with
  | refl t => exact hnone
  | @step _ t _ _ hfinish hrest ih =>
    obtain ⟨_, -, -, htree, -⟩ := andThen_ok hfinish
    have hreached := (Rounds.step ‹_› hfinish (.refl _)).reached h
    exact ih hreached ((congrArg (fun t : Tree => t.names.ids name) htree).trans
      (h.ids_after_round hnone hne hp))

/-- The promotion of a round gives each fresh node one child more at most, and just one if its group
took part and parts no unfolded node. Of the older nodes it leaves alone all that do not carry the
name of the fresh ones, and that is all of them in the first round if none carried it before, and in
each round if the fresh nodes get another name. -/
theorem Reached.promotes_fresh (h : Reached t)
    (hrounds : Rounds name pattern label target (some p) newName k t u)
    (hok : ((u.hideAny name pattern label target).tree.hideGroup p.name p.label p.group.toNat target
      name).result = .ok ()) :
    let hidden := (u.hideAny name pattern label target).tree
    let promoted := (hidden.hideGroup p.name p.label p.group.toNat target name).tree
    (∀ x, u.size ≤ x → x < hidden.size → (hidden.added promoted x).length ≤ 1 ∧
      ∀ range, (hidden.node x).groupSpan? p.group.toNat = some range →
        hidden.KeepsTogether x range → ∃ c, hidden.added promoted x = [c] ∧
          (promoted.node c).name = p.name ∧
          (promoted.node c).text = (hidden.node x).text.slice range) ∧
      (∀ x < u.size, x ∉ hidden.groupSources target name →
        (promoted.node x).text = (hidden.node x).text ∧
          promoted.children x = hidden.children x) ∧
      (t.names.ids name = [] → p.name ≠ name →
        (k = 0 ∨ ∃ other, newName = some other ∧ other ≠ name) →
        ∀ x < u.size, x ∉ hidden.groupSources target name) := by
  have hu := hrounds.reached h
  have hhidden := hu.hideAny name pattern label target
  refine ⟨fun x hx hx' => ⟨hhidden.length_added_le hx', fun range hrange hkeeps => ?_⟩,
    fun x hx hnot => ?_, fun hnone hp hk x hx => ?_⟩
  · obtain ⟨q, hfresh⟩ := hu.tied.exists_freshFrom hx hx'
    exact hhidden.added_of_source hok (hu.fresh_mem_groupSources hx hx')
      (Node.isUnfolded_of_none hfresh.fold) hrange
      (Text.isSome_slice?_iff.2 (hfresh.grounded range (Node.records_of_groupSpan? hrange))) hkeeps
  · exact hhidden.promotion_spares p.name p.label p.group.toNat
      (hx.trans_le (enlists_hideAny _ name pattern label target).size) hnot
  · refine not_mem_groupSources_of_lt ?_ hx
    rcases hk with rfl | ⟨other, rfl, hne⟩
    · rwa [hrounds.eq_of_zero]
    · exact hrounds.ids_eq_nil h hnone hne hp

end

/-- Brackets in brackets. -/
def bracketsInside : Tree := ofText ['(', '(', 'x', ')', ')']

/-- What stands in brackets that hold neither others nor content that has been promoted. -/
def unpromoted : Text := ['\\', '(', '(', '[', '^', '(', ')', '$', ']', '*', ')', '\\', ')']

/-- Promotes what stands between the brackets. -/
def betweenBrackets : Promotion := ⟨['c'], ['$'], 1⟩

/-- The tree after the first of two rounds. -/
def afterOneRound (newName : Option Text) : Tree :=
  ((bracketsInside.hideAny ['b'] unpromoted ['#'] ['*']).tree.finishRound ['b'] ['*']
    (some betweenBrackets) newName).tree

set_option maxRecDepth 20000 in
theorem rounds_afterOneRound (newName : Option Text) (h : newName = none ∨ newName = some ['d']) :
    Rounds ['b'] unpromoted ['#'] ['*'] (some betweenBrackets) newName 1 bracketsInside
      (afterOneRound newName) := by
  rcases h with rfl | rfl
  · exact .step (by cbv) (by cbv) (.refl _)
  · exact .step (by cbv) (by cbv) (.refl _)

set_option maxRecDepth 20000 in
/-- With another name for the nodes of the first round, the second round promotes its own node
only. -/
theorem promotes_fresh_renamed :
    let u := afterOneRound (some ['d'])
    let hidden := (u.hideAny ['b'] unpromoted ['#'] ['*']).tree
    let promoted := (hidden.hideGroup ['c'] ['$'] 1 ['*'] ['b']).tree
    Rounds ['b'] unpromoted ['#'] ['*'] (some betweenBrackets) (some ['d']) 1 bracketsInside u ∧
      (hidden.hideGroup ['c'] ['$'] 1 ['*'] ['b']).result = .ok () ∧
      (u.size = 3 ∧ hidden.size = 4 ∧ hidden.children 3 = [1] ∧ promoted.children 3 = [4]) ∧
      (promoted.node 1).text = (hidden.node 1).text ∧
      promoted.children 1 = hidden.children 1 := by
  have hrounds := rounds_afterOneRound (some ['d']) (.inr rfl)
  -- all that is to be computed, at once, since each run of `cbv` goes through the rounds anew
  obtain ⟨hok, hcounts⟩ :
      (((afterOneRound (some ['d'])).hideAny ['b'] unpromoted ['#'] ['*']).tree.hideGroup ['c'] ['$']
        1 ['*'] ['b']).result = .ok () ∧
      (afterOneRound (some ['d'])).size = 3 ∧
      ((afterOneRound (some ['d'])).hideAny ['b'] unpromoted ['#'] ['*']).tree.size = 4 ∧
      ((afterOneRound (some ['d'])).hideAny ['b'] unpromoted ['#'] ['*']).tree.children 3 = [1] ∧
      (((afterOneRound (some ['d'])).hideAny ['b'] unpromoted ['#'] ['*']).tree.hideGroup ['c'] ['$']
        1 ['*'] ['b']).tree.children 3 = [4] := by
    cbv
  have hold : 1 < (afterOneRound (some ['d'])).size := by omega
  obtain ⟨-, hspared, hsources⟩ :=
    Reached.promotes_fresh (p := betweenBrackets) (.initial (.ofText _ _)) hrounds hok
  obtain ⟨htext, hkids⟩ := hspared 1 hold
    (hsources rfl (by decide) (.inr ⟨['d'], rfl, by decide⟩) 1 hold)
  exact ⟨hrounds, hok, hcounts, htext, hkids⟩

set_option maxRecDepth 20000 in
/-- With no other name, the second round promotes the node of the first one once more. -/
theorem not_promotes_fresh_only :
    let u := afterOneRound none
    let hidden := (u.hideAny ['b'] unpromoted ['#'] ['*']).tree
    let promoted := (hidden.hideGroup ['c'] ['$'] 1 ['*'] ['b']).tree
    Rounds ['b'] unpromoted ['#'] ['*'] (some betweenBrackets) none 1 bracketsInside u ∧
      (u.hideAny ['b'] unpromoted ['#'] ['*']).result = .ok true ∧
      (hidden.hideGroup ['c'] ['$'] 1 ['*'] ['b']).result = .ok () ∧ 1 < u.size ∧
      hidden.children 1 = [2] ∧ promoted.children 1 = [5] ∧ hidden.added promoted 1 = [5] :=
  ⟨rounds_afterOneRound none (.inl rfl), by cbv⟩

end GlyphTree.Tree
