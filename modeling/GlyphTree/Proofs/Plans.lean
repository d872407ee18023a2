import GlyphTree.Command
import GlyphTree.Proofs.Flattening
import GlyphTree.Proofs.Hiding

/-!
# Plans of hides

Each hide carries out one plan, which is empty if the hide fails (`planOf`). The plan is for live nodes,
each of them once, all its cuts are those of fresh nodes (`origin_of_mem_planOf`), and none of them
parts an unfolded child (`Shaped.cutting_planOf`). So what holds after all such plans holds after all
hides.
-/

namespace GlyphTree.Tree

variable {t : Tree} {name pattern label target scope source : Text} {group : Nat} {c : Command}
  {e : NodeId × List Cut} {cut : Cut}

/-- What hiding the matches of a pattern hides. -/
def matchesToHide (t : Tree) (name pattern label target : Text) : Plan :=
  match t.labels.glyph label, t.compile pattern with
  | .ok glyph, .ok program => t.matchPlan name glyph program target
  | _, _ => []

/-- What hiding a capture group hides. -/
def groupToHide (t : Tree) (name label : Text) (group : Nat) (scope source : Text) : Plan :=
  match t.labels.glyph label with
  | .ok glyph =>
    match (t.planGroup name glyph group (t.groupSources scope source)).1 with
    | .ok plan => plan
    | .error _ => []
  | .error _ => []

/-- What hiding the rest hides. -/
def restToHide (t : Tree) (name label target : Text) : Plan :=
  match t.labels.glyph label with
  | .ok glyph => t.restPlan name glyph target
  | .error _ => []

/-- What a command hides. -/
def planOf (t : Tree) : Command → Plan
  | .hideAll name pattern label target => t.matchesToHide name pattern label target
  | .hideAny name pattern label target => t.matchesToHide name pattern label target
  | .hideGroup name label group scope source => t.groupToHide name label group scope source
  | .hideRest name label target => t.restToHide name label target
  | _ => []

/-! ## Carrying out -/

theorem hideMatches_tree (t : Tree) (name pattern label target : Text) :
    (t.hideMatches name pattern label target).tree =
      t.applyPlan (t.matchesToHide name pattern label target) := by
  unfold hideMatches matchesToHide
  cases hg : t.labels.glyph label with
  | error e => rfl
  | ok glyph =>
    cases t.compile pattern with
    | error e => rfl
    | ok program => simp [carryOut, Outcome.done, matchPlan, Function.comp_def]

theorem hideGroup_tree (t : Tree) (name label : Text) (group : Nat) (scope source : Text) :
    (t.hideGroup name label group scope source).tree =
      t.applyPlan (t.groupToHide name label group scope source) := by
  unfold hideGroup groupToHide
  cases t.labels.glyph label with
  | error e => rfl
  | ok glyph =>
    dsimp only
    split <;> rename_i hp <;> simp only [hp] <;> rfl

theorem hideRest_tree (t : Tree) (name label target : Text) :
    (t.hideRest name label target).tree = t.applyPlan (t.restToHide name label target) := by
  unfold hideRest restToHide
  cases t.labels.glyph label <;> rfl

/-! ## What plans are made of -/

theorem matchesToHide_sublist (t : Tree) (name pattern label target : Text) :
    ((t.matchesToHide name pattern label target).map Prod.fst).Sublist (t.targets target) := by
  unfold matchesToHide
  split
  · simp [matchPlan, Function.comp_def]
  · exact List.nil_sublist _

theorem mem_matchesToHide (he : e ∈ t.matchesToHide name pattern label target) :
    e.1 ∈ t.targets target ∧ ∃ glyph program, t.labels.glyph label = .ok glyph ∧
      e.2 = t.wholeCuts e.1 (t.matchCuts name glyph program e.1) := by
  unfold matchesToHide at he
  split at he
  · rename_i glyph program hglyph _
    obtain ⟨p, hp, rfl⟩ := List.mem_map.1 he
    exact ⟨hp, glyph, program, hglyph, rfl⟩
  · cases he

theorem groupToHide_sublist (t : Tree) (name label : Text) (group : Nat) (scope source : Text) :
    ((t.groupToHide name label group scope source).map Prod.fst).Sublist
      (t.groupSources scope source) := by
  unfold groupToHide
  split
  · split
    · exact planGroup_sublist ‹_›
    · exact List.nil_sublist _
  · exact List.nil_sublist _

/-- The one cut of a source is that of its group, if it parts no unfolded child. -/
theorem mem_groupToHide (he : e ∈ t.groupToHide name label group scope source) :
    e.1 ∈ t.groupSources scope source ∧ ∃ glyph range, t.labels.glyph label = .ok glyph ∧
      ((t.node e.1).text.slice? range).isSome = true ∧
      e.2 = t.wholeCuts e.1 [⟨range, glyph, .fresh name none⟩] := by
  refine ⟨(groupToHide_sublist ..).subset (List.mem_map_of_mem he), ?_⟩
  unfold groupToHide at he
  split at he
  · rename_i glyph hglyph
    split at he
    · obtain ⟨range, -, -, hslice, hcuts⟩ := mem_planGroup ‹_› e he
      exact ⟨glyph, range, hglyph, hslice, hcuts⟩
    · cases he
  · cases he

theorem restToHide_sublist (t : Tree) (name label target : Text) :
    ((t.restToHide name label target).map Prod.fst).Sublist (t.targets target) := by
  unfold restToHide
  split
  · simp [restPlan, Function.comp_def]
  · exact List.nil_sublist _

theorem mem_restToHide (he : e ∈ t.restToHide name label target) :
    e.1 ∈ t.targets target ∧ ∃ glyph, t.labels.glyph label = .ok glyph ∧
      e.2 = t.restCuts name glyph e.1 := by
  unfold restToHide at he
  split at he
  · rename_i glyph hglyph
    obtain ⟨p, hp, rfl⟩ := List.mem_map.1 he
    exact ⟨(List.mem_filter.1 hp).1, glyph, hglyph, rfl⟩
  · cases he

/-- What stands for a match has its groups. -/
theorem origin_of_mem_matchesToHide (he : e ∈ t.matchesToHide name pattern label target)
    (hcut : cut ∈ e.2) : ∃ m, cut.origin = .fresh name (groupTable m) := by
  obtain ⟨-, glyph, program, -, hcuts⟩ := mem_matchesToHide he
  rw [hcuts] at hcut
  obtain ⟨m, -, rfl⟩ := List.mem_map.1 (List.mem_filter.1 hcut).1
  exact ⟨m, rfl⟩

/-- What stands for a capture group has no groups of its own. -/
theorem origin_of_mem_groupToHide (he : e ∈ t.groupToHide name label group scope source)
    (hcut : cut ∈ e.2) : cut.origin = .fresh name none := by
  obtain ⟨-, glyph, range, -, -, hcuts⟩ := mem_groupToHide he
  rw [hcuts] at hcut
  rw [List.mem_singleton.1 (List.mem_filter.1 hcut).1]

theorem origin_of_mem_restToHide (he : e ∈ t.restToHide name label target) (hcut : cut ∈ e.2) :
    cut.origin = .fresh name none := by
  obtain ⟨-, glyph, -, hcuts⟩ := mem_restToHide he
  rw [hcuts] at hcut
  obtain ⟨run, -, rfl⟩ := List.mem_map.1 hcut
  rfl

/-- All cuts of hides are those of fresh nodes. -/
theorem origin_of_mem_planOf (he : e ∈ t.planOf c) (hcut : cut ∈ e.2) :
    ∃ name groups, cut.origin = .fresh name groups := by
  cases c with
  | hideAll | hideAny => exact ⟨_, _, (origin_of_mem_matchesToHide he hcut).choose_spec⟩
  | hideGroup => exact ⟨_, _, origin_of_mem_groupToHide he hcut⟩
  | hideRest => exact ⟨_, _, origin_of_mem_restToHide he hcut⟩
  | _ => cases he

/-- Hides are for live nodes. -/
theorem live_of_mem_planOf (he : e ∈ t.planOf c) : e.1 ∈ t.liveOrder ∨ t.isLive e.1 = true := by
  cases c with
  | hideAll | hideAny => exact .inl (List.mem_filter.1 (mem_matchesToHide he).1).1
  | hideGroup =>
    exact .inr (Bool.and_eq_true_iff.1 (List.mem_filter.1 (mem_groupToHide he).1).2).1
  | hideRest => exact .inl (List.mem_filter.1 (mem_restToHide he).1).1
  | _ => cases he

theorem nodup_planOf (hlive : t.liveOrder.Nodup) (hdocument : t.documentOrder.Nodup) (c : Command) :
    ((t.planOf c).map Prod.fst).Nodup := by
  cases c with
  | hideAll | hideAny => exact (hlive.filter _).sublist (matchesToHide_sublist ..)
  | hideGroup => exact ((hdocument.filter _).filter _).sublist (groupToHide_sublist ..)
  | hideRest => exact (hlive.filter _).sublist (restToHide_sublist ..)
  | _ => exact .nil

section
variable (hs : Shaped t)
include hs

theorem Shaped.live_planOf (he : e ∈ t.planOf c) : e.1 ∈ t.liveOrder :=
  (live_of_mem_planOf he).elim id hs.mem_liveOrder_of_isLive

theorem Shaped.layout_planOf (he : e ∈ t.planOf c) : ∃ cs, Layout t e.1 cs :=
  hs.layout e.1 (hs.lt_of_mem_documentOrder (hs.live_subset (hs.live_planOf he)))

theorem Shaped.nodup_planOf (c : Command) : ((t.planOf c).map Prod.fst).Nodup :=
  Tree.nodup_planOf hs.nodup_liveOrder hs.nodup_documentOrder c

/-- The cuts of hides part no unfolded child. -/
theorem Shaped.cutting_planOf (he : e ∈ t.planOf c) : Cutting t e.1 e.2 := by
  obtain ⟨cs, hl⟩ := hs.layout_planOf he
  cases c with
  | hideAll | hideAny =>
    obtain ⟨-, glyph, program, -, hcuts⟩ := mem_matchesToHide he
    exact hcuts ▸ hl.cutting_matchCuts program
  | hideGroup =>
    obtain ⟨-, glyph, range, -, hslice, hcuts⟩ := mem_groupToHide he
    exact hcuts ▸ hl.cutting_group hslice
  | hideRest =>
    obtain ⟨-, glyph, -, hcuts⟩ := mem_restToHide he
    exact hcuts ▸ hl.fitting_restCuts.cutting
  | _ => cases he

end

end GlyphTree.Tree
