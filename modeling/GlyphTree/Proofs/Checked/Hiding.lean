import GlyphTree.Proofs.Checked.Changes
import GlyphTree.Proofs.Checked.Folding

/-!
# Checked hides

The hides with checks. A hide is planned against a tree that does not change meanwhile, so each cut
is made from what is laid out then; the groups of a match lie in the match, and a pattern can be
expanded if no label is empty. The plan is then safe to carry out.
-/

namespace GlyphTree

/-- What a group has covered lies behind the start of its match. -/
theorem Program.start_le_of_mem_groups {p : Program} {t : Text} {m : Match} {s : Span}
    (hm : m ∈ p.matchesIn t) (hs : some s ∈ m.groups) :
    m.span.start ≤ s.start ∧ s.start ≤ s.stop := by
  obtain ⟨f, hf, rfl⟩ := List.mem_map.1 hm
  obtain ⟨a, b, -, -, -, hw⟩ := (p.scanFrom_within _ (.start t) none f hf).piece
  obtain ⟨i, -, hi⟩ := List.mem_map.1 hs
  obtain ⟨-, -, hstart, hord⟩ := hw.closed _ (Marks.Within.mem_of_lookup hi)
  exact ⟨hstart, hord⟩

namespace Tree

open Cells

variable {t : Tree} {p id : NodeId} {name pattern label target scope source : Text} {glyph : Char}
  {group : Nat} {ids : List NodeId} {plan : Plan} {cs : Cells}

/-! ## Definitions -/

/-- The tree with a plan of fresh nodes carried out. -/
def carryOut? (t : Tree) (name : Text) (plan : Plan) : Option (Outcome HideError Nat) := do
  let t' ← t.applyPlan? plan
  return .done t' plan.regions
    (plan.placements t.size ++ [.hid plan.regions name plan.parents])

/-- Whether a cut of a node's text keeps the markers of each unfolded child together. -/
def isWhole? (t : Tree) (parent : NodeId) (c : Cut) : Option Bool := do
  let kids ← t.children? parent
  let atoms ← kids.mapM fun k => do (← t.node? k).atoms?
  return atoms.all c.respects

/-- The cuts of a node that keep its unfolded children together. -/
def wholeCuts? (t : Tree) (parent : NodeId) (cuts : List Cut) : Option (List Cut) :=
  filter? (t.isWhole? parent) cuts

/-- What is reported about the cuts that do not. -/
def splitCuts? (t : Tree) (parent : NodeId) (cuts : List Cut) : Option (List Event) := do
  let split ← filter? (fun c => (t.isWhole? parent c).map (!·)) cuts
  return split.map fun c => .regionSkipped c.range parent

/-- The program of a pattern with its labels expanded. -/
def compile? (t : Tree) (pattern : Text) : Option (Except HideError Program) := do
  return match ← t.labels.expand? pattern with
    | .error e => .error e
    | .ok expanded =>
      match Program.compile expanded with
      | .ok program => .ok program
      | .error _ => .error (.patternInvalid expanded)

/-- The group table of a match, its spans counted from the start of the match. -/
def groupTable? (m : Match) : Option Groups :=
  if m.groups.isEmpty then some none
  else do
    let groups ← m.groups.mapM fun g => g.mapM fun s => do
      let start ← minus? s.start m.span.start
      let stop ← minus? s.stop m.span.start
      return (⟨start, stop⟩ : Span)
    return some groups

/-- The cuts that hide all matches in a node's text. -/
def matchCuts? (t : Tree) (name : Text) (glyph : Char) (p : Program) (id : NodeId) :
    Option (List Cut) := do
  let n ← t.node? id
  (p.matchesIn n.text).mapM fun m => do
    let groups ← groupTable? m
    return ⟨m.span, glyph, .fresh name groups⟩

/-- Hides every match of a program in the targets. -/
def hideFound? (t : Tree) (name : Text) (glyph : Char) (program : Program) (target : Text) :
    Option (Outcome HideError Nat) := do
  let ids ← t.targets? target
  let found ← ids.mapM fun id => do
    let cuts ← t.matchCuts? name glyph program id
    let whole ← t.wholeCuts? id cuts
    let split ← t.splitCuts? id cuts
    return ((id, whole), split)
  let o ← t.carryOut? name (found.map Prod.fst)
  return { o with events := found.flatMap Prod.snd ++ o.events }

/-- Hides every match of a pattern in the targets, and gives the number of regions hidden. -/
def hideMatches? (t : Tree) (name pattern label target : Text) : Option (Outcome HideError Nat) :=
  match t.labels.glyph label with
  | .error e => some (.failed t e)
  | .ok glyph => do
    match ← t.compile? pattern with
    | .error e => return .failed t e
    | .ok program => t.hideFound? name glyph program target

/-- The live nodes with a name that are in a scope. -/
def groupSources? (t : Tree) (scope source : Text) : Option (List NodeId) := do
  let named ← t.named? source
  named |> filter? fun id => do
    let live ← t.isLive? id
    let within ← t.inScope? scope id
    return live && within

/-- Plans to hide one capture group of each source. -/
def planGroup? (t : Tree) (name : Text) (glyph : Char) (group : Nat) :
    List NodeId → Option (Except HideError Plan × List Event)
  | [] => some (.ok [], [])
  | id :: ids => do
    let n ← t.node? id
    let groups := n.groups.getD []
    if group = 0 ∨ groups.length < group then
      return (.error (.groupOutOfRange id group groups.length), [])
    else do
      let (rest, events) ← t.planGroup? name glyph group ids
      if n.isUnfolded then return (rest, .unfoldedSkipped id :: events)
      else do
        let index ← minus? group 1
        let recorded ← groups[index]?
        match recorded with
        | none => return (rest, events)
        | some range =>
          if (n.text.slice? range).isNone then
            return (rest, .groupSkipped group id range :: events)
          else do
            let cuts := [⟨range, glyph, .fresh name none⟩]
            let whole ← t.wholeCuts? id cuts
            let split ← t.splitCuts? id cuts
            return (rest.map ((id, whole) :: ·), split ++ events)

/-- Hides one capture group of every live node in scope with a name. -/
def hideGroup? (t : Tree) (name label : Text) (group : Nat) (scope source : Text) :
    Option (Outcome HideError Unit) :=
  match t.labels.glyph label with
  | .error e => some (.failed t e)
  | .ok glyph => do
    let sources ← t.groupSources? scope source
    let planned ← t.planGroup? name glyph group sources
    match planned with
    | (.error e, events) => return .failed t e events
    | (.ok plan, events) => do
      let o := (← t.carryOut? name plan).map fun _ => ()
      return { o with events := events ++ o.events }

/-- The cuts that hide every literal run of a node's text. -/
def restCuts? (t : Tree) (name : Text) (glyph : Char) (id : NodeId) : Option (List Cut) := do
  return (← t.literalRuns? id).map fun run => ⟨run, glyph, .fresh name none⟩

/-- Hides every literal run of the targets that have children. -/
def hideRest? (t : Tree) (name label target : Text) : Option (Outcome HideError Unit) :=
  match t.labels.glyph label with
  | .error e => some (.failed t e)
  | .ok glyph => do
    let targets ← t.targets? target
    let ids ← filter? (fun id => do return !(← t.children? id).isEmpty) targets
    let plan ← ids.mapM fun id => do return (id, ← t.restCuts? name glyph id)
    return (← t.carryOut? name plan).map fun _ => ()

/-! ## Plans -/

theorem WellFormed.carryOut?_eq (hw : WellFormed t) (ht : t.Housed) (name : Text)
    (hnd : (plan.map Prod.fst).Nodup) (hf : ∀ x ∈ plan, Fitting t x.1 x.2) :
    t.carryOut? name plan = some (t.carryOut name plan) ∧ (t.carryOut name plan).tree.Housed := by
  obtain ⟨happly, hhoused⟩ := hw.applyPlan?_eq ht hnd hf
  exact ⟨bind_eq_of_some happly _, hhoused⟩

theorem Layout.isWhole?_eq (h : Layout t p cs) (c : Cut) :
    t.isWhole? p c = some (t.isWhole p c) := by
  rw [isWhole?, bind_eq_of_some (children?_eq h.lt), bind_eq_of_some h.mapM_atoms?, isWhole,
    List.all_map]
  rfl

theorem Layout.wholeCuts?_eq (h : Layout t p cs) (cuts : List Cut) :
    t.wholeCuts? p cuts = some (t.wholeCuts p cuts) :=
  filter?_eq fun c _ => h.isWhole?_eq c

theorem Layout.splitCuts?_eq (h : Layout t p cs) (cuts : List Cut) :
    t.splitCuts? p cuts = some (t.splitCuts p cuts) := by
  have hsplit : filter? (fun c => (t.isWhole? p c).map (!·)) cuts =
      some (cuts.filter fun c => !t.isWhole p c) := filter?_eq fun c _ => by
    rw [h.isWhole?_eq]
    rfl
  exact bind_eq_of_some hsplit _

/-! ## Matches -/

theorem compile?_eq (hn : t.labels.Named) (pattern : Text) :
    t.compile? pattern = some (t.compile pattern) := by
  rw [compile?, bind_eq_of_some (hn.expand? pattern), compile]
  rfl

theorem Program.groupTable?_eq {program : Program} {text : Text} {m : Match}
    (hm : m ∈ program.matchesIn text) : groupTable? m = some (groupTable m) := by
  have hgroup : ∀ g ∈ m.groups, (g.mapM fun s => do
      let start ← minus? s.start m.span.start
      let stop ← minus? s.stop m.span.start
      return (⟨start, stop⟩ : Span)) = some (g.map (·.shiftDown m.span.start)) := by
    intro g hg
    cases g with
    | none => rfl
    | some s =>
      obtain ⟨hstart, hord⟩ := program.start_le_of_mem_groups hm hg
      simp [minus?_eq hstart, minus?_eq (hstart.trans hord), Span.shiftDown]
  rw [groupTable?, groupTable]
  split
  · rfl
  · exact bind_eq_of_some (mapM_eq_some hgroup) _

theorem matchCuts?_eq (hid : id < t.size) (name : Text) (glyph : Char) (program : Program) :
    t.matchCuts? name glyph program id = some (t.matchCuts name glyph program id) := by
  rw [matchCuts?, bind_eq_of_some (node?_eq hid)]
  exact mapM_eq_some fun m hm => bind_eq_of_some (Program.groupTable?_eq hm) _

theorem WellFormed.hideFound?_eq (hw : WellFormed t) (ht : t.Housed) {program : Program}
    (hsolid : (t.matchPlan name glyph program target).Solid) :
    t.hideFound? name glyph program target =
        some { t.carryOut name (t.matchPlan name glyph program target) with
          events := (t.targets target).flatMap (fun id =>
            t.splitCuts id (t.matchCuts name glyph program id)) ++
              (t.carryOut name (t.matchPlan name glyph program target)).events } ∧
      (t.carryOut name (t.matchPlan name glyph program target)).tree.Housed := by
  have hs := hw.shaped
  have hfound : (t.targets target).mapM (fun id => do
      let cuts ← t.matchCuts? name glyph program id
      let whole ← t.wholeCuts? id cuts
      let split ← t.splitCuts? id cuts
      return ((id, whole), split)) =
        some ((t.targets target).map fun id =>
          ((id, t.wholeCuts id (t.matchCuts name glyph program id)),
            t.splitCuts id (t.matchCuts name glyph program id))) := mapM_eq_some fun id hid => by
    obtain ⟨cs, hl⟩ := hs.layout id (hs.mem_targets hid)
    rw [bind_eq_of_some (matchCuts?_eq hl.lt name glyph program),
      bind_eq_of_some (hl.wholeCuts?_eq _), bind_eq_of_some (hl.splitCuts?_eq _)]
    rfl
  obtain ⟨hnd, hf⟩ := hs.fitting_matchPlan hsolid
  obtain ⟨hcarry, hhoused⟩ := hw.carryOut?_eq ht name hnd hf
  refine ⟨?_, hhoused⟩
  rw [hideFound?, bind_eq_of_some (hs.targets?_eq target), bind_eq_of_some hfound, List.map_map,
    List.flatMap_map]
  exact bind_eq_of_some hcarry _

/-- The tree is left in order whatever the labels are; the checks need them to have names. -/
theorem WellFormed.hideMatches?_eq (hw : WellFormed t) (ht : t.Housed)
    (hsolid : t.SolidMatches name pattern label target) :
    (t.labels.Named → t.hideMatches? name pattern label target =
        some (t.hideMatches name pattern label target)) ∧
      (t.hideMatches name pattern label target).tree.Housed := by
  unfold hideMatches? hideMatches
  unfold SolidMatches at hsolid
  cases hg : t.labels.glyph label with
  | error e => exact ⟨fun _ => rfl, ht⟩
  | ok glyph =>
    cases hp : t.compile pattern with
    | error e => exact ⟨fun hn => bind_eq_of_some (hp ▸ compile?_eq hn pattern) _, ht⟩
    | ok program =>
      rw [hg, hp] at hsolid
      obtain ⟨hfound, hhoused⟩ := hw.hideFound?_eq ht hsolid
      simp only [matchPlan] at hfound hhoused
      simp only [List.map_map, List.flatMap_map, Function.comp_def]
      refine ⟨fun hn => ?_, hhoused⟩
      rw [bind_eq_of_some (hp ▸ compile?_eq hn pattern)]
      exact hfound

/-! ## Capture groups -/

theorem Shaped.groupSources?_eq (hs : Shaped t) (ht : t.Housed) (scope source : Text) :
    t.groupSources? scope source = some (t.groupSources scope source) := by
  rw [groupSources?, bind_eq_of_some (hs.named?_eq source)]
  refine filter?_eq fun id hid => ?_
  rw [bind_eq_of_some (hs.isLive?_eq ht id),
    bind_eq_of_some (hs.inScope?_eq scope (List.mem_filter.1 hid).1)]
  rfl

/-- What is recorded of a capture group stands in the group table. -/
theorem getElem?_groups {n : Node} {i : Nat} (h : i < (n.groups.getD []).length) :
    (n.groups.getD [])[i]? = some (n.groupSpan? (i + 1)) := by
  unfold Node.groupSpan?
  cases hg : n.groups with
  | none => rw [hg] at h; exact absurd h (Nat.not_lt_zero i)
  | some groups =>
    rw [hg] at h
    have hi : groups[i]? = some groups[i] := List.getElem?_eq_getElem h
    change groups[i]? = some groups[i]?.join
    rw [hi]
    rfl

theorem Shaped.planGroup?_eq (hs : Shaped t) (hids : ∀ id ∈ ids, id < t.size) (name : Text)
    (glyph : Char) (group : Nat) :
    t.planGroup? name glyph group ids = some (t.planGroup name glyph group ids) := by
  induction ids with
  | nil => rfl
  | cons id ids ih =>
    obtain ⟨hid, hids⟩ := List.forall_mem_cons.1 hids
    obtain ⟨cs, hl⟩ := hs.layout id hid
    rw [planGroup?, planGroup, bind_eq_of_some (node?_eq hid)]
    dsimp only
    split
    · rfl
    · next hgroup =>
      obtain ⟨hpos, hle⟩ := not_or.1 hgroup
      obtain ⟨i, rfl⟩ := Nat.exists_eq_succ_of_ne_zero hpos
      rw [bind_eq_of_some (ih hids)]
      split
      · rfl
      · -- the group asked for is in the table
        have hi : i < ((t.node id).groups.getD []).length := Nat.lt_of_succ_le (Nat.not_lt.1 hle)
        rw [bind_eq_of_some (minus?_eq (Nat.succ_pos i)), Nat.succ_sub_one,
          bind_eq_of_some (getElem?_groups hi)]
        cases (t.node id).groupSpan? (i + 1) with
        | none => rfl
        | some range =>
          dsimp only
          split
          · rfl
          · rw [bind_eq_of_some (hl.wholeCuts?_eq _), bind_eq_of_some (hl.splitCuts?_eq _)]
            rfl

theorem WellFormed.hideGroup?_eq (hw : WellFormed t) (ht : t.Housed)
    (hsolid : t.SolidGroup name label group scope source) :
    t.hideGroup? name label group scope source = some (t.hideGroup name label group scope source) ∧
      (t.hideGroup name label group scope source).tree.Housed := by
  have hs := hw.shaped
  unfold hideGroup? hideGroup
  cases hg : t.labels.glyph label with
  | error e => exact ⟨rfl, ht⟩
  | ok glyph =>
    dsimp only
    rw [bind_eq_of_some (hs.groupSources?_eq ht scope source),
      bind_eq_of_some (hs.planGroup?_eq (fun id hid => hs.mem_groupSources hid) name glyph group)]
    cases hp : t.planGroup name glyph group (t.groupSources scope source) with
    | mk planned events =>
      cases planned with
      | error e => exact ⟨rfl, ht⟩
      | ok plan =>
        have hplan : t.planOf (.hideGroup name label group scope source) = plan := by
          simp only [planOf, groupToHide, hg, hp]
        have hfits := hs.fitting_planOf (c := .hideGroup name label group scope source) hsolid
        obtain ⟨hcarry, hhoused⟩ := hw.carryOut?_eq ht name (hplan ▸ hs.nodup_planOf _)
          (hplan ▸ hfits)
        exact ⟨bind_eq_of_some hcarry _, hhoused⟩

/-! ## What is left -/

theorem Layout.restCuts?_eq (h : Layout t p cs) (name : Text) (glyph : Char) :
    t.restCuts? name glyph p = some (t.restCuts name glyph p) :=
  bind_eq_of_some h.literalRuns?_eq _

theorem WellFormed.hideRest?_eq (hw : WellFormed t) (ht : t.Housed) (name label target : Text) :
    t.hideRest? name label target = some (t.hideRest name label target) ∧
      (t.hideRest name label target).tree.Housed := by
  have hs := hw.shaped
  unfold hideRest? hideRest
  cases t.labels.glyph label with
  | error e => exact ⟨rfl, ht⟩
  | ok glyph =>
    have hkids : filter? (fun id => do return !(← t.children? id).isEmpty) (t.targets target) =
        some ((t.targets target).filter fun id => !(t.children id).isEmpty) :=
      filter?_eq fun id hid => bind_eq_of_some (children?_eq (hs.mem_targets hid)) _
    have hplan : ((t.targets target).filter fun id => !(t.children id).isEmpty).mapM (fun id => do
        return (id, ← t.restCuts? name glyph id)) = some (t.restPlan name glyph target) :=
      mapM_eq_some fun id hid => by
        obtain ⟨cs, hl⟩ := hs.layout id (hs.mem_targets (List.mem_filter.1 hid).1)
        exact bind_eq_of_some (hl.restCuts?_eq name glyph) _
    have hfits := fun (x : NodeId × List Cut) (hx : x ∈ t.restPlan name glyph target) =>
      ((hs.fitting_restPlan target).2 x hx).1
    obtain ⟨hcarry, hhoused⟩ := hw.carryOut?_eq ht name (hs.fitting_restPlan target).1 hfits
    dsimp only
    rw [bind_eq_of_some (hs.targets?_eq target), bind_eq_of_some hkids, bind_eq_of_some hplan]
    exact ⟨bind_eq_of_some hcarry _, hhoused⟩

end Tree

end GlyphTree
