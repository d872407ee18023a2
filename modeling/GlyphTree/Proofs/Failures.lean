import GlyphTree.Proofs.Histories

/-!
# Failing pipelines

A pipeline that fails has carried out all passes before the failing one, and nothing of that one
(`run_error`), except where it is a nested hide whose first round hid something: what its rounds
hid before the failure stays hidden. Nodes are never removed, so such a tree is larger than the tree
before the pass.
-/

namespace GlyphTree

/-- Whether a fresh node comes to stand for the cut. -/
def Cut.isFresh (c : Cut) : Bool :=
  match c.origin with
  | .fresh _ _ => true
  | .back _ _ => false

theorem Cut.isFresh_iff {c : Cut} :
    c.isFresh = true ↔ ∃ name groups, c.origin = .fresh name groups := by
  obtain ⟨range, glyph, origin⟩ := c
  cases origin <;> simp [isFresh]

/-- The number of fresh nodes that a plan makes. -/
def Plan.fresh (plan : Plan) : Nat := plan.foldr (fun x n => x.2.countP Cut.isFresh + n) 0

/-- Each region of a plan that only makes fresh nodes is one of them. -/
theorem Plan.fresh_eq_regions {plan : Plan} (h : ∀ x ∈ plan, ∀ c ∈ x.2, c.isFresh = true) :
    plan.fresh = plan.regions := by
  induction plan with
  | nil => rfl
  | cons x plan ih =>
    obtain ⟨hx, hplan⟩ := List.forall_mem_cons.1 h
    rw [Plan.fresh, Plan.regions, List.foldr_cons, List.foldr_cons, List.countP_eq_length.2 hx]
    exact congrArg (x.2.length + ·) (ih hplan)

namespace Tree

variable {t : Tree} {name pattern label target : Text}

/-! ## How trees grow -/

theorem size_prepare (t : Tree) (text : Text) (c : Cut) :
    (t.prepare text c).1.size = t.size + [c].countP Cut.isFresh := by
  obtain ⟨range, glyph, origin⟩ := c
  cases origin <;> simp [prepare, Cut.isFresh]

theorem size_settle (t : Tree) (p : NodeId) (text : Text) (es : List Edit) (c : Cut)
    (moved : List NodeId) :
    (t.settle p text es c moved).size = t.size + [c].countP Cut.isFresh := by
  rw [← size_prepare t text c]
  simp [settle]

theorem size_settleAll (p : NodeId) (text : Text) (es : List Edit) (cuts : List Cut)
    (kids : List (NodeId × Span)) (t : Tree) :
    (settleAll p text es cuts kids t).size = t.size + cuts.countP Cut.isFresh := by
  induction cuts generalizing kids t with
  | nil => rfl
  | cons c cuts ih =>
    rw [settleAll, ih, size_settle, Nat.add_assoc, ← List.countP_append]
    rfl

theorem size_splice (t : Tree) (p : NodeId) (cuts : List Cut) :
    (t.splice p cuts).size = t.size + cuts.countP Cut.isFresh := by
  simp [splice, size_settleAll]

theorem size_applyPlan (t : Tree) (plan : Plan) :
    (t.applyPlan plan).size = t.size + plan.fresh := by
  induction plan generalizing t with
  | nil => rfl
  | cons x plan ih =>
    obtain ⟨p, cuts⟩ := x
    rw [applyPlan, List.foldl_cons, ← applyPlan, ih]
    cases cuts with
    | nil => simp [Plan.fresh]
    | cons c cuts => simp [size_splice, Plan.fresh, Nat.add_assoc]

/-! ## Hides -/

/-- A hide of matches changes nothing when it fails, and otherwise makes as many nodes as it
says. -/
theorem hideMatches_cases (t : Tree) (name pattern label target : Text) :
    (∃ e, (t.hideMatches name pattern label target).result = .error e ∧
      (t.hideMatches name pattern label target).tree = t) ∨
    ∃ n, (t.hideMatches name pattern label target).result = .ok n ∧
      (t.hideMatches name pattern label target).tree.size = t.size + n := by
  unfold hideMatches
  cases t.labels.glyph label with
  | error e => exact .inl ⟨e, rfl, rfl⟩
  | ok glyph =>
    cases t.compile pattern with
    | error e => exact .inl ⟨e, rfl, rfl⟩
    | ok program =>
      refine .inr ⟨_, rfl, ?_⟩
      dsimp only [carryOut, Outcome.done]
      rw [size_applyPlan]
      refine congrArg (t.size + ·) (Plan.fresh_eq_regions fun x hx c hc => ?_)
      obtain ⟨⟨id, cuts⟩, hx', rfl⟩ := List.mem_map.1 hx
      obtain ⟨id', -, he⟩ := List.mem_map.1 hx'
      cases he
      obtain ⟨m, -, rfl⟩ := List.mem_map.1 (List.mem_filter.1 hc).1
      rfl

theorem hideAny_error {e : HideError}
    (h : (t.hideAny name pattern label target).result = .error e) :
    (t.hideAny name pattern label target).tree = t := by
  unfold hideAny Outcome.map at h ⊢
  obtain ⟨_, _, ht⟩ | ⟨n, hr, _⟩ := hideMatches_cases t name pattern label target
  · exact ht
  · rw [hr] at h
    cases h

theorem size_le_hideAny (t : Tree) (name pattern label target : Text) :
    t.size ≤ (t.hideAny name pattern label target).tree.size := by
  unfold hideAny Outcome.map
  obtain ⟨_, _, ht⟩ | ⟨n, _, ht⟩ := hideMatches_cases t name pattern label target
  · exact Nat.le_of_eq (congrArg size ht).symm
  · exact ht ▸ Nat.le_add_right _ _

/-- A round that hides something makes the tree larger. -/
theorem lt_size_hideAny (h : (t.hideAny name pattern label target).result = .ok true) :
    t.size < (t.hideAny name pattern label target).tree.size := by
  unfold hideAny Outcome.map at h ⊢
  obtain ⟨_, hr, _⟩ | ⟨n, hr, ht⟩ := hideMatches_cases t name pattern label target
  · rw [hr] at h
    cases h
  · rw [hr] at h
    have hn : 0 < n := by simpa [Except.map] using h
    exact ht ▸ Nat.lt_add_of_pos_right hn

theorem hideGroup_error {group : Nat} {scope source : Text} {e : HideError}
    (h : (t.hideGroup name label group scope source).result = .error e) :
    (t.hideGroup name label group scope source).tree = t := by
  unfold hideGroup at h ⊢
  split
  · rfl
  · rename_i hg
    rw [hg] at h
    dsimp only at h ⊢
    split
    · rfl
    · rename_i hp
      rw [hp] at h
      cases h

theorem size_le_hideGroup (t : Tree) (name label : Text) (group : Nat) (scope source : Text) :
    t.size ≤ (t.hideGroup name label group scope source).tree.size := by
  rw [hideGroup_tree, size_applyPlan]
  exact Nat.le_add_right _ _

theorem hideRest_error {e : HideError} (h : (t.hideRest name label target).result = .error e) :
    (t.hideRest name label target).tree = t := by
  unfold hideRest at h ⊢
  split
  · rfl
  · rename_i hg
    rw [hg] at h
    cases h

theorem define_error {e : HideError} (h : (t.define label).result = .error e) :
    (t.define label).tree = t := by
  unfold define at h ⊢
  split
  · rfl
  · rename_i hd
    rw [hd] at h
    cases h

theorem defineMacro_error {body : Text} {e : HideError}
    (h : (t.defineMacro label body).result = .error e) : (t.defineMacro label body).tree = t := by
  unfold defineMacro at h ⊢
  split
  · rfl
  · rename_i hd
    rw [hd] at h
    cases h

/-! ## Nested hides -/

/-- A step after which the tree is no smaller can be put behind another one. -/
theorem size_le_andThen {ε α β : Type} {n : Nat} {o : Outcome ε α}
    {next : Tree → α → Outcome ε β} (h : n ≤ o.tree.size)
    (hn : ∀ t a, t.size ≤ (next t a).tree.size) : n ≤ (o.andThen next).tree.size :=
  Outcome.tree_andThen (P := fun t => n ≤ t.size) h fun a h _ => Nat.le_trans h (hn o.tree a)

theorem size_le_finishRound (t : Tree) (name target : Text) (content : Option Promotion)
    (newName : Option Text) : t.size ≤ (t.finishRound name target content newName).tree.size := by
  refine size_le_andThen ?_ fun t _ => ?_
  · cases content with
    | none => exact Nat.le_refl _
    | some p => exact size_le_hideGroup ..
  · cases newName with
    | none => exact Nat.le_refl _
    | some newName => exact Nat.le_of_eq (alike_renameAll ..).1.size.symm

theorem size_le_nestedRounds (name pattern label target : Text) (content : Option Promotion)
    (newName : Option Text) (rounds left : Nat) (t : Tree) :
    t.size ≤ (nestedRounds name pattern label target content newName rounds left t).tree.size := by
  induction left generalizing t rounds with
  | zero => exact Nat.le_refl _
  | succ left ih =>
    apply size_le_andThen (size_le_hideAny ..)
    intro t hidden
    cases hidden with
    | false => exact Nat.le_refl _
    | true => exact size_le_andThen (size_le_finishRound ..) fun t _ => ih (rounds + 1) t

/-- Whether a pass is a nested hide whose first round hides something. -/
def HidesRound (t : Tree) : Pass → Prop
  | .hideNested name pattern label target _ _ =>
    (t.hideAny name pattern label target).result = .ok true
  | _ => False

/-- Rounds that fail change nothing just if the first of them hides nothing. -/
theorem nestedRounds_error {content : Option Promotion} {newName : Option Text}
    {rounds left : Nat} {e : HideError}
    (h : (nestedRounds name pattern label target content newName rounds left t).result = .error e) :
    (nestedRounds name pattern label target content newName rounds left t).tree = t ↔
      (t.hideAny name pattern label target).result ≠ .ok true := by
  cases left with
  | zero => cases h
  | succ left =>
    rw [nestedRounds] at h ⊢
    unfold Outcome.andThen at h ⊢
    cases hr : (t.hideAny name pattern label target).result with
    | error e' => simpa using hideAny_error hr
    | ok hidden =>
      rw [hr] at h
      cases hidden with
      | false => cases h
      | true =>
        dsimp only
        rw [if_pos rfl]
        -- what comes after the first hide only makes the tree larger still
        have hle : (t.hideAny name pattern label target).tree.size ≤
            (((t.hideAny name pattern label target).tree.finishRound name target content
              newName).andThen fun t _ => nestedRounds name pattern label target content newName
                (rounds + 1) left t).tree.size :=
          size_le_andThen (size_le_finishRound ..) fun t _ => size_le_nestedRounds ..
        refine iff_of_false (fun ht => ?_) (fun hne => hne rfl)
        exact Nat.not_lt.2 (Nat.le_trans hle (Nat.le_of_eq (congrArg size ht)))
          (lt_size_hideAny hr)

/-! ## Passes and pipelines -/

/-- A result that is mapped is an error just if it was one. -/
theorem result_map_error {ε α β : Type} {o : Outcome ε α} {f : α → β} {e : ε}
    (h : (o.map f).result = .error e) : o.result = .error e := by
  unfold Outcome.map at h
  cases hr : o.result with
  | error e' =>
    rw [hr] at h
    cases h
    rfl
  | ok a =>
    rw [hr] at h
    cases h

theorem replaceAll_ok (t : Tree) (old new target : Text) :
    ∃ n, (t.replaceAll old new target).result = .ok n := by
  unfold replaceAll
  split
  · exact ⟨_, rfl⟩
  · exact ⟨_, rfl⟩

/-- A pass that fails changes nothing, except a nested hide whose first round hides something. -/
theorem runPass_error {p : Pass} {e : HideError} (h : (t.runPass p).result = .error e) :
    (t.runPass p).tree = t ↔ ¬ t.HidesRound p := by
  cases p with
  | define label body =>
    refine iff_of_true ?_ (fun h => h)
    cases body with
    | none => exact define_error (result_map_error h)
    | some body => exact defineMacro_error (result_map_error h)
  | hideAll name pattern label target =>
    refine iff_of_true ?_ (fun h => h)
    obtain ⟨_, _, ht⟩ | ⟨n, hr, _⟩ := hideMatches_cases t name pattern label target
    · exact ht
    · cases hr.symm.trans (result_map_error h)
  | hideNested name pattern label target content newName =>
    unfold runPass hideNested Outcome.andThen at h ⊢
    dsimp only at h ⊢
    split at h
    · rename_i e' hr
      dsimp only
      exact nestedRounds_error hr
    · cases h
  | hideGroup => exact iff_of_true (hideGroup_error h) (fun h => h)
  | hideRest => exact iff_of_true (hideRest_error h) (fun h => h)
  | ignore | unignore | rename => cases h
  | replaceAll old new target =>
    obtain ⟨n, hr⟩ := replaceAll_ok t old new target
    cases hr.symm.trans (result_map_error h)

/-- A pipeline that fails has carried out the passes before the one that failed, and that one. -/
theorem runFrom_error {pipeline : Pipeline} {index : Nat} {e : PassError}
    (h : (runFrom index pipeline t).result = .error e) :
    ∃ i p made, e.index = index + i ∧ pipeline[i]? = some p ∧
      (runFrom index (pipeline.take i) t).result = .ok made ∧
      ((runFrom index (pipeline.take i) t).tree.runPass p).result = .error e.cause ∧
      (runFrom index pipeline t).tree =
        ((runFrom index (pipeline.take i) t).tree.runPass p).tree := by
  induction pipeline generalizing t index with
  | nil => cases h
  | cons p ps ih =>
    cases hr : (t.runPass p).result with
    | error e' =>
      simp only [runFrom, hr, Outcome.failed] at h ⊢
      cases h
      exact ⟨0, p, [], rfl, rfl, rfl, hr, rfl⟩
    | ok _ =>
      simp only [runFrom, hr] at h ⊢
      obtain ⟨i, q, made, hi, hq, hmade, hfail, htree⟩ := ih (result_map_error h)
      refine ⟨i + 1, q, ((t.runPass p).tree.size - t.size) :: made, by omega, hq, ?_, ?_, ?_⟩
      · simp only [List.take_succ_cons, runFrom, hr, Outcome.map, hmade]
        rfl
      · simpa [runFrom, hr, Outcome.map] using hfail
      · simpa [runFrom, hr, Outcome.map] using htree

/-- A pipeline that fails leaves the tree as the passes before the failing one left it, except
where the failing one is a nested hide whose first round hid something. -/
theorem run_error {pipeline : Pipeline} {e : PassError} (h : (t.run pipeline).result = .error e) :
    let prior := t.run (pipeline.take e.index)
    ∃ p made, pipeline[e.index]? = some p ∧ prior.result = .ok made ∧
      (prior.tree.runPass p).result = .error e.cause ∧
      (t.run pipeline).tree = (prior.tree.runPass p).tree ∧
      ((t.run pipeline).tree = prior.tree ↔ ¬ prior.tree.HidesRound p) := by
  obtain ⟨i, p, made, hi, hp, hmade, hfail, htree⟩ := runFrom_error h
  rw [Nat.zero_add] at hi
  subst hi
  refine ⟨p, made, hp, hmade, hfail, htree, ?_⟩
  rw [show (t.run pipeline).tree = _ from htree]
  exact runPass_error hfail

/-! ## A promotion that fails -/

/-- Hides the name of a call. -/
def hideName : Pass := .hideAll ['n'] ['f'] ['$'] ['*']

/-- Hides what stands in brackets, and then a capture group that the pattern does not have. -/
def hideBrackets : Pass :=
  .hideNested ['b'] ['\\', '(', '[', '^', '(', ')', ']', '*', '\\', ')'] ['#'] ['*']
    (some ⟨['c'], ['#'], 1⟩) none

/-- A call. -/
def call : Tree := ofText ['f', '(', 'x', ')']

set_option maxRecDepth 20000 in
theorem hideName_ok : (call.runPass hideName).result = .ok () := by cbv

set_option maxRecDepth 20000 in
theorem hideBrackets_error :
    ((call.runPass hideName).tree.runPass hideBrackets).result =
      .error (.groupOutOfRange 2 1 0) := by cbv

theorem missingGroup_error :
    (call.run [hideName, hideBrackets]).result = .error ⟨1, .groupOutOfRange 2 1 0⟩ := by
  simp only [run, runFrom, hideName_ok, hideBrackets_error]
  rfl

set_option maxRecDepth 20000 in
theorem run_error_of_missingGroup :
    (call.run [hideName, hideBrackets]).result = .error ⟨1, .groupOutOfRange 2 1 0⟩ ∧
      let prior := call.run [hideName]
      ∃ p made, [hideName, hideBrackets][1]? = some p ∧ prior.result = .ok made ∧
        (prior.tree.runPass p).result = .error (.groupOutOfRange 2 1 0) ∧
        (call.run [hideName, hideBrackets]).tree = (prior.tree.runPass p).tree ∧
        ((call.run [hideName, hideBrackets]).tree = prior.tree ↔ ¬ prior.tree.HidesRound p) :=
  ⟨missingGroup_error, run_error missingGroup_error⟩

/-- A failing pass can leave a change behind: here the brackets stay hidden. -/
theorem not_run_atomic :
    ¬ ∀ (t : Tree) (pipeline : Pipeline) (e : PassError), (t.run pipeline).result = .error e →
      (∃ made, (t.run (pipeline.take e.index)).result = .ok made) ∧
        (t.run pipeline).tree = (t.run (pipeline.take e.index)).tree := by
  intro h
  obtain ⟨-, htree⟩ := h call _ _ missingGroup_error
  have hsize := congrArg size htree
  simp only [run, runFrom, List.take_succ_cons, List.take_zero, hideName_ok, Outcome.map,
    hideBrackets_error, Outcome.failed, Outcome.done] at hsize
  have hbefore : (call.runPass hideName).tree.size = 2 := by cbv
  have hafter : ((call.runPass hideName).tree.runPass hideBrackets).tree.size = 3 := by cbv
  rw [hbefore, hafter] at hsize
  cases hsize

end Tree

end GlyphTree
