import GlyphTree.Proofs.Bookkeeping
import Mathlib.Data.ENat.Lattice

/-!
# Rounds of a nested hide

A round hides the matches of a pattern, promotes a group of the fresh nodes and renames them. It
counts if it hides something and no step of it fails. Since the bound is looked at behind a round, a
nested hide does as many rounds as the bound allows, but never none if there is one to do, and it
warns whenever it reaches the bound, also if nothing is left then (`hideNested_rounds`).
-/

namespace GlyphTree.Tree

section
variable (name pattern label target : Text) (content : Option Promotion) (newName : Option Text)

/-- `t'` is the tree after `n` rounds, each of which hides something and does not fail. -/
inductive Rounds : Nat → Tree → Tree → Prop where
  | refl (t : Tree) : Rounds 0 t t
  | step {n : Nat} {t t' : Tree} : (t.hideAny name pattern label target).result = .ok true →
      ((t.hideAny name pattern label target).tree.finishRound name target content
        newName).result = .ok () →
      Rounds n ((t.hideAny name pattern label target).tree.finishRound name target content
        newName).tree t' →
      Rounds (n + 1) t t'

/-- How many rounds there are to do if nothing bounds them. -/
noncomputable def roundsToDo (t : Tree) : ℕ∞ :=
  ⨆ (n : ℕ) (_ : ∃ t', Rounds name pattern label target content newName n t t'), (n : ℕ∞)

end

variable {name pattern label target : Text} {content : Option Promotion} {newName : Option Text}
  {t t' u : Tree} {n k left rounds total : Nat}

/-! ## Counting rounds -/

theorem Rounds.eq_of_zero (h : Rounds name pattern label target content newName 0 t t') :
    t' = t := by
  cases h
  rfl

/-- No more rounds can be done than until a round hides nothing. -/
theorem Rounds.le_of_done (h : Rounds name pattern label target content newName n t u)
    (hd : Rounds name pattern label target content newName k t t')
    (hfalse : (t'.hideAny name pattern label target).result = .ok false) : n ≤ k := by
  induction hd generalizing n with
  | refl t =>
    cases h with
    | refl => exact le_rfl
    | step htrue => cases hfalse.symm.trans htrue
  | step _ _ _ ih =>
    cases h with
    | refl => exact Nat.zero_le _
    | step _ _ h => exact Nat.succ_le_succ (ih h hfalse)

theorem Rounds.le_roundsToDo (h : Rounds name pattern label target content newName n t t') :
    (n : ℕ∞) ≤ roundsToDo name pattern label target content newName t :=
  le_iSup₂ (f := fun (n : ℕ) (_ : ∃ t', Rounds name pattern label target content newName n t t') =>
    (n : ℕ∞)) n ⟨t', h⟩

/-- Once a round hides nothing, there have been as many as there were to do. -/
theorem Rounds.eq_roundsToDo (h : Rounds name pattern label target content newName n t t')
    (hfalse : (t'.hideAny name pattern label target).result = .ok false) :
    roundsToDo name pattern label target content newName t = n := by
  refine le_antisymm (iSup₂_le fun k hk => ?_) h.le_roundsToDo
  obtain ⟨_, hk⟩ := hk
  exact Nat.cast_le.2 (hk.le_of_done h hfalse)

/-! ## Rounds that hide nothing -/

/-- A plan without regions changes nothing. -/
theorem applyPlan_of_regions (t : Tree) {plan : Plan} (h : plan.regions = 0) :
    t.applyPlan plan = t := by
  induction plan with
  | nil => rfl
  | cons x plan ih =>
    obtain ⟨p, cuts⟩ := x
    obtain ⟨hcuts, hplan⟩ := Nat.add_eq_zero_iff.1 (show cuts.length + Plan.regions plan = 0 from h)
    rw [applyPlan, List.foldl_cons, List.length_eq_zero_iff.1 hcuts]
    exact ih hplan

theorem hideAny_false (h : (t.hideAny name pattern label target).result = .ok false) :
    (t.hideAny name pattern label target).tree = t := by
  unfold hideAny hideMatches at h ⊢
  split at h
  · cases h
  · cases h
  · have hzero := Except.ok.inj h
    simp only [decide_eq_false_iff_not, Nat.pos_iff_ne_zero, not_not] at hzero
    exact applyPlan_of_regions t hzero

/-! ## Warnings -/

/-- The warnings among events. -/
def warnings (events : List Event) : List Event := events.filter (·.level = .warn)

theorem warnings_append (events events' : List Event) :
    warnings (events ++ events') = warnings events ++ warnings events' := List.filter_append ..

/-- Events of a kind that is no warning. -/
theorem warnings_map {α : Type} {f : α → Event} (hf : ∀ a, (f a).level ≠ .warn) (l : List α) :
    warnings (l.map f) = [] := by
  refine List.filter_eq_nil_iff.2 fun e he => ?_
  obtain ⟨a, -, rfl⟩ := List.mem_map.1 he
  simpa using hf a

theorem warnings_splitCuts (t : Tree) (id : NodeId) (cuts : List Cut) :
    warnings (t.splitCuts id cuts) = [] := warnings_map (fun _ => Level.noConfusion) _

theorem warnings_placements (plan : Plan) (n : Nat) : warnings (plan.placements n) = [] := by
  induction plan generalizing n with
  | nil => rfl
  | cons x plan ih =>
    rw [Plan.placements, warnings_append, ih, List.append_nil]
    exact warnings_map (fun _ => Level.noConfusion) _

theorem warnings_carryOut (t : Tree) (name : Text) (plan : Plan) :
    warnings (t.carryOut name plan).events = [] := by
  rw [carryOut, Outcome.done, warnings_append, warnings_placements]
  rfl

theorem warnings_hideAny (t : Tree) (name pattern label target : Text) :
    warnings (t.hideAny name pattern label target).events = [] := by
  unfold hideAny Outcome.map hideMatches
  dsimp only
  split
  · rfl
  · rfl
  · rw [warnings_append, warnings_carryOut, List.append_nil, warnings, List.filter_flatMap]
    exact List.flatMap_eq_nil_iff.2 fun x _ => warnings_splitCuts t _ _

theorem warnings_planGroup (t : Tree) (name : Text) (glyph : Char) (group : Nat)
    (ids : List NodeId) : warnings (t.planGroup name glyph group ids).2 = [] := by
  induction ids with
  | nil => rfl
  | cons id ids ih =>
    rw [planGroup]
    dsimp only
    split
    · rfl
    · split
      · exact ih
      · split
        · exact ih
        · split
          · exact ih
          · rw [warnings_append, warnings_splitCuts, ih, List.append_nil]

theorem warnings_hideGroup (t : Tree) (name label : Text) (group : Nat) (scope source : Text) :
    warnings (t.hideGroup name label group scope source).events = [] := by
  unfold hideGroup
  split
  · rfl
  · rename_i glyph _
    have hplan := warnings_planGroup t name glyph group (t.groupSources scope source)
    split
    · rename_i hp
      rw [hp] at hplan
      exact hplan
    · rename_i hp
      rw [hp] at hplan
      dsimp only [Outcome.map]
      rw [warnings_append, hplan, warnings_carryOut, List.append_nil]

/-- Warnings of steps in a row. -/
theorem warnings_andThen {ε α β : Type} {o : Outcome ε α} {next : Tree → α → Outcome ε β}
    (h : warnings o.events = []) (hn : ∀ t a, warnings (next t a).events = []) :
    warnings (o.andThen next).events = [] := by
  unfold Outcome.andThen
  split
  · exact h
  · rw [warnings_append, h, hn, List.append_nil]

theorem warnings_finishRound (t : Tree) (name target : Text) (content : Option Promotion)
    (newName : Option Text) :
    warnings (t.finishRound name target content newName).events = [] := by
  refine warnings_andThen ?_ fun t _ => ?_
  · cases content with
    | none => rfl
    | some p => exact warnings_hideGroup t p.name p.label p.group.toNat target name
  · cases newName <;> rfl

/-! ## Bounded rounds -/

theorem andThen_ok {ε α β : Type} {o : Outcome ε α} {next : Tree → α → Outcome ε β} {b : β}
    (h : (o.andThen next).result = .ok b) :
    ∃ a, o.result = .ok a ∧ (next o.tree a).result = .ok b ∧
      (o.andThen next).tree = (next o.tree a).tree ∧
      (o.andThen next).events = o.events ++ (next o.tree a).events := by
  unfold Outcome.andThen at h ⊢
  split at h
  · cases h
  · rename_i a ha
    simp only [ha]
    exact ⟨a, rfl, h, rfl, rfl⟩

/-- Rounds that do not fail are all there are to do, or else as many as the bound allows, and then
there is a warning. -/
theorem nestedRounds_ok
    (h : (nestedRounds name pattern label target content newName rounds left t).result =
      .ok total) :
    let o := nestedRounds name pattern label target content newName rounds left t
    ∃ k, total = rounds + k ∧ Rounds name pattern label target content newName k t o.tree ∧
      (k = left ∧ warnings o.events = [.nestedStopped name total] ∨
        k < left ∧ (o.tree.hideAny name pattern label target).result = .ok false ∧
          warnings o.events = []) := by
  induction left generalizing t rounds with
  | zero =>
    obtain rfl := Except.ok.inj h
    exact ⟨0, rfl, .refl t, .inl ⟨rfl, rfl⟩⟩
  | succ left ih =>
    rw [nestedRounds] at h ⊢
    obtain ⟨hidden, hhide, h, htree, hevents⟩ := andThen_ok h
    dsimp only
    rw [htree, hevents, warnings_append, warnings_hideAny, List.nil_append]
    clear htree hevents
    cases hidden with
    | false =>
      obtain rfl := Except.ok.inj h
      refine ⟨0, rfl, ?_, .inr ⟨Nat.succ_pos _, ?_, rfl⟩⟩
      · rw [if_neg Bool.false_ne_true, Outcome.done, hideAny_false hhide]
        exact .refl t
      · rw [if_neg Bool.false_ne_true, Outcome.done, hideAny_false hhide]
        exact hhide
    | true =>
      rw [if_pos rfl] at h ⊢
      obtain ⟨_, hfinish, h, htree, hevents⟩ := andThen_ok h
      obtain ⟨k, rfl, hrounds, hends⟩ := ih h
      rw [htree, hevents, warnings_append, warnings_finishRound, List.nil_append]
      refine ⟨k + 1, by omega, .step hhide hfinish hrounds, ?_⟩
      rcases hends with ⟨rfl, hw⟩ | ⟨hlt, hends⟩
      · exact .inl ⟨rfl, hw⟩
      · exact .inr ⟨Nat.succ_lt_succ hlt, hends⟩

/-- A nested hide that does not fail does as many rounds as there are to do and the bound allows,
where a bound of none counts as one. It warns just if there are as many to do as the bound allows,
or more. -/
theorem hideNested_rounds
    (h : (t.hideNested name pattern label target content newName).result = .ok ()) :
    let o := t.hideNested name pattern label target content newName
    let bound := max t.config.maxRounds.toNat 1
    let toDo := roundsToDo name pattern label target content newName t
    ∃ k : ℕ, (k : ℕ∞) = min (bound : ℕ∞) toDo ∧
      Rounds name pattern label target content newName k t o.tree ∧
      .nestedDone name k ∈ o.events ∧
      (bound ≤ toDo → warnings o.events = [.nestedStopped name k]) ∧
      (toDo < bound → warnings o.events = []) := by
  rw [hideNested] at h ⊢
  obtain ⟨total, hrounds, -, htree, hevents⟩ := andThen_ok h
  obtain ⟨k, rfl, hk, hends⟩ := nestedRounds_ok hrounds
  rw [Nat.zero_add] at hevents hends
  dsimp only
  rw [htree, hevents, warnings_append]
  generalize max t.config.maxRounds.toNat 1 = bound at hk hends ⊢
  refine ⟨k, ?_, hk, List.mem_append_right _ (List.mem_singleton_self _), ?_⟩
  · rcases hends with ⟨rfl, -⟩ | ⟨hlt, hfalse, -⟩
    · exact (min_eq_left hk.le_roundsToDo).symm
    · rw [hk.eq_roundsToDo hfalse]
      exact (min_eq_right (Nat.cast_le.2 hlt.le)).symm
  · rcases hends with ⟨rfl, hw⟩ | ⟨hlt, hfalse, hw⟩
    · exact ⟨fun _ => by rw [hw]; rfl, fun hlt => absurd hk.le_roundsToDo (not_le.2 hlt)⟩
    · rw [hk.eq_roundsToDo hfalse]
      exact ⟨fun hle => absurd (Nat.cast_lt.2 hlt) (not_lt.2 hle), fun _ => by rw [hw]; rfl⟩

/-! ## A bound that is reached -/

/-- What stands in brackets that hold no others. -/
def innermost : Text := ['\\', '(', '[', '^', '(', ')', ']', '*', '\\', ')']

/-- Brackets in brackets, and a bound on the rounds that hide them. -/
def nestedBrackets (maxRounds : UInt64) : Tree := ofText ['(', '(', 'x', ')', ')'] { maxRounds }

set_option maxRecDepth 20000 in
theorem hideNested_twoAllowed :
    ((nestedBrackets 2).hideNested ['b'] innermost ['#'] [] none none).result = .ok () := by cbv

set_option maxRecDepth 20000 in
/-- Where two rounds are allowed and two are to be done, the warning comes although nothing is
left. -/
theorem hideNested_rounds_twoAllowed :
    let t := nestedBrackets 2
    let o := t.hideNested ['b'] innermost ['#'] [] none none
    let bound := max t.config.maxRounds.toNat 1
    let toDo := roundsToDo ['b'] innermost ['#'] [] none none t
    o.result = .ok () ∧ (o.tree.hideAny ['b'] innermost ['#'] []).result = .ok false ∧
      warnings o.events = [.nestedStopped ['b'] 2] ∧
      ∃ k : ℕ, (k : ℕ∞) = min (bound : ℕ∞) toDo ∧
        Rounds ['b'] innermost ['#'] [] none none k t o.tree ∧ .nestedDone ['b'] k ∈ o.events ∧
        (bound ≤ toDo → warnings o.events = [.nestedStopped ['b'] k]) ∧
        (toDo < bound → warnings o.events = []) :=
  ⟨hideNested_twoAllowed, by cbv, by cbv, hideNested_rounds hideNested_twoAllowed⟩

set_option maxRecDepth 20000 in
/-- The first round is done although none is allowed. -/
theorem not_rounds_le_bound :
    ¬ ∀ (t : Tree) (name pattern label target : Text) (content : Option Promotion)
      (newName : Option Text),
      (t.hideNested name pattern label target content newName).result = .ok () →
      let o := t.hideNested name pattern label target content newName
      let bound := t.config.maxRounds.toNat
      let toDo := roundsToDo name pattern label target content newName t
      ∃ k : ℕ, (k : ℕ∞) = min (bound : ℕ∞) toDo ∧
        Rounds name pattern label target content newName k t o.tree ∧
        (warnings o.events ≠ [] ↔ bound < toDo) := by
  intro h
  have hok : ((nestedBrackets 0).hideNested ['b'] innermost ['#'] [] none none).result =
      .ok () := by cbv
  obtain ⟨k, hk, hrounds, -⟩ := h _ _ _ _ _ _ _ hok
  have hbound : ((nestedBrackets 0).config.maxRounds.toNat : ℕ∞) = 0 := rfl
  rw [hbound, min_eq_left (zero_le (a := _))] at hk
  obtain rfl : k = 0 := Nat.cast_eq_zero.1 hk
  -- a round makes a node
  have hsize : ((nestedBrackets 0).hideNested ['b'] innermost ['#'] [] none none).tree.size =
      2 := by cbv
  rw [hrounds.eq_of_zero] at hsize
  exact absurd hsize (by decide)

end GlyphTree.Tree
