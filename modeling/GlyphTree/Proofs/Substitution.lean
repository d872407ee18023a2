import GlyphTree.Proofs.Resolved
import GlyphTree.Proofs.Runs
import GlyphTree.Proofs.Transparency

/-!
# Replaced runs

What it means to replace a text from left to right (`Text.Substitutes`), and that a replacement in a
tree is one in each literal run of each target (`Reachable.replaceAll_runs`). The signs between the
runs stay, even if what is put in looks like one.
-/

namespace GlyphTree

namespace Text

variable {old new : Text}

/-- `Substitutes old new u v n`: `v` is `u` with `new` in place of `old`, from left to right without
overlap, `n` times. Each time it is the leftmost occurrence that goes. -/
inductive Substitutes (old new : Text) : Text → Text → Nat → Prop
  | none {u : Text} : ¬ old <:+: u → Substitutes old new u u 0
  | next {a b v : Text} {n : Nat} :
    (∀ l r, l ++ old ++ r = a ++ old ++ b → a.length ≤ l.length) → Substitutes old new b v n →
      Substitutes old new (a ++ old ++ b) (a ++ new ++ v) (n + 1)

/-- A text that occurs has a leftmost occurrence. -/
theorem exists_leftmost {u : Text} (h : old <:+: u) :
    ∃ a b, u = a ++ old ++ b ∧ ∀ l r, l ++ old ++ r = u → a.length ≤ l.length := by
  classical
  have hex : ∃ k, ∃ a b, a ++ old ++ b = u ∧ a.length = k := by
    obtain ⟨a, b, hab⟩ := h
    exact ⟨_, a, b, hab, rfl⟩
  obtain ⟨a, b, hab, hk⟩ := Nat.find_spec hex
  exact ⟨a, b, hab.symm, fun l r hlr => hk ▸ Nat.find_min' hex ⟨l, r, hlr, rfl⟩⟩

/-- Every text can be substituted in. -/
theorem exists_substitutes (hold : old ≠ []) (new u : Text) :
    ∃ v n, Substitutes old new u v n := by
  induction hn : u.length using Nat.strong_induction_on generalizing u with
  | _ k ih =>
    by_cases h : old <:+: u
    · obtain ⟨a, b, rfl, hfirst⟩ := exists_leftmost h
      have hlt : b.length < k := by
        have := List.length_pos_iff.2 hold
        simp only [List.length_append] at hn
        omega
      obtain ⟨v, n, hv⟩ := ih _ hlt b rfl
      exact ⟨_, _, .next hfirst hv⟩
    · exact ⟨u, 0, .none h⟩

/-! ## Occurrences -/

theorem occurrencesFrom_skip (pat u v : Text) (o : Nat) :
    occurrencesFrom pat u.length o (u ++ v) = occurrencesFrom pat 0 (o + u.byteSize) v := by
  induction u generalizing o with
  | nil => rfl
  | cons c u ih => simp [occurrencesFrom, ih, Nat.add_assoc]

/-- No occurrence is found before the leftmost one. -/
theorem occurrencesFrom_leftmost (hold : old ≠ []) {a b : Text}
    (h : ∀ l r, l ++ old ++ r = a ++ old ++ b → a.length ≤ l.length) (o : Nat) :
    occurrencesFrom old 0 o (a ++ old ++ b) =
      (o + a.byteSize) :: occurrencesFrom old 0 (o + a.byteSize + old.byteSize) b := by
  induction a generalizing o with
  | nil =>
    obtain ⟨c, cs, rfl⟩ := List.exists_cons_of_ne_nil hold
    have hhere : (dropPrefix? (c :: cs) (c :: (cs ++ b))).isSome :=
      Option.isSome_iff_exists.2 ⟨b, dropPrefix?_eq_some_iff.2 rfl⟩
    simp only [List.nil_append, List.cons_append, occurrencesFrom, hhere, if_true]
    simpa [Nat.add_assoc] using occurrencesFrom_skip (c :: cs) cs b (o + c.utf8Size)
  | cons c a ih =>
    have hnot : ¬ (dropPrefix? old (c :: (a ++ old ++ b))).isSome := fun hs => by
      obtain ⟨r, hr⟩ := Option.isSome_iff_exists.1 hs
      have := h [] r (dropPrefix?_eq_some_iff.1 hr).symm
      simp at this
    have hrest : ∀ l r, l ++ old ++ r = a ++ old ++ b → a.length ≤ l.length := fun l r hlr =>
      Nat.le_of_succ_le_succ (h (c :: l) r (congrArg (c :: ·) hlr))
    simp only [List.cons_append, occurrencesFrom, hnot, if_true, ih hrest]
    simp [Nat.add_assoc]

theorem occurrencesFrom_eq_nil {u : Text} (h : ¬ old <:+: u) (o : Nat) :
    occurrencesFrom old 0 o u = [] := by
  induction u generalizing o with
  | nil => rfl
  | cons c u ih =>
    have hnot : ¬ (dropPrefix? old (c :: u)).isSome := fun hs => by
      obtain ⟨r, hr⟩ := Option.isSome_iff_exists.1 hs
      exact h ⟨[], r, (dropPrefix?_eq_some_iff.1 hr).symm⟩
    have hrest : ¬ old <:+: u := fun hu => h (hu.trans (List.suffix_cons c u).isInfix)
    simp only [occurrencesFrom, hnot, if_true]
    exact ih hrest _

theorem occurrencesFrom_add (pat u : Text) (k o n : Nat) :
    occurrencesFrom pat k (o + n) u = (occurrencesFrom pat k o u).map (n + ·) := by
  induction u generalizing k o with
  | nil => rfl
  | cons c u ih =>
    simp only [occurrencesFrom, Nat.add_right_comm o n, ih]
    split
    · split
      · simp [Nat.add_comm]
      · rfl
    · rfl

theorem occurrences_leftmost (hold : old ≠ []) {a b : Text}
    (h : ∀ l r, l ++ old ++ r = a ++ old ++ b → a.length ≤ l.length) :
    occurrences old (a ++ old ++ b) =
      a.byteSize :: (occurrences old b).map (a.byteSize + old.byteSize + ·) := by
  rw [occurrences, occurrencesFrom_leftmost hold h, Nat.zero_add, ← Nat.zero_add (_ + _),
    occurrencesFrom_add, Nat.zero_add]
  rfl

/-- As many times as there are occurrences. -/
theorem Substitutes.count {u v : Text} {n : Nat} (hold : old ≠ []) (h : Substitutes old new u v n) :
    n = (occurrences old u).length := by
  induction h with
  | none h => rw [occurrences, occurrencesFrom_eq_nil h]; rfl
  | next hfirst _ ih => rw [occurrences_leftmost hold hfirst, ih]; simp

end Text

/-! ## Cells -/

namespace Cells

open Patch

variable {old new u v : Text} {n : Nat} {cs ds : Cells} {A B : Stretch}

/-- `A` is the cells `cs` with patches that put `new` in place of `old` in each run on its own. -/
structure Substituted (old new : Text) (cs : Cells) (A : Stretch) : Prop where
  old_eq : A.old = cs
  edits : ∀ o, A.edits o = replacing old new o [] cs
  patches : ∀ y ∈ A.patches, y.gone = plain old ∧ y.new = plain new
  runs : List.Forall₂ (fun run run' =>
    Text.Substitutes old new run run' (Text.occurrences old run).length) cs.runs A.new.runs
  signs : A.new.signs = cs.signs

theorem replacing_plain (o : Nat) (u : Text) :
    replacing old new o [] (plain u) = found old new o u := by
  suffices h : ∀ w, replacing old new o w (plain u) = found old new o (w ++ u) from h []
  induction u with
  | nil => simp [replacing, plain]
  | cons c u ih => simpa [replacing, plain] using fun w => ih (w ++ [c])

/-- A run can be patched to what it is to become. -/
theorem exists_patched (hold : old ≠ []) (h : Text.Substitutes old new u v n) :
    ∃ A : Stretch, A.old = plain u ∧ A.new = plain v ∧ (∀ o, A.edits o = found old new o u) ∧
      ∀ y ∈ A.patches, y.gone = plain old ∧ y.new = plain new := by
  induction h with
  | @none u h =>
    refine ⟨⟨[], plain u⟩, rfl, rfl, fun o => ?_, fun y hy => absurd hy (List.not_mem_nil)⟩
    rw [found, Text.occurrences, Text.occurrencesFrom_eq_nil h]
    rfl
  | @next a b v n hfirst _ ih =>
    obtain ⟨A, hA, hA', he, hp⟩ := ih
    refine ⟨A.cons ⟨plain a, plain old, plain new⟩, ?_, ?_, fun o => ?_, ?_⟩
    · rw [Stretch.old_cons, hA]
      simp
    · rw [Stretch.new_cons, hA']
      simp
    · rw [Stretch.edits_cons, he, found, found, Text.occurrences_leftmost hold hfirst]
      simp [Function.comp_def, Nat.add_assoc]
    · exact List.forall_mem_cons.2 ⟨⟨rfl, rfl⟩, hp⟩

theorem exists_substituted_plain (hold : old ≠ []) (new u : Text) :
    ∃ A, Substituted old new (plain u) A := by
  obtain ⟨v, n, hv⟩ := Text.exists_substitutes hold new u
  obtain ⟨A, hA, hA', he, hp⟩ := exists_patched hold hv
  refine ⟨A, hA, fun o => (he o).trans (replacing_plain o u).symm, hp, ?_, ?_⟩
  · rw [hA', runs_plain, runs_plain]
    exact .cons (hv.count hold ▸ hv) .nil
  · rw [hA', signs_plain, signs_plain]

/-- A mark parts what is substituted on its two sides. -/
theorem Substituted.join (hA : Substituted old new cs A) (hB : Substituted old new ds B)
    (ch : Char) (m : CellMark) :
    Substituted old new (cs ++ ⟨ch, some m⟩ :: ds) (A.join ⟨ch, some m⟩ B) where
  old_eq := by rw [Stretch.old_join, hA.old_eq, hB.old_eq]
  edits o := by
    rw [Stretch.edits_join, hA.edits, hB.edits, hA.old_eq, replacing_mark]
    rfl
  patches := (Stretch.forall_patches_join (P := fun gone out => gone = plain old ∧ out = plain new)).2
    ⟨hA.patches, hB.patches⟩
  runs := by
    rw [Stretch.new_join, runs_mark, runs_mark]
    exact List.rel_append hA.runs hB.runs
  signs := by simp [hA.signs, hB.signs]

/-- In all cells each run can be substituted in on its own. -/
theorem exists_substituted (hold : old ≠ []) (new : Text) (cs : Cells) :
    ∃ A, Substituted old new cs A := by
  induction cs using induct_runs with
  | plain u => exact exists_substituted_plain hold new u
  | mark u ch m cs ih =>
    obtain ⟨A, hA⟩ := exists_substituted_plain hold new u
    obtain ⟨B, hB⟩ := ih
    exact ⟨_, hA.join hB ch m⟩

theorem Substituted.literal (h : Substituted old new cs A) (hold : old ≠ []) : A.Literal :=
  fun y hy => by
    obtain ⟨hgone, hnew⟩ := h.patches y hy
    refine ⟨?_, ?_, ?_⟩
    · rw [hgone, text_plain]
    · rw [hgone, size_plain]
      exact Text.byteSize_pos hold
    · rw [hnew, text_plain]

theorem replacement_of_mem {e : Edit} {o : Nat} (he : e ∈ replacing old new o [] cs) :
    e.replacement = new := by
  induction cs using induct_runs generalizing o with
  | plain u =>
    rw [replacing_plain] at he
    obtain ⟨i, -, rfl⟩ := List.mem_map.1 he
    rfl
  | mark u ch m cs ih =>
    rw [replacing_mark, replacing_plain, List.mem_append] at he
    rcases he with he | he
    · obtain ⟨i, -, rfl⟩ := List.mem_map.1 he
      rfl
    · exact ih he

/-- There are as many edits as there are occurrences in the runs. -/
theorem length_replacing (o : Nat) (cs : Cells) : (replacing old new o [] cs).length =
    (cs.runs.map fun run => (Text.occurrences old run).length).sum := by
  induction cs using induct_runs generalizing o with
  | plain u => simp [replacing_plain, found]
  | mark u ch m cs ih => simp [replacing_mark, replacing_plain, found, ih]

end Cells

namespace Tree

open Cells Text

variable {t t' : Tree} {p : NodeId} {cs : Cells} {old new : Text}

/-- In the text of a node one text is replaced by another in each run on its own, and the signs
between the runs stay. The edits do that, and none of them touches a sign. -/
structure RunsReplaced (old new : Text) (p : NodeId) (t t' : Tree) : Prop where
  children : t'.children p = t.children p
  signs : t'.signs p = t.signs p
  runs : List.Forall₂ (fun run run' => Substitutes old new run run' (occurrences old run).length)
    (t.runs p) (t'.runs p)
  text_before : (t.node p).text = alternate (t.runs p) ((t.signs p).map Prod.snd)
  text_after : (t'.node p).text = alternate (t'.runs p) ((t'.signs p).map Prod.snd)
  edited : (t'.node p).text = applyEdits (t.node p).text (t.replacingEdits old new p)
  apart : ∀ e ∈ t.replacingEdits old new p, (t.node p).text.slice e.range = old ∧
    e.replacement = new ∧ ∀ x ∈ t.ownedAtoms p, e.range.overlaps x.1 = false

/-- A piece without a mark touches no atom. -/
theorem Layout.apart {a b : Cells} (h : Layout t p (a ++ plain old ++ b)) (x : Span × NodeId)
    (hx : x ∈ t.ownedAtoms p) : Span.overlaps ⟨a.size, a.size + old.byteSize⟩ x.1 = false := by
  rw [h.ownedAtoms_eq, marks_append, marks_append, marks_plain, List.append_nil] at hx
  simp only [Span.overlaps, Bool.and_eq_false_iff, decide_eq_false_iff_not]
  rcases List.mem_append.1 hx with hx | hx
  · have := mem_marks hx
    omega
  · have := mem_marks hx
    simp only [size_append, size_plain] at this
    omega

/-- What the edits of a target do to its runs. -/
theorem Replaced.runsReplaced {es : NodeId → List Edit} (hr : Replaced t t' es)
    (hl : Layout t p cs) (hold : old ≠ []) (he : es p = t.replacingEdits old new p) :
    RunsReplaced old new p t t' := by
  obtain ⟨A, hA⟩ := exists_substituted hold new cs
  obtain rfl := hA.old_eq
  have hedits : t.replacingEdits old new p = A.edits 0 := by
    rw [hl.replacingEdits_eq, hA.edits]
  have hl' : Layout t' p A.new := hr.layout hl (he.trans hedits) (hA.literal hold)
  refine ⟨hr.children p, ?_, ?_, hl.text_eq_alternate, hl'.text_eq_alternate, ?_, fun e hmem => ?_⟩
  · rw [hl'.signs_eq, hl.signs_eq, hA.signs]
  · rw [hl'.runs_eq, hl.runs_eq]
    exact hA.runs
  · rw [hr.text, he]
  · rw [hedits] at hmem
    obtain ⟨y, hy, a, b, hab, hrange⟩ := Stretch.exists_of_mem_edits hmem
    obtain ⟨hgone, -⟩ := hA.patches y hy
    rw [hgone] at hab hrange
    rw [Nat.zero_add, size_plain] at hrange
    rw [hab] at hl
    refine ⟨?_, replacement_of_mem (hA.edits 0 ▸ hmem), fun x hx => hrange ▸ hl.apart x hx⟩
    have := Text.slice_middle a.text old b.text
    rw [hl.text, hrange, text_append, text_append, text_plain]
    exact this

/-- To replace a text in the targets is to replace it in each of their runs from left to right. The
glyphs and markers between the runs stay with the children they stand for, and so do the texts of all
other nodes. The answer is the number of occurrences in all runs. -/
theorem Reachable.replaceAll_runs (h : Reachable t) (hold : old ≠ []) (new target : Text) :
    let replaced := t.replaceAll old new target
    (∀ p ∈ t.targets target, RunsReplaced old new p t replaced.tree) ∧
      (∀ p, p ∉ t.targets target → (replaced.tree.node p).text = (t.node p).text) ∧
      replaced.result = .ok ((t.targets target).map fun p =>
        ((t.runs p).map fun run => (occurrences old run).length).sum).sum := by
  intro replaced
  have hw := h.wellFormed
  have hlt : ∀ p ∈ t.targets target, p < t.size := fun p => hw.shaped.mem_targets
  obtain ⟨htree, hresult⟩ := replaceAll_eq t old new target
  rw [replaceIn_of_ne hold] at htree hresult
  obtain ⟨hr, hcount⟩ : Replaced t _ (t.editsIn old new _) ∧ _ :=
    hw.replaced hold hlt (hw.shaped.nodup_targets target)
  rw [← htree] at hr
  refine ⟨fun p hp => ?_, fun p hp => ?_, hresult.trans (congrArg Except.ok (hcount.trans ?_))⟩
  · obtain ⟨cs, hl⟩ := hw.shaped.layout p (hlt p hp)
    exact hr.runsReplaced hl hold (editsIn_of_mem hp)
  · rw [hr.text, editsIn_of_not_mem hp, applyEdits_nil]
  · refine congrArg List.sum (List.map_congr_left fun p hp => ?_)
    obtain ⟨cs, hl⟩ := hw.shaped.layout p (hlt p hp)
    rw [editsIn_of_mem hp, hl.replacingEdits_eq, hl.runs_eq, length_replacing]

/-- A hidden part with an unfolded part in it. -/
def unfoldedWithin : Tree := (hiddenWithin.perform (.unfold 2 ['<'] ['>'])).tree

theorem reachable_unfoldedWithin : Reachable unfoldedWithin := reachable_hiddenWithin.step trivial

set_option maxRecDepth 20000 in
/-- What is put in looks like an opening marker and like a glyph. -/
theorem replaceAll_runs_unfoldedWithin :
    let replaced := unfoldedWithin.replaceAll ['y'] ['<', '#'] ['k']
    Reachable unfoldedWithin ∧ unfoldedWithin.targets ['k'] = [1] ∧
      unfoldedWithin.runs 1 = [[], ['x', 'y'], ['y']] ∧
      unfoldedWithin.signs 1 = [(2, ['<']), (2, ['>'])] ∧
      RunsReplaced ['y'] ['<', '#'] 1 unfoldedWithin replaced.tree ∧
      replaced.tree.runs 1 = [[], ['x', '<', '#'], ['<', '#']] ∧
      (replaced.tree.node 0).text = ['a', '#', 'b'] ∧ replaced.result = .ok 2 := by
  intro replaced
  have hold : ['y'] ≠ [] := by decide
  -- all that is to be computed, at once, since each run of `cbv` makes the tree anew
  obtain ⟨htargets, hroot, hsum, hruns, hsigns, hruns'⟩ :
      unfoldedWithin.targets ['k'] = [1] ∧ (unfoldedWithin.node 0).text = ['a', '#', 'b'] ∧
      ((unfoldedWithin.targets ['k']).map fun p =>
        ((unfoldedWithin.runs p).map fun run => (occurrences ['y'] run).length).sum).sum = 2 ∧
      unfoldedWithin.runs 1 = [[], ['x', 'y'], ['y']] ∧
      unfoldedWithin.signs 1 = [(2, ['<']), (2, ['>'])] ∧
      (unfoldedWithin.replaceAll ['y'] ['<', '#'] ['k']).tree.runs 1 =
        [[], ['x', '<', '#'], ['<', '#']] := by
    cbv
  have hmem : 1 ∈ unfoldedWithin.targets ['k'] := by rw [htargets]; decide
  have hnot : 0 ∉ unfoldedWithin.targets ['k'] := by rw [htargets]; decide
  obtain ⟨hin, hout, hcount⟩ :=
    Reachable.replaceAll_runs reachable_unfoldedWithin hold ['<', '#'] ['k']
  exact ⟨reachable_unfoldedWithin, htargets, hruns, hsigns, hin 1 hmem, hruns',
    (hout 0 hnot).trans hroot, hcount.trans (congrArg Except.ok hsum)⟩

end Tree

end GlyphTree
