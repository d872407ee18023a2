import GlyphTree.Proofs.Inversion
import GlyphTree.Proofs.Replacing

/-!
# Bodies

The groups of a node lie in its body: in its own text, or while it is unfolded between its markers in
the text of its parent. Each change of a tree takes the body of a node along as it is, wherever the
text around it goes, or patches it, and the groups follow (`Carried`). No marker of a node is edited
while the node is not folded back itself, so what is patched on one side of a marker does not depend
on the other (`Stretch.exists_unfolded`).
-/

namespace GlyphTree

open Cells Patch

theorem Span.shiftUp_zero (s : Span) : s.shiftUp 0 = s := rfl

theorem remapSpan_nil {s : Span} (h : s.start ≤ s.stop) : remapSpan s [] = s := by
  simp [remapSpan, remapStart_nil, remapEnd_nil, Nat.max_eq_left h]

namespace Stretch

variable {id : NodeId} {F : Fold} {A B C M : Stretch} {s : Span} {x : Cell} {a b d : Cells}
  {off : Nat} {e : Edit}

/-! ## Parts of a text -/

/-- The text of a node one of whose children is unfolded, in three parts. -/
def unfolded (id : NodeId) (F : Fold) (A B C : Stretch) : Stretch :=
  (A.join ⟨F.opening, some (.opening id)⟩ B).join ⟨F.closing, some (.closing id)⟩ C

@[simp] theorem old_unfolded :
    (unfolded id F A B C).old = Tree.unfoldedCells id F A.old B.old C.old := by
  rw [unfolded, old_join, old_join]
  rfl

@[simp] theorem new_unfolded :
    (unfolded id F A B C).new = Tree.unfoldedCells id F A.new B.new C.new := by
  rw [unfolded, new_join, new_join]
  rfl

theorem applyEdits_edits (A : Stretch) : applyEdits A.old.text (A.edits 0) = A.new.text :=
  Patch.applyEdits_edits ..

/-- The cells that go. -/
def gone (A : Stretch) : List Cells := A.patches.map Patch.gone

theorem gone_cons (p : Patch) (A : Stretch) : (cons p A).gone = p.gone :: A.gone := rfl

theorem gone_prepend (d : Cells) (A : Stretch) : (A.prepend d).gone = A.gone := by
  induction A <;> rfl

theorem gone_join (A : Stretch) (x : Cell) (B : Stretch) :
    (A.join x B).gone = A.gone ++ B.gone := by
  induction A with
  | nil z => exact gone_prepend _ B
  | cons p A ih => rw [join_cons, gone_cons, ih, gone_cons, List.cons_append]

theorem mem_patches_prepend {y : Patch} (hy : y ∈ (A.prepend d).patches) :
    ∃ y' ∈ A.patches, y.gone = y'.gone ∧ y.new = y'.new := by
  induction A with
  | nil z => cases hy
  | cons p A _ =>
    rcases List.mem_cons.1 hy with rfl | hy
    · exact ⟨p, List.mem_cons_self, rfl, rfl⟩
    · exact ⟨y, List.mem_cons_of_mem _ hy, rfl, rfl⟩

/-- Where an element of two lists put together is. -/
theorem append_eq_cons_cases {α : Type} {l r a d : List α} {x : α} (h : l ++ r = a ++ x :: d) :
    (∃ u, l = a ++ x :: u ∧ d = u ++ r) ∨ ∃ u, a = l ++ u ∧ r = u ++ x :: d := by
  rcases List.append_eq_append_iff.1 h with ⟨u, rfl, hu⟩ | ⟨u, rfl, hu⟩
  · exact .inr ⟨u, rfl, hu⟩
  · cases u with
    | nil => exact .inr ⟨[], by simp, hu.symm⟩
    | cons y u =>
      obtain ⟨rfl, rfl⟩ := List.cons.inj hu
      exact .inl ⟨u, rfl, rfl⟩

/-- A cell that stays parts the patches. -/
theorem exists_join (h : M.old = a ++ x :: d) (hx : ∀ g ∈ M.gone, x ∉ g) :
    ∃ A D : Stretch, M = A.join x D ∧ A.old = a ∧ D.old = d := by
  induction M generalizing a with
  | nil z =>
    obtain rfl : z = a ++ x :: d := h
    exact ⟨⟨[], a⟩, ⟨[], d⟩, by simp, rfl, rfl⟩
  | cons p M ih =>
    rw [gone_cons, List.forall_mem_cons] at hx
    rw [old_cons, List.append_assoc] at h
    rcases append_eq_cons_cases h with ⟨u, hkept, rfl⟩ | ⟨u, rfl, hu⟩
    · refine ⟨⟨[], a⟩, cons ⟨u, p.gone, p.new⟩ M, ?_, rfl, List.append_assoc ..⟩
      rw [join_nil, prepend_cons, List.append_assoc, List.singleton_append, ← hkept]
    · rcases append_eq_cons_cases hu with ⟨v, hgone, -⟩ | ⟨v, rfl, hv⟩
      · exact absurd (hgone ▸ List.mem_append_right _ (List.mem_cons_self ..)) hx.1
      · obtain ⟨A, D, rfl, rfl, rfl⟩ := ih hv hx.2
        exact ⟨cons p A, D, rfl, List.append_assoc .., rfl⟩

/-- An unfolded child whose markers stay parts the patches in three. -/
theorem exists_unfolded (h : M.old = Tree.unfoldedCells id F a b d)
    (hx : ∀ g ∈ M.gone, id ∉ Cells.ids g) :
    ∃ A B D, M = unfolded id F A B D ∧ A.old = a ∧ B.old = b ∧ D.old = d := by
  have hmark : ∀ {ch m}, CellMark.id m = id → ∀ g ∈ M.gone, (⟨ch, some m⟩ : Cell) ∉ g :=
    fun hm g hg hmem => hx g hg (List.mem_filterMap.2 ⟨_, hmem, congrArg some hm⟩)
  obtain ⟨P, D, rfl, hP, rfl⟩ := exists_join h (hmark (m := .closing id) rfl)
  obtain ⟨A, B, rfl, rfl, rfl⟩ := exists_join hP fun g hg =>
    hmark (m := .opening id) rfl g (gone_join .. ▸ List.mem_append_left _ hg)
  exact ⟨A, B, D, rfl, rfl, rfl, rfl⟩

/-- A stretch of the body of a node, in a text in which the body starts at byte `off`. -/
inductive Part (M : Stretch) : Nat → Stretch → Prop
  | whole : Part M 0 M
  | between (id : NodeId) (F : Fold) (A B D : Stretch) (h : M = unfolded id F A B D) :
    Part M (A.old.size + F.opening.utf8Size) B

theorem mem_edits_of_part (h : Part M off B) (he : e ∈ B.edits off) : e ∈ M.edits 0 := by
  cases h with
  | whole => exact he
  | between id F A B D h =>
    rw [h, unfolded, edits_join, edits_join, Nat.zero_add]
    exact List.mem_append_left _ (List.mem_append_right _ he)

variable (id F A C) in
/-- A span of the body goes the same way inside of the region and on its own. -/
theorem remapSpan_body (h : B.old.text.Holds s) :
    remapSpan (s.shiftUp (A.old.size + F.opening.utf8Size)) ((unfolded id F A B C).edits 0) =
      (remapSpan s (B.edits 0)).shiftUp (A.new.size + F.opening.utf8Size) := by
  have hinner : ∀ {n}, B.old.text.Boundary 0 n →
      remapStart (n + (A.old.size + F.opening.utf8Size)) ((unfolded id F A B C).edits 0) =
          remapStart n (B.edits 0) + (A.new.size + F.opening.utf8Size) ∧
        remapEnd (n + (A.old.size + F.opening.utf8Size)) ((unfolded id F A B C).edits 0) =
          remapEnd n (B.edits 0) + (A.new.size + F.opening.utf8Size) := by
    intro n hn
    have hle : n ≤ B.old.size := by simpa [Cells.size] using hn.le
    have hin : A.old.size + F.opening.utf8Size + n ≤
        (A.join ⟨F.opening, some (.opening id)⟩ B).old.size := by
      rw [old_join, size_append, size_cons]
      dsimp only
      omega
    obtain ⟨h1, h2⟩ := remap_left ⟨F.closing, some (.closing id)⟩ C hin
    obtain ⟨h3, h4⟩ := remap_right A ⟨F.opening, some (.opening id)⟩ B n
    rw [Nat.add_comm n, unfolded, h1, h2, h3, h4]
    exact ⟨Nat.add_comm _ _, Nat.add_comm _ _⟩
  simp only [remapSpan, Span.shiftUp, (hinner h.2.1).1, (hinner h.2.2).2, Nat.add_max_add_right]

end Stretch

namespace Tree

variable {t t' : Tree} {p q x id : NodeId} {n : Node} {a b c d : Cells} {F : Fold}

theorem place_moved {s : Span} (h : n.place = some ⟨q, s⟩) (off : Nat) :
    (moved p 0 off n).place = some ⟨p, s.shiftUp off⟩ := by
  rw [moved, h]
  rfl

section
variable (hn : n.isUnfolded = false)
include hn

theorem groups_moved (sub add : Nat) : (moved p sub add n).groups = n.groups := by
  simp [moved, hn]

theorem groups_followEdits (es : List Edit) : (followEdits es n).groups = n.groups := by
  rw [followEdits_of_folded hn]

end

/-! ## Bodies of nodes -/

theorem append_inj_of_size {a b c d : Cells} (h : a ++ c = b ++ d) (hs : a.size = b.size) :
    a = b ∧ c = d := by
  rcases List.append_eq_append_iff.1 h with ⟨u, rfl, rfl⟩ | ⟨u, rfl, rfl⟩
  all_goals
    obtain rfl : u = [] := by
      cases u with
      | nil => rfl
      | cons x u =>
        have hx := x.char.utf8Size_pos
        rw [size_append, size_cons] at hs
        omega
    simp

/-- An unfolded node stands in one way at most. -/
theorem Layout.unfolded_unique {q' : NodeId} {a' b' c' : Cells}
    (h : Layout t q (unfoldedCells x F a b c)) (h' : Layout t q' (unfoldedCells x F a' b' c')) :
    q = q' ∧ a = a' ∧ b = b' ∧ c = c' := by
  have hplace := h.place_of_unfolded.symm.trans h'.place_of_unfolded
  simp only [Option.some.injEq, Place.mk.injEq, Span.mk.injEq] at hplace
  obtain ⟨rfl, hsize, hstop⟩ := hplace
  have hcells := h.unique h'
  simp only [unfoldedCells, List.append_assoc, List.cons_append] at hcells
  obtain ⟨rfl, hrest⟩ := append_inj_of_size hcells hsize
  obtain ⟨rfl, hc⟩ := append_inj_of_size (List.cons.inj hrest).2 (by omega)
  exact ⟨rfl, rfl, rfl, (List.cons.inj hc).2⟩

/-- The body of `x` is `b`, at byte `off` of the text of `q`. -/
inductive Body (t : Tree) (x : NodeId) : NodeId → Nat → Cells → Prop
  | own {b : Cells} : (t.node x).fold = none → Layout t x b → Body t x x 0 b
  | lent {q : NodeId} {F : Fold} {a b d : Cells} : (t.node x).fold = some F →
    Layout t q (unfoldedCells x F a b d) → Body t x q (a.size + F.opening.utf8Size) b

/-- The groups of `x` lie in its body. -/
structure Seated (t : Tree) (x q : NodeId) (off : Nat) (b : Cells) : Prop where
  body : Body t x q off b
  groups : ∀ s, (t.node x).Records s → ∃ r, b.text.Holds r ∧ s = r.shiftUp off

/-- The body of `x`, which was at byte `off` of a text, has been patched and is at byte `off'` of the
text of `q'`. The groups have followed. -/
structure Carried (t t' : Tree) (x : NodeId) (off : Nat) (B : Stretch) (q' : NodeId) (off' : Nat) :
    Prop where
  body : Body t' x q' off' B.new
  groups : (t'.node x).groups = ((t.node x).mapGroups fun s =>
    some ((remapSpan (s.shiftDown off) (B.edits 0)).shiftUp off')).groups

section
variable {off off' : Nat} {B M : Stretch} {q' : NodeId}

theorem Body.unique {b b' : Cells} (h : Body t x q off b) (h' : Body t x q' off' b') :
    q = q' ∧ off = off' ∧ b = b' := by
  cases h with
  | own hf hl =>
    cases h' with
    | own _ hl' => exact ⟨rfl, rfl, hl.unique hl'⟩
    | lent hf' => cases hf.symm.trans hf'
  | lent hf hl =>
    cases h' with
    | own hf' => cases hf.symm.trans hf'
    | lent hf' hl' =>
      obtain rfl := Option.some.inj (hf.symm.trans hf')
      obtain ⟨rfl, rfl, rfl, -⟩ := hl.unfolded_unique hl'
      exact ⟨rfl, rfl, rfl⟩

/-- The text of an unfolded node is empty. -/
theorem Shaped.fold_of_layout {cs : Cells} (hs : Shaped t) (h : Layout t p cs) (hne : cs ≠ []) :
    (t.node p).fold = none := by
  cases hf : (t.node p).fold with
  | none => rfl
  | some F => exact absurd (h.unique (hs.hollow p (Node.isUnfolded_of_some hf))) hne

theorem Body.own_or_lent (h : Body t x q off b) :
    x < t.size ∧ ((t.node x).isUnfolded = false ∧ x = q ∨
      (t.node x).isUnfolded = true ∧ x ∈ t.children q) := by
  cases h with
  | own hf hl => exact ⟨hl.lt, .inl ⟨Node.isUnfolded_of_none hf, rfl⟩⟩
  | lent hf hl =>
    have hx : x ∈ t.children q := by rw [hl.children]; simp [unfoldedCells]
    exact ⟨hl.lt_size hx, .inr ⟨Node.isUnfolded_of_some hf, hx⟩⟩

/-- A node has a body, unless it is unfolded and no list of children holds it. -/
theorem Shaped.exists_body (hs : Shaped t) (hx : x < t.size)
    (hl : (t.node x).isUnfolded = true → ∃ p, x ∈ t.children p) : ∃ q off b, Body t x q off b := by
  cases hf : (t.node x).fold with
  | none =>
    obtain ⟨b, hb⟩ := hs.layout x hx
    exact ⟨x, 0, b, .own hf hb⟩
  | some F =>
    obtain ⟨p, hp⟩ := hl (Node.isUnfolded_of_some hf)
    obtain ⟨cs, hcs⟩ := hs.exists_layout hp
    obtain ⟨a, b, c, rfl⟩ := hcs.exists_unfolded hp hf
    exact ⟨p, _, b, .lent hf hcs⟩

theorem Seated.carried (h : Seated t x q off B.old) (c : Carried t t' x off B q' off') :
    Seated t' x q' off' B.new := by
  refine ⟨c.body, fun s hs => ?_⟩
  rw [Node.Records, c.groups] at hs
  obtain ⟨s', hs', he⟩ := Node.records_mapGroups.1 hs
  obtain ⟨r, hr, rfl⟩ := h.groups s' hs'
  rw [Span.shiftDown_shiftUp] at he
  exact ⟨_, holds_remapSpan hr, (Option.some.inj he).symm⟩

/-- It is enough to say where spans of the body go. -/
theorem Seated.carried_of_groups (h : Seated t x q off B.old) (hb : Body t' x q' off' B.new)
    {f : Span → Option Span} (hg : (t'.node x).groups = ((t.node x).mapGroups f).groups)
    (hf : ∀ r, B.old.text.Holds r →
      f (r.shiftUp off) = some ((remapSpan r (B.edits 0)).shiftUp off')) :
    Carried t t' x off B q' off' := by
  refine ⟨hb, hg.trans ?_⟩
  have hsome : (t.node x).groups = ((t.node x).mapGroups some).groups := by
    rw [Node.mapGroups_some]
  refine Node.mapGroups_congr hsome hsome fun s hs => ?_
  obtain ⟨r, hr, rfl⟩ := h.groups s hs
  rw [Option.bind_some, Option.bind_some, hf r hr, Span.shiftDown_shiftUp]

/-- A body that is not patched. -/
theorem Seated.carried_along {b : Cells} (h : Seated t x q off b) (hb : Body t' x q' off' b)
    {f : Span → Option Span} (hg : (t'.node x).groups = ((t.node x).mapGroups f).groups)
    (hf : ∀ r, b.text.Holds r → f (r.shiftUp off) = some (r.shiftUp off')) :
    Carried t t' x off ⟨[], b⟩ q' off' :=
  Seated.carried_of_groups (B := ⟨[], b⟩) h hb hg fun r hr => by
    rw [hf r hr]
    exact congrArg (fun s => some (Span.shiftUp s off')) (remapSpan_nil hr.1).symm

/-- A node that has not changed in a text that has not. -/
theorem Seated.carried_same {b : Cells} (h : Seated t x q off b) (hb : Body t' x q off b)
    (hg : (t'.node x).groups = (t.node x).groups) : Carried t t' x off ⟨[], b⟩ q off :=
  h.carried_along hb (f := some) (by rw [hg, Node.mapGroups_some]) fun _ _ => rfl

/-- The body of a node whose own text is patched. -/
theorem Seated.carried_own (h : Seated t x x 0 M.old) (hl : Layout t' x M.new)
    (hf : (t'.node x).fold = none)
    (hg : (t'.node x).groups = (edited (M.edits 0) (t.node x)).groups) :
    Carried t t' x 0 M x 0 :=
  h.carried_of_groups (.own hf hl) hg fun _ _ => rfl

/-- The body of an unfolded node whose markers stay in the text that is patched. -/
theorem Seated.carried_between {b : Cells} (h : Seated t x p off b)
    (hun : (t.node x).isUnfolded = true) (hl : Layout t p M.old) (hl' : Layout t' p M.new)
    (hx : ∀ g ∈ M.gone, x ∉ ids g) (hn : t'.node x = followEdits (M.edits 0) (t.node x)) :
    ∃ B off', B.old = b ∧ Carried t t' x off B p off' ∧ M.Part off B := by
  obtain ⟨hb, hg⟩ := h
  cases hb with
  | own hf => exact absurd (Node.isUnfolded_of_none hf) (by simp [hun])
  | @lent _ F a b d hf hlent =>
    obtain ⟨A, B, D, rfl, rfl, rfl, rfl⟩ := Stretch.exists_unfolded (hl.unique hlent) hx
    rw [Stretch.new_unfolded] at hl'
    have hf' : (t'.node x).fold = some F := by rw [hn, followEdits_fold, hf]
    have hgroups : (t'.node x).groups = ((t.node x).mapGroups
        (some <| remapSpan · ((Stretch.unfolded x F A B D).edits 0))).groups := by
      rw [hn, followEdits_eq]
      simp only [hun, if_true]
    exact ⟨B, _, rfl, Seated.carried_of_groups ⟨.lent hf hlent, hg⟩ (.lent hf' hl') hgroups
      fun r hr => congrArg some (Stretch.remapSpan_body x F A D hr), .between x F A B D rfl⟩

/-- A span at offset `k` of a stretch that moves from `sub` to `add`. -/
theorem movedSpan_shiftUp (sub add k : Nat) (r : Span) :
    movedSpan sub add (r.shiftUp (sub + k)) = some (r.shiftUp (add + k)) := by
  have hle : ∀ n, sub ≤ n + (sub + k) + add := fun n => by omega
  have heq : ∀ n, n + (sub + k) + add - sub = n + (add + k) := fun n => by omega
  refine (if_pos ⟨hle _, hle _⟩).trans ?_
  rw [Span.shiftUp, heq, heq, Span.shiftUp]

/-- The body of an unfolded node that moves to another text with the cells around it. -/
theorem Seated.carried_moved {b l e u v : Cells} (h : Seated t x q off b)
    (hF : (t.node x).fold = some F) (hl : Layout t p (l ++ unfoldedCells x F a c d ++ e))
    (hl' : Layout t' q' (u ++ unfoldedCells x F a c d ++ v))
    (hn : t'.node x = moved q' l.size u.size (t.node x)) :
    ∃ off', Carried t t' x off ⟨[], b⟩ q' off' := by
  have hcells : ∀ l e : Cells, l ++ unfoldedCells x F a c d ++ e =
      unfoldedCells x F (l ++ a) c (d ++ e) := fun l e => by simp [unfoldedCells]
  have hun : (t.node x).isUnfolded = true := Node.isUnfolded_of_some hF
  have hf' : (t'.node x).fold = some F := by rw [hn, moved, hF]
  rw [hcells] at hl hl'
  obtain ⟨rfl, rfl, rfl⟩ := h.body.unique (.lent hF hl)
  refine ⟨_, h.carried_along (.lent hf' hl') (f := movedSpan l.size u.size) ?_ fun r _ => ?_⟩
  · rw [hn, moved, ← moveGroups_of_unfolded hun]
    simp only [hun, if_true]
  · rw [size_append, size_append, Nat.add_assoc, Nat.add_assoc, movedSpan_shiftUp]

end

end Tree

end GlyphTree
