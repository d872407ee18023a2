import GlyphTree.Proofs.Bookkeeping

/-!
# Ignoring

A sweep is a command that takes the wildcard as its target or scope, and so changes just nodes that
are not ignored. A node that is ignored and not unfolded comes out of any number of sweeps as it
went in, except that it may stand elsewhere: a region collapsed beside it shifts it, and one
collapsed around it takes it along (`Initial.untouched_by_sweeps`).
-/

namespace GlyphTree

/-- Whether a command changes what the wildcard selects. -/
def Command.isSweep (config : Config) : Command → Bool
  | .hideAll _ _ _ target | .hideAny _ _ _ target | .hideRest _ _ target
  | .replaceAll _ _ target => config.isWildcard target
  | .hideGroup _ _ _ scope _ | .renameAll _ scope _ => config.isWildcard scope
  | _ => false

theorem Command.keepsBooks_of_isSweep {config : Config} {c : Command} (hc : c.isSweep config = true) :
    c.keepsBooks = true := by
  cases c <;> first | rfl | cases hc

namespace Tree

variable {t t' t'' : Tree} {x p q : NodeId}

/-! ## Nodes left alone -/

/-- A node is the same in two trees but for where it stands. -/
def Untouched (x : NodeId) (t t' : Tree) : Prop :=
  t'.node x = { t.node x with place := (t'.node x).place }

theorem untouched_of_place {place : Option Place} (h : t'.node x = { t.node x with place }) :
    Untouched x t t' := by
  rw [Untouched, h]

theorem untouched_of_eq (h : t'.node x = t.node x) : Untouched x t t' := untouched_of_place h

theorem Untouched.refl (x : NodeId) (t : Tree) : Untouched x t t := rfl

theorem Untouched.trans (h : Untouched x t t') (h' : Untouched x t' t'') : Untouched x t t'' :=
  Eq.trans h' (congrArg (fun n : Node => { n with place := (t''.node x).place }) h)

theorem Untouched.isUnfolded (h : Untouched x t t') :
    (t'.node x).isUnfolded = (t.node x).isUnfolded := by
  rw [h]
  rfl

/-- Steps that each leave a node alone that is not unfolded leave it alone together. -/
theorem untouched_foldl {α : Type} {f : Tree → α → Tree} {l : List α}
    (h : ∀ t, ∀ a ∈ l, (t.node x).isUnfolded = false → Untouched x t (f t a))
    (hx : (t.node x).isUnfolded = false) : Untouched x t (l.foldl f t) := by
  induction l generalizing t with
  | nil => exact .refl x t
  | cons a l ih =>
    have hstep := h t a List.mem_cons_self hx
    exact hstep.trans (ih (fun t b hb => h t b (List.mem_cons_of_mem a hb))
      (hstep.isUnfolded.trans hx))

theorem untouched_modify (hne : x ≠ p) (f : Node → Node) : Untouched x t (t.modify p f) :=
  untouched_of_eq (by rw [node_modify, if_neg fun h => hne h.1])

/-- A node may be moved. -/
theorem untouched_modify_place (t : Tree) (p : NodeId) (f : Option Place → Option Place) :
    Untouched x t (t.modify p fun n => { n with place := f n.place }) := by
  by_cases h : x = p ∧ x < t.size
  · exact untouched_of_place (by rw [node_modify, if_pos h])
  · exact untouched_of_eq (by rw [node_modify, if_neg h])

theorem untouched_putChild (hne : x ≠ p) (child : NodeId) (span : Span) :
    Untouched x t (t.putChild p child span) :=
  (untouched_modify_place t child fun _ => some ⟨p, span⟩).trans (untouched_modify hne _)

section
variable (hx : (t.node x).isUnfolded = false)
include hx

theorem untouched_followEdits (edits : List Edit) (c : NodeId) :
    Untouched x t (t.modify c (followEdits edits)) := by
  by_cases h : x = c ∧ x < t.size
  · have hfollow : followEdits edits (t.node x) = (t.node x).mapSpan (remapSpan · edits) :=
      if_neg (by simpa [Node.isUnfolded, Node.mapSpan] using hx)
    exact untouched_of_place (by rw [node_modify, if_pos h, hfollow]; rfl)
  · exact untouched_of_eq (by rw [node_modify, if_neg h])

/-- Edits of another node's text shift a child at most. -/
theorem untouched_rewrite (hne : x ≠ p) (edits : List Edit) : Untouched x t (t.rewrite p edits) := by
  unfold rewrite
  split
  · exact .refl x t
  · have htext := untouched_modify (t := t) hne fun n => { n with text := applyEdits n.text edits }
    refine htext.trans (.trans (untouched_foldl (fun t c _ ht => ?_) ?_) (untouched_modify hne _))
    · exact untouched_followEdits ht edits c
    · exact htext.isUnfolded.trans hx

theorem untouched_moveChild (hne : x ≠ q) (sub add : Nat) (child : NodeId) :
    Untouched x t (t.moveChild q sub add child) := by
  have hgroups : Untouched x t
      (if (t.node child).isUnfolded then t.modify child (moveGroups sub add) else t) := by
    split
    · rename_i hu
      refine untouched_modify (fun he => ?_) _
      rw [← he, hx] at hu
      cases hu
    · exact .refl x t
  unfold moveChild
  dsimp only
  split
  · exact hgroups.trans (untouched_putChild hne _ _)
  · exact hgroups

/-! ## Collapsing regions -/

theorem untouched_settle (hlt : x < t.size) (hne : x ≠ p) (text : Text) (es : List Edit) {c : Cut}
    (hc : c.isFresh = true) (moved : List NodeId) : Untouched x t (t.settle p text es c moved) := by
  obtain ⟨range, glyph, origin⟩ := c
  cases origin with
  | back => cases hc
  | fresh name groups =>
    -- the node made for the region has a number of its own
    have hmade : ∀ n, Untouched x t (t.alloc n) := fun n =>
      untouched_of_eq (by rw [node_alloc, if_neg hlt.ne])
    refine (hmade _).trans (.trans (untouched_foldl (fun t c _ ht => ?_) ?_) (untouched_putChild hne _ _))
    · exact untouched_moveChild ht hlt.ne _ _ c
    · exact (hmade _).isUnfolded.trans hx

theorem untouched_settleAll (hlt : x < t.size) (hne : x ≠ p) (text : Text) (es : List Edit)
    {cuts : List Cut} (hc : ∀ c ∈ cuts, c.isFresh = true) (kids : List (NodeId × Span)) :
    Untouched x t (settleAll p text es cuts kids t) := by
  induction cuts generalizing t kids with
  | nil => exact .refl x t
  | cons c cuts ih =>
    obtain ⟨hfresh, hcuts⟩ := List.forall_mem_cons.1 hc
    have hstep := untouched_settle hx hlt hne text es hfresh
      ((kids.filter fun k => c.range.encloses k.2).map Prod.fst)
    refine hstep.trans (ih (hstep.isUnfolded.trans hx) ?_ hcuts _)
    exact Nat.lt_of_lt_of_le hlt (grows_settle t p text es c _).size

theorem untouched_splice (hlt : x < t.size) (hne : x ≠ p) {cuts : List Cut}
    (hc : ∀ c ∈ cuts, c.isFresh = true) : Untouched x t (t.splice p cuts) := by
  have hstays : ∀ kids, Untouched x t (t.setChildren p kids) := fun _ => untouched_modify hne _
  have hedited : ∀ kids es, Untouched x t ((t.setChildren p kids).rewrite p es) := fun kids es =>
    (hstays kids).trans (untouched_rewrite ((hstays kids).isUnfolded.trans hx) hne es)
  refine (hedited _ _).trans (untouched_settleAll ((hedited _ _).isUnfolded.trans hx) ?_ hne _ _ hc _)
  rwa [size_rewrite, size_setChildren]

/-- A plan for other nodes leaves a node alone. -/
theorem untouched_applyPlan (hlt : x < t.size) {plan : Plan} (hout : ∀ e ∈ plan, x ≠ e.1)
    (hc : ∀ e ∈ plan, ∀ c ∈ e.2, c.isFresh = true) : Untouched x t (t.applyPlan plan) := by
  induction plan generalizing t with
  | nil => exact .refl x t
  | cons e plan ih =>
    obtain ⟨hne, hout⟩ := List.forall_mem_cons.1 hout
    obtain ⟨hfresh, hc⟩ := List.forall_mem_cons.1 hc
    rw [applyPlan, List.foldl_cons]
    dsimp only
    split
    · exact ih hx hlt hout hc
    · have hcut := untouched_splice hx hlt hne hfresh
      refine hcut.trans (ih (hcut.isUnfolded.trans hx) ?_ hout hc)
      exact Nat.lt_of_lt_of_le hlt (grows_splice t e.1 e.2).size

end

/-! ## Sweeps -/

section
variable {filter : Text} (hig : x ∈ t.ignored) (hw : t.config.isWildcard filter = true)
include hig hw

theorem ne_of_mem_targets (hp : p ∈ t.targets filter) : x ≠ p := by
  rintro rfl
  have htarget := (List.mem_filter.1 hp).2
  rw [isTarget, if_pos hw, isIgnored, List.contains_iff_mem.2 hig] at htarget
  cases htarget

theorem ne_of_inScope (hp : t.inScope filter p = true) : x ≠ p := by
  rintro rfl
  rw [inScope, if_pos hw, isIgnored, List.contains_iff_mem.2 hig] at hp
  cases hp

variable (hx : (t.node x).isUnfolded = false)
include hx

theorem untouched_replaceAll (old new : Text) : Untouched x t (t.replaceAll old new filter).tree := by
  unfold replaceAll
  split
  · exact .refl x t
  · have hne : ∀ id ∈ t.targets filter, x ≠ id := fun id hid => ne_of_mem_targets hig hw hid
    change Untouched x t (replaceEach old new (t.targets filter) t).2
    generalize t.targets filter = ids at hne
    clear hig hw
    induction ids generalizing t with
    | nil => exact .refl x t
    | cons id ids ih =>
      obtain ⟨hid, hids⟩ := List.forall_mem_cons.1 hne
      have hedit := untouched_rewrite hx hid (t.replacingEdits old new id)
      exact hedit.trans (ih (hedit.isUnfolded.trans hx) hids)

theorem untouched_renameAll (newName oldName : Text) :
    Untouched x t (t.renameAll newName filter oldName).2 := by
  refine untouched_foldl (fun u id hid _ => ?_) hx
  have hne := ne_of_inScope hig hw (List.mem_filter.1 hid).2
  exact untouched_of_eq (by rw [node_rename, if_neg fun h => hne h.1])

end

/-- Hides that pass over what is ignored are for other nodes. -/
theorem ne_of_mem_planOf (hig : x ∈ t.ignored) {c : Command} (hc : c.isSweep t.config = true)
    {e : NodeId × List Cut} (he : e ∈ t.planOf c) : x ≠ e.1 := by
  cases c with
  | hideAll | hideAny => exact ne_of_mem_targets hig hc (mem_matchesToHide he).1
  | hideGroup =>
    have hsource := (List.mem_filter.1 (mem_groupToHide he).1).2
    exact ne_of_inScope hig hc (Bool.and_eq_true_iff.1 hsource).2
  | hideRest => exact ne_of_mem_targets hig hc (mem_restToHide he).1
  | _ => cases he

/-- One sweep leaves alone what is ignored and not unfolded. -/
theorem untouched_sweep (hlt : x < t.size) (hig : x ∈ t.ignored)
    (hx : (t.node x).isUnfolded = false) {c : Command} (hc : c.isSweep t.config = true) :
    Untouched x t (t.perform c).tree := by
  have hplan : Untouched x t (t.applyPlan (t.planOf c)) :=
    untouched_applyPlan hx hlt (fun _ he => ne_of_mem_planOf hig hc he) fun _ he _ hcut =>
      Cut.isFresh_iff.2 (origin_of_mem_planOf he hcut)
  cases c with
  | hideAll name pattern label target => exact hideMatches_tree t name pattern label target ▸ hplan
  | hideAny name pattern label target => exact hideMatches_tree t name pattern label target ▸ hplan
  | hideGroup name label group scope source =>
    exact hideGroup_tree t name label group scope source ▸ hplan
  | hideRest name label target => exact hideRest_tree t name label target ▸ hplan
  | replaceAll => exact untouched_replaceAll hig hc hx _ _
  | renameAll => exact untouched_renameAll hig hc hx _ _
  | _ => cases hc

/-- Many sweeps do what each of them does. -/
theorem Registered.after_sweeps (h : Registered t) {sweeps : List Command}
    (hs : ∀ c ∈ sweeps, c.isSweep t.config = true) :
    Grows t (t.after sweeps) ∧ ∀ x ∈ t.ignored, (t.node x).isUnfolded = false →
      Untouched x t (t.after sweeps) := by
  induction sweeps generalizing t with
  | nil => exact ⟨.refl t, fun x _ _ => .refl x t⟩
  | cons c sweeps ih =>
    obtain ⟨hc, hs⟩ := List.forall_mem_cons.1 hs
    have hgrows := h.grows_perform (Command.keepsBooks_of_isSweep hc)
    obtain ⟨hrest, huntouched⟩ := ih (h.grows hgrows) (hgrows.config ▸ hs)
    refine ⟨hgrows.trans hrest, fun x hig hx => ?_⟩
    have hstep := untouched_sweep (h.ignored x hig) hig hx hc
    exact hstep.trans (huntouched x (hgrows.ignored ▸ hig) (hstep.isUnfolded.trans hx))

/-- Whatever led to a tree, sweeps leave each node that is ignored and not unfolded as it was, except
for where it stands, and they ignore none of the nodes they make. -/
theorem Initial.untouched_by_sweeps {t₀ : Tree} (h : Initial t₀) {history sweeps : List Command}
    (ht : t = t₀.after history) (hs : ∀ c ∈ sweeps, c.isSweep t.config = true)
    (ht' : t' = t.after sweeps) :
    (∀ x ∈ t.ignored, (t.node x).isUnfolded = false →
      x < t'.size ∧ t'.node x = { t.node x with place := (t'.node x).place }) ∧
    ∀ y, t.size ≤ y → y ∉ t'.ignored := by
  subst ht ht'
  have hi := h.registered_after history
  obtain ⟨hgrows, huntouched⟩ := hi.after_sweeps hs
  refine ⟨fun x hig hx => ⟨?_, huntouched x hig hx⟩, fun y hy hig => ?_⟩
  · exact Nat.lt_of_lt_of_le (hi.ignored x hig) hgrows.size
  · exact Nat.not_lt.2 hy (hi.ignored y (hgrows.ignored ▸ hig))

/-- A node with a group and a hidden child of its own is ignored. -/
def ignoredOne : Tree :=
  (ofText ['a', 'b', 'c', 'd']).after [.hideAll ['w'] ['(', 'b', ')', 'c'] ['#'] ['*'],
    .hideAll ['i'] ['c'] ['%'] ['w'], .ignoreAll ['w']]

/-- The first of these sweeps moves the ignored node below a new one. -/
def fiveSweeps : List Command :=
  [.hideAll ['v'] ['a', '#'] ['%'] ['*'], .replaceAll ['b'] ['z'] ['*'],
    .hideGroup ['u'] ['%'] 1 ['*'] ['w'], .renameAll ['n'] ['*'] ['w'], .hideRest ['r'] ['%'] ['*']]

theorem untouched_by_fiveSweeps :
    1 ∈ ignoredOne.ignored ∧ (ignoredOne.node 1).isUnfolded = false ∧
      (∀ c ∈ fiveSweeps, c.isSweep ignoredOne.config = true) ∧
      (ignoredOne.node 1).parent = some root ∧
      ((ignoredOne.after fiveSweeps).node 1).parent = some 3 ∧
      (1 < (ignoredOne.after fiveSweeps).size ∧ (ignoredOne.after fiveSweeps).node 1 =
        { ignoredOne.node 1 with place := ((ignoredOne.after fiveSweeps).node 1).place }) ∧
      ∀ y, 3 ≤ y → y ∉ (ignoredOne.after fiveSweeps).ignored := by
  have hig : ignoredOne.ignored = [1] := by cbv
  have hx : (ignoredOne.node 1).isUnfolded = false := by cbv
  have hconfig : ignoredOne.config = {} := by cbv
  have hsize : ignoredOne.size = 3 := by cbv
  have hs : ∀ c ∈ fiveSweeps, c.isSweep ignoredOne.config = true := by
    rw [hconfig]
    decide
  obtain ⟨hleft, hnew⟩ := Initial.untouched_by_sweeps (.ofText ['a', 'b', 'c', 'd'] {}) rfl hs rfl
  exact ⟨hig ▸ List.mem_cons_self, hx, hs, by cbv, by cbv,
    hleft 1 (hig ▸ List.mem_cons_self) hx, hsize ▸ hnew⟩

end Tree

end GlyphTree
