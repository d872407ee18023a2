import GlyphTree.Proofs.Ancestry
import GlyphTree.Proofs.Bookkeeping

/-!
# Carrying out plans

What plans of fresh nodes do to trees, whatever the texts and spans in them: also where regions are
empty and layouts are spoilt. The nodes that are cut get new texts and lists of children, one fresh
node comes to stand below them for each region, and all else that old nodes hold stays
(`Separate.carriedOut`).
-/

namespace GlyphTree

namespace Plan

variable {P Q : NodeId → NodeId → List Cut → Prop} {n p : NodeId} {cuts : List Cut} {plan : Plan}

/-- `P` holds of each node of a plan, with its cuts and with the number of the first of its fresh
nodes, if fresh nodes are numbered from `n` on. -/
def Numbered (P : NodeId → NodeId → List Cut → Prop) : NodeId → Plan → Prop
  | _, [] => True
  | n, (p, cuts) :: plan => P n p cuts ∧ Numbered P (n + cuts.length) plan

theorem regions_cons (p : NodeId) (cuts : List Cut) (plan : Plan) :
    regions ((p, cuts) :: plan) = cuts.length + regions plan := rfl

/-- The fresh nodes of a node are numbered from behind those of the nodes before it. -/
theorem Numbered.middle {before after : Plan}
    (h : Numbered P n (before ++ (p, cuts) :: after)) : P (n + regions before) p cuts := by
  induction before generalizing n with
  | nil => exact h.1
  | cons e before ih =>
    have := ih h.2
    rwa [Nat.add_assoc] at this

theorem Numbered.imp (h : Numbered P n plan) (hi : ∀ e ∈ plan, ∀ n, P n e.1 e.2 → Q n e.1 e.2) :
    Numbered Q n plan := by
  induction plan generalizing n with
  | nil => trivial
  | cons e plan ih =>
    obtain ⟨he, hplan⟩ := List.forall_mem_cons.1 hi
    exact ⟨he n h.1, ih h.2 hplan⟩

end Plan

namespace Tree

variable {t t' t'' : Tree} {p q x c id n : NodeId} {T T' P P' K K' : List NodeId} {cut : Cut}
  {cuts : List Cut} {plan : Plan} {es : List Edit} {text : Text}

/-! ## What nodes keep -/

/-- Node `x` still holds what it held, except that texts of nodes in `T` may have been edited, that
the lists of nodes in `P` may have changed, and that nodes in `K` may have moved. -/
structure Preserved (T P K : List NodeId) (x : NodeId) (t t' : Tree) : Prop where
  name : (t'.node x).name = (t.node x).name
  fold : (t'.node x).fold = (t.node x).fold
  expanded : (t'.node x).expanded = (t.node x).expanded
  text : x ∉ T → (t'.node x).text = (t.node x).text
  groups : x ∉ T → (t.node x).isUnfolded = false → (t'.node x).groups = (t.node x).groups
  children : x ∉ P → t'.children x = t.children x
  place : x ∉ K → (t'.node x).place = (t.node x).place

theorem preserved_of_eq (h : t'.node x = t.node x) : Preserved T P K x t t' :=
  ⟨by rw [h], by rw [h], by rw [h], fun _ => by rw [h], fun _ _ => by rw [h],
    fun _ => by rw [Tree.children, h, Tree.children], fun _ => by rw [h]⟩

theorem Preserved.refl (t : Tree) : Preserved T P K x t t := preserved_of_eq rfl

theorem Preserved.isUnfolded (h : Preserved T P K x t t') :
    (t'.node x).isUnfolded = (t.node x).isUnfolded := Node.isUnfolded_congr h.fold

theorem Preserved.trans (h : Preserved T P K x t t') (h' : Preserved T P K x t' t'') :
    Preserved T P K x t t'' where
  name := h'.name.trans h.name
  fold := h'.fold.trans h.fold
  expanded := h'.expanded.trans h.expanded
  text hT := (h'.text hT).trans (h.text hT)
  groups hT hx := (h'.groups hT (h.isUnfolded.trans hx)).trans (h.groups hT hx)
  children hP := (h'.children hP).trans (h.children hP)
  place hK := (h'.place hK).trans (h.place hK)

/-- What happens to other nodes does not matter. -/
theorem Preserved.imp (h : Preserved T P K x t t') (hT : x ∈ T → x ∈ T') (hP : x ∈ P → x ∈ P')
    (hK : x ∈ K → x ∈ K') : Preserved T' P' K' x t t' :=
  { h with
    text := fun hx => h.text (mt hT hx)
    groups := fun hx => h.groups (mt hT hx)
    children := fun hx => h.children (mt hP hx)
    place := fun hx => h.place (mt hK hx) }

theorem preserved_foldl {α : Type} {f : Tree → α → Tree} {l : List α}
    (h : ∀ t, ∀ a ∈ l, Preserved T P K x t (f t a)) (t : Tree) :
    Preserved T P K x t (l.foldl f t) := by
  induction l generalizing t with
  | nil => exact .refl t
  | cons a l ih =>
    exact (h t a List.mem_cons_self).trans (ih (fun t b hb => h t b (List.mem_cons_of_mem a hb)) _)

/-- A change of one node spares what it does not change of it. -/
theorem preserved_modify (t : Tree) (c : NodeId) (f : Node → Node)
    (hname : (f (t.node c)).name = (t.node c).name) (hfold : (f (t.node c)).fold = (t.node c).fold)
    (hexpanded : (f (t.node c)).expanded = (t.node c).expanded)
    (htext : c ∉ T → (f (t.node c)).text = (t.node c).text)
    (hgroups : c ∉ T → (t.node c).isUnfolded = false → (f (t.node c)).groups = (t.node c).groups)
    (hchildren : c ∉ P → (f (t.node c)).children = (t.node c).children)
    (hplace : c ∉ K → (f (t.node c)).place = (t.node c).place) :
    Preserved T P K x t (t.modify c f) := by
  by_cases hx : x = c ∧ x < t.size
  · have hnode : (t.modify c f).node x = f (t.node x) := by rw [node_modify, if_pos hx]
    obtain ⟨rfl, -⟩ := hx
    exact ⟨hnode ▸ hname, hnode ▸ hfold, hnode ▸ hexpanded, hnode ▸ htext, hnode ▸ hgroups,
      by rwa [Tree.children, hnode], hnode ▸ hplace⟩
  · exact preserved_of_eq (by rw [node_modify, if_neg hx])

theorem preserved_alloc (hx : x < t.size) (made : Node) : Preserved T P K x t (t.alloc made) :=
  preserved_of_eq (by rw [node_alloc, if_neg hx.ne])

/-! ## Taking in children -/

theorem preserved_setChildren (t : Tree) (p : NodeId) (ks : List NodeId) :
    Preserved [] [p] [] x t (t.setChildren p ks) :=
  preserved_modify t p _ rfl rfl rfl (fun _ => rfl) (fun _ _ => rfl) (fun h => absurd (by simp) h)
    fun _ => rfl

theorem preserved_putChild (t : Tree) (p c : NodeId) (s : Span) :
    Preserved [] [p] [c] x t (t.putChild p c s) := by
  have hplace : Preserved [] [p] [c] x t (t.modify c fun m => { m with place := some ⟨p, s⟩ }) :=
    preserved_modify t c _ rfl rfl rfl (fun _ => rfl) (fun _ _ => rfl) (fun _ => rfl)
      fun h => absurd (by simp) h
  exact hplace.trans ((preserved_setChildren _ p _).imp id id (by simp))

theorem place_putChild_self (hc : c < t.size) (s : Span) :
    ((t.putChild p c s).node c).place = some ⟨p, s⟩ := by
  rw [putChild, (preserved_setChildren _ p _).place List.not_mem_nil, node_modify, if_pos ⟨rfl, hc⟩]

theorem children_putChild (hp : p < t.size) (c : NodeId) (s : Span) :
    ((t.putChild p c s).children p).Perm (c :: t.children p) := by
  have hkids : (t.modify c fun m => { m with place := some ⟨p, s⟩ }).children p = t.children p := by
    rw [children, node_modify]
    split <;> rfl
  rw [putChild, children, node_setChildren _ (by rwa [size_modify]), if_pos rfl, hkids]
  exact insertByStart_perm _ c _

/-- Only an unfolded child has its groups moved. -/
theorem preserved_ite_moveGroups (t : Tree) (sub add : Nat) (c : NodeId) : Preserved T P K x t
    (if (t.node c).isUnfolded then t.modify c (moveGroups sub add) else t) := by
  split
  · rename_i hc
    refine preserved_modify t c _ rfl rfl rfl (fun _ => rfl) (fun _ hfold => ?_) (fun _ => rfl)
      fun _ => rfl
    cases hc.symm.trans hfold
  · exact .refl t

theorem preserved_moveChild (t : Tree) (q : NodeId) (sub add : Nat) (c : NodeId) :
    Preserved [] [q] [c] x t (t.moveChild q sub add c) := by
  have hgroups : Preserved [] [q] [c] x t _ := preserved_ite_moveGroups t sub add c
  unfold moveChild
  dsimp only
  split
  · exact hgroups.trans (preserved_putChild _ q c _)
  · exact hgroups

theorem preserved_foldl_moveChild (t : Tree) (q : NodeId) (sub add : Nat) (moved : List NodeId) :
    Preserved [] [q] moved x t (moved.foldl (fun t c => t.moveChild q sub add c) t) :=
  preserved_foldl (fun t c hc => (preserved_moveChild t q sub add c).imp id id fun hx =>
    List.mem_singleton.1 hx ▸ hc) t

/-- A node that stands somewhere. -/
def Placed (t : Tree) (x : NodeId) : Prop := (t.node x).place.isSome = true

theorem Placed.lt (h : t.Placed x) : x < t.size := by
  by_contra hx
  rw [Placed, node_eq_default (Nat.not_lt.1 hx)] at h
  cases h

theorem IsParent.placed (h : t.IsParent x p) : t.Placed x := by
  obtain ⟨pl, hpl, -⟩ := Option.map_eq_some_iff.1 h
  rw [Placed, hpl]
  rfl

theorem Placed.putChild (h : t.Placed x) (p c : NodeId) (s : Span) :
    (t.putChild p c s).Placed x := by
  by_cases hx : x = c
  · rw [Placed, hx, place_putChild_self (hx ▸ h.lt)]
    rfl
  · rwa [Placed, (preserved_putChild t p c s).place (by simpa using hx)]

/-- A child that stands somewhere is put below its new parent, at most with its groups moved. -/
theorem exists_moveChild (hc : t.Placed c) (q : NodeId) (sub add : Nat) :
    ∃ (u : Tree) (s : Span), t.moveChild q sub add c = u.putChild q c s ∧ u.size = t.size ∧
      ∀ x, Preserved [] [] [] x t u := by
  have hgroups : ∀ x, Preserved [] [] [] x t _ := fun x => preserved_ite_moveGroups t sub add c
  have hsize : (if (t.node c).isUnfolded then t.modify c (moveGroups sub add) else t).size =
      t.size := by
    split
    · exact size_modify ..
    · rfl
  obtain ⟨pl, hpl⟩ := Option.isSome_iff_exists.1 hc
  rw [← (hgroups c).place List.not_mem_nil] at hpl
  exact ⟨_, ⟨pl.span.start + add - sub, pl.span.stop + add - sub⟩,
    by simp only [moveChild, Node.span, hpl, Option.map_some], hsize, hgroups⟩

theorem Placed.moveChild (h : t.Placed x) (q : NodeId) (sub add : Nat) (c : NodeId) :
    (t.moveChild q sub add c).Placed x := by
  by_cases hc : t.Placed c
  · obtain ⟨u, s, he, -, hsame⟩ := exists_moveChild hc q sub add
    rw [he]
    refine Placed.putChild ?_ q c s
    rwa [Placed, (hsame x).place List.not_mem_nil]
  · have hx : x ∉ [c] := fun hx => hc (List.mem_singleton.1 hx ▸ h)
    rwa [Placed, (preserved_moveChild t q sub add c).place hx]

theorem Placed.foldl_moveChild (h : t.Placed x) (q : NodeId) (sub add : Nat)
    (moved : List NodeId) : (moved.foldl (fun t c => t.moveChild q sub add c) t).Placed x :=
  List.foldlRecOn (motive := fun u : Tree => u.Placed x) moved _ h fun _ hu c _ =>
    Placed.moveChild hu q sub add c

/-- Children that are moved to `q` are listed there, beside those that were. -/
theorem mem_children_foldl_moveChild {moved : List NodeId} (hq : q < t.size)
    (hmoved : ∀ c ∈ moved, t.Placed c) (sub add : Nat) (hc : c ∈ moved ∨ c ∈ t.children q) :
    c ∈ (moved.foldl (fun t c => t.moveChild q sub add c) t).children q := by
  induction moved generalizing t with
  | nil => exact hc.resolve_left List.not_mem_nil
  | cons d moved ih =>
    obtain ⟨hd, hmoved⟩ := List.forall_mem_cons.1 hmoved
    have hmoved' : ∀ c ∈ moved, (t.moveChild q sub add d).Placed c := fun c hc =>
      (hmoved c hc).moveChild q sub add d
    obtain ⟨u, s, he, hsize, hsame⟩ := exists_moveChild hd q sub add
    have hperm := children_putChild (hsize.symm ▸ hq) d s
    rw [(hsame q).children List.not_mem_nil] at hperm
    rw [List.foldl_cons]
    rw [he] at hmoved' ⊢
    refine ih (by simpa [hsize] using hq) hmoved' ?_
    rw [List.mem_cons] at hc
    rw [hperm.mem_iff, List.mem_cons]
    tauto

/-! ## Settling -/

/-- What the fresh node of a region of the text `text` of `p` holds beside its children. -/
structure Made (t' : Tree) (p : NodeId) (text : Text) (es : List Edit) (cut : Cut) (id : NodeId) :
    Prop where
  origin : cut.origin = .fresh (t'.node id).name (t'.node id).groups
  text : (t'.node id).text = text.slice cut.range
  place : (t'.node id).place = some ⟨p, cut.landing es⟩
  fold : (t'.node id).fold = none
  expanded : (t'.node id).expanded = []

theorem Made.isUnfolded (h : Made t p text es cut id) : (t.node id).isUnfolded = false :=
  Node.isUnfolded_of_none h.fold

theorem Made.preserved (h : Made t p text es cut id) (hs : Preserved T P K id t t') (hT : id ∉ T)
    (hK : id ∉ K) : Made t' p text es cut id where
  origin := by rw [hs.name, hs.groups hT h.isUnfolded, h.origin]
  text := (hs.text hT).trans h.text
  place := (hs.place hK).trans h.place
  fold := hs.fold.trans h.fold
  expanded := hs.expanded.trans h.expanded

/-- `u` is `t` with the fresh node of a region, which has taken over the children `moved` but stands
nowhere yet. -/
structure Gathers (t u : Tree) (text : Text) (cut : Cut) (moved : List NodeId) : Prop where
  size : u.size = t.size + 1
  old : ∀ x < t.size, Preserved [] [t.size] moved x t u
  origin : cut.origin = .fresh (u.node t.size).name (u.node t.size).groups
  text : (u.node t.size).text = text.slice cut.range
  fold : (u.node t.size).fold = none
  expanded : (u.node t.size).expanded = []
  placed : ∀ x, t.Placed x → u.Placed x
  listed : (∀ c ∈ moved, t.Placed c) → ∀ c ∈ moved, c ∈ u.children t.size

section
variable (hcut : cut.isFresh = true) (text : Text) (es : List Edit) (moved : List NodeId)
include hcut

/-- Before the fresh node of a region is put below `p` it takes over the children inside. -/
theorem exists_gathers (t : Tree) (p : NodeId) : ∃ u : Tree,
    t.settle p text es cut moved = u.putChild p t.size (cut.landing es) ∧
      Gathers t u text cut moved := by
  obtain ⟨name, groups, horigin⟩ := Cut.isFresh_iff.1 hcut
  let made : Node := ⟨name, text.slice cut.range, none, groups, none, [], []⟩
  have hnode : (t.alloc made).node t.size = made := by rw [node_alloc, if_pos rfl]
  have hself := preserved_foldl_moveChild (x := t.size) (t.alloc made) t.size cut.range.start 0 moved
  have hgroups := hself.groups List.not_mem_nil (by rw [hnode]; rfl)
  have hplaced : ∀ x, t.Placed x → (t.alloc made).Placed x := fun x hx => by
    rwa [Placed, (preserved_alloc (T := []) (P := []) (K := []) hx.lt made).place List.not_mem_nil]
  refine ⟨moved.foldl (fun u c => u.moveChild t.size cut.range.start 0 c) (t.alloc made), ?_, ?_,
    fun x hx => (preserved_alloc hx _).trans (preserved_foldl_moveChild _ _ _ _ _), ?_, ?_, ?_, ?_,
    fun x hx => (hplaced x hx).foldl_moveChild _ _ _ _, fun hmoved c hc => ?_⟩
  · simp only [settle, prepare, Cut.body, horigin]
    rfl
  · rw [size_foldl_moveChild, size_alloc]
  · rw [hself.name, hgroups, hnode, horigin]
  · rw [hself.text List.not_mem_nil, hnode]
  · rw [hself.fold, hnode]
  · rw [hself.expanded, hnode]
  · exact mem_children_foldl_moveChild (size_alloc t made ▸ Nat.lt_succ_self _)
      (fun c hc => hplaced c (hmoved c hc)) _ _ (.inl hc)

theorem preserved_settle (hx : x < t.size) :
    Preserved [] [p] moved x t (t.settle p text es cut moved) := by
  obtain ⟨u, he, hu⟩ := exists_gathers hcut text es moved t p
  have hne : x ∉ [t.size] := by simpa using hx.ne
  rw [he]
  exact ((hu.old x hx).imp id (absurd · hne) id).trans
    ((preserved_putChild u p t.size _).imp id id (absurd · hne))

theorem made_settle (t : Tree) (p : NodeId) :
    Made (t.settle p text es cut moved) p text es cut t.size := by
  obtain ⟨u, he, hu⟩ := exists_gathers hcut text es moved t p
  have hput := preserved_putChild (x := t.size) u p t.size (cut.landing es)
  rw [he]
  refine ⟨?_, (hput.text List.not_mem_nil).trans hu.text, ?_, hput.fold.trans hu.fold,
    hput.expanded.trans hu.expanded⟩
  · rw [hput.name, hput.groups List.not_mem_nil (Node.isUnfolded_of_none hu.fold), hu.origin]
  · exact place_putChild_self (hu.size ▸ Nat.lt_succ_self _) _

theorem Placed.settle (h : t.Placed x) (p : NodeId) :
    (t.settle p text es cut moved).Placed x := by
  obtain ⟨u, he, hu⟩ := exists_gathers hcut text es moved t p
  rw [he]
  exact (hu.placed x h).putChild ..

section
variable (hp : p < t.size)
include hp

theorem children_settle :
    ((t.settle p text es cut moved).children p).Perm (t.size :: t.children p) := by
  obtain ⟨u, he, hu⟩ := exists_gathers hcut text es moved t p
  rw [he, ← (hu.old p hp).children (by simpa using hp.ne)]
  exact children_putChild (hu.size ▸ Nat.lt_succ_of_lt hp) _ _

theorem mem_children_settle (hmoved : ∀ c ∈ moved, t.Placed c) (hc : c ∈ moved) :
    c ∈ (t.settle p text es cut moved).children t.size := by
  obtain ⟨u, he, hu⟩ := exists_gathers hcut text es moved t p
  rw [he, (preserved_putChild u p t.size _).children (by simpa using hp.ne')]
  exact hu.listed hmoved c hc

end

theorem size_settle_fresh (t : Tree) (p : NodeId) :
    (t.settle p text es cut moved).size = t.size + 1 := by
  rw [size_settle, List.countP_eq_length.2 (by simpa using hcut), List.length_singleton]

end

section
variable (hcuts : ∀ c ∈ cuts, c.isFresh = true) (text : Text) (es : List Edit)
  (kids : List (NodeId × Span))
include hcuts

theorem preserved_settleAll (hx : x < t.size) :
    Preserved [] [p] (kids.map Prod.fst) x t (settleAll p text es cuts kids t) := by
  induction cuts generalizing t kids with
  | nil => exact .refl t
  | cons cut cuts ih =>
    obtain ⟨hcut, hcuts⟩ := List.forall_mem_cons.1 hcuts
    have hsub : ∀ f : NodeId × Span → Bool,
        x ∈ (kids.filter f).map Prod.fst → x ∈ kids.map Prod.fst :=
      fun f hx => (List.filter_sublist.map _).subset hx
    have hstep := preserved_settle (p := p) hcut text es
      ((kids.filter fun k => cut.range.encloses k.2).map Prod.fst) hx
    refine (hstep.imp id id (hsub _)).trans ((ih hcuts _ ?_).imp id id (hsub _))
    rw [size_settle_fresh hcut]
    exact Nat.lt_succ_of_lt hx

/-- The fresh nodes are numbered in the order of their regions. -/
theorem made_settleAll (hk : ∀ k ∈ kids, k.1 < t.size) {i : Nat} (hi : cuts[i]? = some cut) :
    Made (settleAll p text es cuts kids t) p text es cut (t.size + i) := by
  induction cuts generalizing t kids i with
  | nil => cases hi
  | cons c cuts ih =>
    obtain ⟨hc, hcuts⟩ := List.forall_mem_cons.1 hcuts
    have hsize := size_settle_fresh hc text es
      ((kids.filter fun k => c.range.encloses k.2).map Prod.fst) t p
    have hk' : ∀ k ∈ kids.filter fun k => !c.range.encloses k.2, k.1 < t.size := fun k hkf =>
      hk k (List.mem_of_mem_filter hkf)
    cases i with
    | zero =>
      obtain rfl : c = cut := by simpa using hi
      refine (made_settle hc text es _ t p).preserved
        (preserved_settleAll hcuts text es _ (hsize ▸ Nat.lt_succ_self _)) List.not_mem_nil
        fun hmem => ?_
      obtain ⟨k, hkf, he⟩ := List.mem_map.1 hmem
      exact Nat.lt_irrefl _ (he ▸ hk' k hkf)
    | succ i =>
      have := ih hcuts (t := t.settle p text es c
        ((kids.filter fun k => c.range.encloses k.2).map Prod.fst))
        (kids.filter fun k => !c.range.encloses k.2)
        (fun k hkf => hsize ▸ Nat.lt_succ_of_lt (hk' k hkf)) hi
      rwa [hsize, Nat.add_right_comm, Nat.add_assoc] at this

theorem children_settleAll (hp : p < t.size) :
    ((settleAll p text es cuts kids t).children p).Perm
      (List.range' t.size cuts.length ++ t.children p) := by
  induction cuts generalizing t kids with
  | nil => exact .refl _
  | cons c cuts ih =>
    obtain ⟨hc, hcuts⟩ := List.forall_mem_cons.1 hcuts
    have hsize := size_settle_fresh hc text es
      ((kids.filter fun k => c.range.encloses k.2).map Prod.fst) t p
    have hstep := children_settle hc text es
      ((kids.filter fun k => c.range.encloses k.2).map Prod.fst) hp
    rw [List.length_cons, List.range'_succ, List.cons_append]
    refine (ih hcuts _ (hsize ▸ Nat.lt_succ_of_lt hp)).trans ?_
    rw [hsize]
    exact (hstep.append_left _).trans List.perm_middle

/-- Each child inside a region is listed at one of the fresh nodes. -/
theorem exists_listed_settleAll (hp : p < t.size) (hplaced : ∀ k ∈ kids, t.Placed k.1)
    {k : NodeId × Span} (hk : k ∈ kids) (hin : ∃ c ∈ cuts, c.range.encloses k.2 = true) :
    ∃ i < cuts.length, k.1 ∈ (settleAll p text es cuts kids t).children (t.size + i) := by
  induction cuts generalizing t kids with
  | nil =>
    obtain ⟨_, hc, -⟩ := hin
    cases hc
  | cons c cuts ih =>
    obtain ⟨hc, hcuts⟩ := List.forall_mem_cons.1 hcuts
    have hsize := size_settle_fresh hc text es
      ((kids.filter fun k => c.range.encloses k.2).map Prod.fst) t p
    cases hck : c.range.encloses k.2 with
    | true =>
      have hmem : k.1 ∈ (kids.filter fun k => c.range.encloses k.2).map Prod.fst :=
        List.mem_map_of_mem (List.mem_filter.2 ⟨hk, hck⟩)
      have hrest := preserved_settleAll (p := p) hcuts text es
        (kids.filter fun k => !c.range.encloses k.2)
        (Nat.lt_of_lt_of_eq (Nat.lt_succ_self t.size) hsize.symm)
      refine ⟨0, Nat.succ_pos _, ?_⟩
      rw [Nat.add_zero, settleAll, hrest.children (by simpa using hp.ne')]
      refine mem_children_settle hc text es _ hp (fun d hd => ?_) hmem
      obtain ⟨j, hj, rfl⟩ := List.mem_map.1 hd
      exact hplaced j (List.mem_of_mem_filter hj)
    | false =>
      have hin : ∃ c ∈ cuts, c.range.encloses k.2 = true := by simpa [hck] using hin
      obtain ⟨i, hi, hmem⟩ := ih hcuts (kids.filter fun k => !c.range.encloses k.2)
        (Nat.lt_of_lt_of_eq (Nat.lt_succ_of_lt hp) hsize.symm)
        (fun j hj => (hplaced j (List.mem_of_mem_filter hj)).settle hc text es _ p)
        (List.mem_filter.2 ⟨hk, by rw [hck]; rfl⟩) hin
      rw [hsize, Nat.add_right_comm, Nat.add_assoc] at hmem
      exact ⟨i + 1, Nat.succ_lt_succ hi, hmem⟩

end

/-! ## Editing a text -/

theorem preserved_followEdits (t : Tree) (hc : c ∈ K) (es : List Edit) :
    Preserved T P K x t (t.modify c (followEdits es)) :=
  preserved_modify t c _ (followEdits_name ..) (followEdits_fold ..) (followEdits_expanded ..)
    (fun _ => followEdits_text ..) (fun _ hfold => by rw [followEdits_eq, hfold]; rfl)
    (fun _ => followEdits_children ..) fun h => absurd hc h

/-- Node `p` with its text and groups changed. -/
theorem preserved_modify_self (t : Tree) (p : NodeId) (f : Text → Text) (g : Groups → Groups) :
    Preserved [p] P K x t (t.modify p fun m => { m with text := f m.text, groups := g m.groups }) :=
  preserved_modify t p _ rfl rfl rfl (fun h => absurd (by simp) h) (fun h => absurd (by simp) h)
    (fun _ => rfl) fun _ => rfl

theorem preserved_rewrite (t : Tree) (p : NodeId) (es : List Edit) :
    Preserved [p] [] (t.children p) x t (t.rewrite p es) := by
  have hkids : (t.modify p fun m => { m with text := applyEdits m.text es }).children p =
      t.children p := by
    rw [children, node_modify]
    split <;> rfl
  unfold rewrite
  split
  · exact .refl t
  · dsimp only
    rw [hkids]
    exact (preserved_modify_self t p (applyEdits · es) id).trans ((preserved_foldl (fun u c hc =>
      preserved_followEdits u hc es) _).trans (preserved_modify_self _ p id _))

theorem text_rewrite (hp : p < t.size) (es : List Edit) :
    ((t.rewrite p es).node p).text = applyEdits (t.node p).text es := by
  have hnode : (t.modify p fun m => { m with text := applyEdits m.text es }).node p =
      { t.node p with text := applyEdits (t.node p).text es } := by
    rw [node_modify, if_pos ⟨rfl, hp⟩]
  unfold rewrite
  split
  · rename_i hes
    rw [List.isEmpty_iff.1 hes]
    rfl
  · generalize (t.modify p fun m => { m with text := applyEdits m.text es }) = u at hnode
    have hfollow : Preserved [] [] (u.children p) p u
        ((u.children p).foldl (fun t c => t.modify c (followEdits es)) u) :=
      preserved_foldl (fun u c hc => preserved_followEdits u hc es) u
    have htext := (hfollow.text List.not_mem_nil).trans (congrArg Node.text hnode)
    dsimp only
    rw [node_modify]
    split <;> exact htext

/-! ## Splicing -/

/-- Whether a child is in none of the regions, and so stays listed where it is. -/
def stays (t : Tree) (cuts : List Cut) (c : NodeId) : Bool :=
  !cuts.any fun cut => cut.range.encloses ((t.node c).span.getD ⟨0, 0⟩)

/-- A tree whose node `p` is ready for its regions to be settled. -/
def cleared (t : Tree) (p : NodeId) (cuts : List Cut) : Tree :=
  (t.setChildren p ((t.children p).filter (t.stays cuts))).rewrite p (cuts.map Cut.edit)

theorem splice_eq_settleAll (t : Tree) (p : NodeId) (cuts : List Cut) :
    t.splice p cuts = settleAll p (t.node p).text (cuts.map Cut.edit) cuts
      ((t.children p).map t.withSpan) (t.cleared p cuts) := by
  unfold splice cleared
  dsimp only
  rw [filter_spans_fst (fun r => !cuts.any fun c => c.range.encloses r)]
  rfl

theorem map_withSpan_fst (t : Tree) (l : List NodeId) : (l.map t.withSpan).map Prod.fst = l := by
  rw [List.map_map]
  exact List.map_id l

theorem size_cleared (t : Tree) (p : NodeId) (cuts : List Cut) :
    (t.cleared p cuts).size = t.size := by simp [cleared]

theorem preserved_cleared (t : Tree) (p : NodeId) (cuts : List Cut) :
    Preserved [p] [p] (t.children p) x t (t.cleared p cuts) := by
  refine ((preserved_setChildren t p _).imp (by simp) id (by simp)).trans
    ((preserved_rewrite _ p _).imp id (by simp) fun hc => ?_)
  rw [children, setChildren, node_modify] at hc
  split at hc
  · exact List.mem_of_mem_filter hc
  · exact hc

section
variable (hp : p < t.size)
include hp

theorem text_cleared (cuts : List Cut) : ((t.cleared p cuts).node p).text =
    applyEdits (t.node p).text (cuts.map Cut.edit) := by
  rw [cleared, text_rewrite (by rwa [size_setChildren]),
    (preserved_setChildren t p _).text List.not_mem_nil]

theorem children_cleared (cuts : List Cut) :
    (t.cleared p cuts).children p = (t.children p).filter (t.stays cuts) := by
  rw [cleared, (preserved_rewrite _ p _).children List.not_mem_nil, children, node_setChildren _ hp,
    if_pos rfl]

end

section
variable (hcuts : ∀ c ∈ cuts, c.isFresh = true)
include hcuts

theorem size_splice_fresh (t : Tree) (p : NodeId) :
    (t.splice p cuts).size = t.size + cuts.length := by
  rw [size_splice, List.countP_eq_length.2 hcuts]

theorem preserved_splice (hx : x < t.size) (p : NodeId) :
    Preserved [p] [p] (t.children p) x t (t.splice p cuts) := by
  have hsettle := preserved_settleAll (p := p) hcuts (t.node p).text (cuts.map Cut.edit)
    ((t.children p).map t.withSpan) (t := t.cleared p cuts) ((size_cleared t p cuts).symm ▸ hx)
  rw [map_withSpan_fst] at hsettle
  rw [splice_eq_settleAll]
  exact (preserved_cleared t p cuts).trans (hsettle.imp (by simp) id id)

theorem text_splice (hp : p < t.size) : ((t.splice p cuts).node p).text =
    applyEdits (t.node p).text (cuts.map Cut.edit) := by
  have hsettle := preserved_settleAll (p := p) hcuts (t.node p).text (cuts.map Cut.edit)
    ((t.children p).map t.withSpan) (t := t.cleared p cuts) ((size_cleared t p cuts).symm ▸ hp)
  rw [splice_eq_settleAll, hsettle.text List.not_mem_nil, text_cleared hp]

theorem children_splice (hp : p < t.size) : ((t.splice p cuts).children p).Perm
    (List.range' t.size cuts.length ++ (t.children p).filter (t.stays cuts)) := by
  have hsettle := children_settleAll hcuts (t.node p).text (cuts.map Cut.edit)
    ((t.children p).map t.withSpan) (t := t.cleared p cuts) (p := p)
    ((size_cleared t p cuts).symm ▸ hp)
  rwa [← splice_eq_settleAll, size_cleared, children_cleared hp] at hsettle

theorem made_splice (hk : ∀ c ∈ t.children p, c < t.size) {i : Nat} (hi : cuts[i]? = some cut) :
    Made (t.splice p cuts) p (t.node p).text (cuts.map Cut.edit) cut (t.size + i) := by
  rw [splice_eq_settleAll, ← size_cleared t p cuts]
  refine made_settleAll hcuts _ _ _ (fun k hkt => ?_) hi
  obtain ⟨c, hc, rfl⟩ := List.mem_map.1 hkt
  exact (size_cleared t p cuts).symm ▸ hk c hc

/-- A child in no region stays listed where it is, the others are listed at fresh nodes. -/
theorem exists_listed_splice (hp : p < t.size) (hk : ∀ c ∈ t.children p, t.IsParent c p)
    (hc : c ∈ t.children p) : c ∈ (t.splice p cuts).children p ∨
      ∃ i < cuts.length, c ∈ (t.splice p cuts).children (t.size + i) := by
  cases hstays : t.stays cuts c with
  | true =>
    refine .inl ((children_splice hcuts hp).mem_iff.2 ?_)
    exact List.mem_append_right _ (List.mem_filter.2 ⟨hc, hstays⟩)
  | false =>
    have hcleared : Pruned t (t.cleared p cuts) :=
      (pruned_setChildren List.filter_sublist).trans (pruned_rewrite _ p _)
    rw [stays, Bool.not_eq_false', List.any_eq_true] at hstays
    have hin := exists_listed_settleAll hcuts (t.node p).text (cuts.map Cut.edit)
      ((t.children p).map t.withSpan) (t := t.cleared p cuts) (p := p)
      ((size_cleared t p cuts).symm ▸ hp) (fun k hkt => ?_) (List.mem_map_of_mem hc) hstays
    · rw [← splice_eq_settleAll, size_cleared] at hin
      exact .inr hin
    · obtain ⟨d, hd, rfl⟩ := List.mem_map.1 hkt
      exact (hcleared.isParent.2 (hk d hd)).placed

end

/-! ## Plans -/

/-- A plan of fresh nodes whose parts do not get in each other's way: the nodes cut are distinct,
and their children name them as parents. -/
structure Separate (t : Tree) (plan : Plan) : Prop where
  nodup : (plan.map Prod.fst).Nodup
  lt : ∀ e ∈ plan, e.1 < t.size
  fresh : ∀ e ∈ plan, ∀ c ∈ e.2, c.isFresh = true
  parent : ∀ e ∈ plan, ∀ c ∈ t.children e.1, t.IsParent c e.1

theorem Separate.kids (h : Separate t plan) : ∀ e ∈ plan, ∀ c ∈ t.children e.1, c < t.size :=
  fun e he c hc => (h.parent e he c hc).lt

/-- What has become of a node that is cut, if `n` is the number of the first fresh node: it has the
edited text, and lists the fresh nodes beside the children that are in no region. The others are
listed at the fresh nodes. -/
structure Parted (t t' : Tree) (n p : NodeId) (cuts : List Cut) : Prop where
  text : (t'.node p).text = applyEdits (t.node p).text (cuts.map Cut.edit)
  children : (t'.children p).Perm (List.range' n cuts.length ++ (t.children p).filter (t.stays cuts))
  made : ∀ i cut, cuts[i]? = some cut →
    Made t' p (t.node p).text (cuts.map Cut.edit) cut (n + i)
  kids : ∀ c ∈ t.children p, c ∈ t'.children p ∨ ∃ i < cuts.length, c ∈ t'.children (n + i)

/-- What carrying out a plan of fresh nodes makes of a tree. -/
structure CarriedOut (plan : Plan) (t t' : Tree) : Prop where
  size : t'.size = t.size + plan.regions
  preserved : ∀ x < t.size,
    Preserved (plan.map Prod.fst) (plan.map Prod.fst) (plan.flatMap fun e => t.children e.1) x t t'
  parted : Plan.Numbered (Parted t t') t.size plan

/-- Of the tree before, it is the node cut and its children that matter. -/
theorem Parted.congr (h : Parted t t' n p cuts) (htext : (t.node p).text = (t''.node p).text)
    (hchildren : t.children p = t''.children p)
    (hplace : ∀ c ∈ t.children p, (t.node c).place = (t''.node c).place) :
    Parted t'' t' n p cuts := by
  have hstays : (t.children p).filter (t.stays cuts) = (t.children p).filter (t''.stays cuts) :=
    List.filter_congr fun c hc => by rw [stays, stays, Node.span, hplace c hc, Node.span]
  refine ⟨by rw [h.text, htext], ?_, htext ▸ h.made, hchildren ▸ h.kids⟩
  rw [← hchildren, ← hstays]
  exact h.children

theorem Separate.tail {e : NodeId × List Cut} (h : Separate t (e :: plan)) : Separate t plan where
  nodup := (List.nodup_cons.1 h.nodup).2
  lt := (List.forall_mem_cons.1 h.lt).2
  fresh := (List.forall_mem_cons.1 h.fresh).2
  parent := (List.forall_mem_cons.1 h.parent).2

/-- Fresh nodes are not cut themselves. -/
theorem Separate.not_mem_of_le (h : Separate t plan) (hx : t.size ≤ x) :
    x ∉ plan.map Prod.fst := fun hmem => by
  obtain ⟨e, he, rfl⟩ := List.mem_map.1 hmem
  exact Nat.not_lt.2 hx (h.lt e he)

section
variable (h : Separate t ((p, cuts) :: plan))
include h

theorem Separate.ne_head : ∀ e ∈ plan, e.1 ∉ [p] := fun e he hep =>
  (List.nodup_cons.1 h.nodup).1 (List.mem_map.2 ⟨e, he, List.mem_singleton.1 hep⟩)

/-- Cutting one node leaves the others as they are. -/
theorem Separate.preserved_head :
    ∀ x < t.size, Preserved [p] [p] (t.children p) x t (t.splice p cuts) :=
  fun _ hx => preserved_splice (List.forall_mem_cons.1 h.fresh).1 hx p

theorem Separate.children_head : ∀ e ∈ plan, (t.splice p cuts).children e.1 = t.children e.1 :=
  fun e he => (h.preserved_head e.1 (h.tail.lt e he)).children (h.ne_head e he)

theorem Separate.place_head : ∀ e ∈ plan, ∀ c ∈ t.children e.1,
    ((t.splice p cuts).node c).place = (t.node c).place := fun e he c hce =>
  (h.preserved_head c (h.tail.kids e he c hce)).place fun hcp => h.ne_head e he <|
    List.mem_singleton.2 ((h.tail.parent e he c hce).unique (h.parent _ List.mem_cons_self c hcp))

theorem Separate.splice : Separate (t.splice p cuts) plan where
  nodup := h.tail.nodup
  lt e he := (h.tail.lt e he).trans_le (grows_splice t p cuts).size
  fresh := h.tail.fresh
  parent e he c hc := by
    rw [h.children_head e he] at hc
    rw [IsParent, Node.parent, h.place_head e he c hc]
    exact h.tail.parent e he c hc

/-- A node without cuts. -/
theorem Separate.carriedOut_skip (hc : CarriedOut plan t t') (hcuts : cuts = []) :
    CarriedOut ((p, cuts) :: plan) t t' := by
  subst hcuts
  have hp : p ∉ plan.map Prod.fst := (List.nodup_cons.1 h.nodup).1
  have hself := hc.preserved p (h.lt _ List.mem_cons_self)
  refine ⟨?_, fun x hx => ?_, ⟨hself.text hp, ?_, by simp, fun c hmem => .inl ?_⟩, hc.parted⟩
  · rw [hc.size, Plan.regions_cons, List.length_nil, Nat.zero_add]
  · rw [List.map_cons, List.flatMap_cons]
    exact (hc.preserved x hx).imp (List.mem_cons_of_mem _) (List.mem_cons_of_mem _)
      (List.mem_append_right _)
  · have hall : (t.children p).filter (t.stays []) = t.children p :=
      List.filter_eq_self.2 fun _ _ => rfl
    rw [hself.children hp, hall]
    exact .refl _
  · rwa [hself.children hp]

/-- A node that is cut before all others. -/
theorem Separate.carriedOut_cons (hc : CarriedOut plan (t.splice p cuts) t') :
    CarriedOut ((p, cuts) :: plan) t t' := by
  have hcuts := (List.forall_mem_cons.1 h.fresh).1
  have hlt := (List.forall_mem_cons.1 h.lt).1
  have hp : p ∉ plan.map Prod.fst := (List.nodup_cons.1 h.nodup).1
  have hsize := size_splice_fresh hcuts t p
  have hgrow : t.size ≤ (t.splice p cuts).size := (grows_splice t p cuts).size
  have hself := hc.preserved p (hlt.trans_le hgrow)
  have hfresh : ∀ {i}, i < cuts.length → t.size + i < (t.splice p cuts).size ∧
      t.size + i ∉ plan.map Prod.fst := fun hi =>
    ⟨hsize ▸ Nat.add_lt_add_left hi _, h.tail.not_mem_of_le (Nat.le_add_right _ _)⟩
  refine ⟨?_, fun x hx => ?_, ⟨?_, ?_, fun i cut hi => ?_, fun c hmem => ?_⟩, ?_⟩
  · rw [hc.size, hsize, Plan.regions_cons, Nat.add_assoc]
  · have hkids : plan.flatMap (fun e => (t.splice p cuts).children e.1) =
        plan.flatMap fun e => t.children e.1 := List.flatMap_congr h.children_head
    have hrest := hc.preserved x (hx.trans_le hgrow)
    rw [hkids] at hrest
    rw [List.map_cons, List.flatMap_cons]
    exact ((h.preserved_head x hx).imp (fun hx => by simp_all) (fun hx => by simp_all)
      (List.mem_append_left _)).trans (hrest.imp (List.mem_cons_of_mem _) (List.mem_cons_of_mem _)
        (List.mem_append_right _))
  · rw [hself.text hp, text_splice hcuts hlt]
  · rw [hself.children hp]
    exact children_splice hcuts hlt
  · obtain ⟨hid, hcut⟩ := hfresh (List.getElem?_eq_some_iff.1 hi).1
    refine (made_splice hcuts (List.forall_mem_cons.1 h.kids).1 hi).preserved (hc.preserved _ hid)
      hcut fun hmem => ?_
    -- nor is a fresh node a child of another node that is cut
    obtain ⟨e, he, hei⟩ := List.mem_flatMap.1 hmem
    exact Nat.not_lt.2 (Nat.le_add_right _ _)
      (h.tail.kids e he _ (h.children_head e he ▸ hei))
  · rw [hself.children hp]
    refine (exists_listed_splice hcuts hlt (h.parent _ List.mem_cons_self) hmem).imp_right ?_
    rintro ⟨i, hi, hmem⟩
    obtain ⟨hid, hcut⟩ := hfresh hi
    exact ⟨i, hi, (hc.preserved _ hid).children hcut ▸ hmem⟩
  · rw [← hsize]
    exact hc.parted.imp fun e he n hp => hp.congr
      ((h.preserved_head _ (h.tail.lt e he)).text (h.ne_head e he)) (h.children_head e he)
      fun c hce => h.place_head e he c (h.children_head e he ▸ hce)

end

/-- Plans are carried out as if each node were cut on its own. -/
theorem Separate.carriedOut (h : Separate t plan) : CarriedOut plan t (t.applyPlan plan) := by
  induction plan generalizing t with
  | nil => exact ⟨rfl, fun _ _ => .refl t, trivial⟩
  | cons e plan ih =>
    obtain ⟨p, cuts⟩ := e
    rw [applyPlan, List.foldl_cons]
    dsimp only
    split
    · rename_i hcuts
      exact h.carriedOut_skip (ih h.tail) (List.isEmpty_iff.1 hcuts)
    · exact h.carriedOut_cons (ih h.splice)

end Tree

end GlyphTree
