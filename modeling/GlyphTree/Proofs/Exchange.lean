import GlyphTree.Proofs.Views
import Mathlib.Logic.Equiv.Basic

/-!
# Exchanging contents

A swap takes three moves, each of which overwrites what its target held, by way of a fresh node that
stands nowhere. Whatever tree it is carried out on, the contents of the two nodes have changed places
in the end, the links of the children have followed, and nothing else of any node has changed
(`Tied.exchangedAt`), so that a second swap takes everything back. What the two nodes stand for
changes places as well if neither of them is above the other (`Reached.contents_exchanged`).
-/

namespace GlyphTree

/-- What goes from node to node when content moves. -/
structure Content where
  name : Text
  text : Text
  groups : Groups
  children : List NodeId

/-- What a node hands over when its content moves. -/
def Node.content (n : Node) : Content := ⟨n.name, n.text, n.groups, n.children⟩

theorem Node.eq_of_content {m n : Node} (hc : m.content = n.content) (hp : m.place = n.place)
    (hf : m.fold = n.fold) (he : m.expanded = n.expanded) : m = n := by
  obtain ⟨h1, h2, h3, h4⟩ := Content.mk.inj hc
  exact Node.ext h1 h2 hp h3 hf h4 he

theorem Node.atoms_congr {m n : Node} (hf : m.fold = n.fold) (hs : m.span = n.span) :
    m.atoms = n.atoms := by
  have hatoms : ∀ n : Node, n.atoms = match n.span, n.fold with
      | none, _ => []
      | some s, none => [s]
      | some s, some f =>
        [⟨s.start, s.start + f.opening.utf8Size⟩, ⟨s.stop - f.closing.utf8Size, s.stop⟩] := fun n => by
    unfold Node.atoms Node.span
    cases n.place <;> cases n.fold <;> rfl
  rw [hatoms, hatoms, hf, hs]

namespace Tree

open Relation

variable {t t₁ t₂ t' : Tree} {target source a b c k p x j : NodeId} {circles : Prop} {d n : Nat}

/-! ## One move -/

/-- `t'` is `t` after the content of `source` has gone to `target`. -/
structure HandedOver (t t' : Tree) (target source : NodeId) : Prop where
  size : t'.size = t.size
  aside : t'.aside = t.aside
  content : ∀ j, j ≠ source →
    (t'.node j).content = (t.node (if j = target then source else j)).content
  emptied : t'.children source = []
  place : ∀ j, (t'.node j).place =
    if j ∈ t.children source then (adopted target (t.node j)).place else (t.node j).place
  fold : ∀ j, (t'.node j).fold = (t.node j).fold
  expanded : ∀ j, (t'.node j).expanded = (t.node j).expanded

theorem Tied.handedOver (h : Tied circles t) (hne : target ≠ source) (ht : target < t.size)
    (hs : source < t.size) : HandedOver t (t.replaceContent target source) target source := by
  obtain ⟨rank, h⟩ := h
  have hnode := node_replaceContent_of_nodup hne ht hs (h.nodup_children source) fun k hk =>
    (h.isParent_child hk).lt
  refine ⟨size_replaceContent hne, ?_, fun j hj => ?_, ?_, fun j => ?_, fun j => ?_, fun j => ?_⟩
  · rw [replaceContent_eq hne, aside_modify, aside_foldl_modify, aside_setChildren, aside_rename]
  · rw [hnode]
    by_cases hjt : j = target <;> simp [Node.content, Tree.children, hjt, hj]
  · simp [Tree.children, hnode, hne.symm]
  · rw [hnode]
    split <;> rfl
  · rw [hnode]
    split <;> rfl
  · rw [hnode]
    split <;> rfl

theorem HandedOver.children (h : HandedOver t t' target source) (hj : j ≠ source) :
    t'.children j = t.children (if j = target then source else j) :=
  congrArg Content.children (h.content j hj)

/-! ## Three moves -/

/-- `t'` is `t` with the contents of `a` and `b` exchanged, as far as node `x` is concerned. -/
structure ExchangedAt (t t' : Tree) (a b x : NodeId) : Prop where
  content : (t'.node x).content = (t.node (Equiv.swap a b x)).content
  place : (t'.node x).place =
    if x ∈ t.children a then (adopted b (t.node x)).place
    else if x ∈ t.children b then (adopted a (t.node x)).place else (t.node x).place
  fold : (t'.node x).fold = (t.node x).fold
  expanded : (t'.node x).expanded = (t.node x).expanded

theorem place_adopted (q : NodeId) (n : Node) : (adopted q n).place = n.span.map (⟨q, ·⟩) := by
  rw [adopted, Node.span, Option.map_map]
  rfl

theorem ExchangedAt.span (h : ExchangedAt t t' a b x) : (t'.node x).span = (t.node x).span := by
  have hspan : ∀ q, ((adopted q (t.node x)).place).map Place.span = (t.node x).span := fun q => by
    rw [place_adopted, Option.map_map]
    exact Option.map_id'
  rw [Node.span, h.place]
  split
  · exact hspan b
  · split
    · exact hspan a
    · rfl

/-- The contents of `a` and `b` change places by way of `k`. -/
theorem HandedOver.exchangedAt (h₁ : HandedOver t t₁ k a)
    (h₂ : if a = b then t₂ = t₁ else HandedOver t₁ t₂ a b) (h₃ : HandedOver t₂ t' b k)
    (hka : k ≠ a) (hkb : k ≠ b) (hx : x ≠ k) : ExchangedAt t t' a b x := by
  by_cases hab : a = b
  · subst hab
    rw [if_pos rfl] at h₂
    subst h₂
    have hk : t₂.children k = t.children a := by rw [h₁.children hka, if_pos rfl]
    refine ⟨?_, ?_, ?_, ?_⟩
    · rw [h₃.content x hx, Equiv.swap_self, Equiv.refl_apply]
      by_cases hxa : x = a
      · rw [if_pos hxa, h₁.content k hka, if_pos rfl, hxa]
      · rw [if_neg hxa, h₁.content x hxa, if_neg hx]
    · rw [h₃.place, hk, adopted, h₁.place]
      split <;> simp [adopted, Function.comp_def]
    · rw [h₃.fold, h₁.fold]
    · rw [h₃.expanded, h₁.expanded]
  · rw [if_neg hab] at h₂
    have hk : t₂.children k = t.children a := by
      rw [h₂.children hkb, if_neg hka, h₁.children hka, if_pos rfl]
    have hb : t₁.children b = t.children b := by
      rw [h₁.children (Ne.symm hab), if_neg hkb.symm]
    refine ⟨?_, ?_, ?_, ?_⟩
    · rw [h₃.content x hx]
      by_cases hxb : x = b
      · rw [if_pos hxb, h₂.content k hkb, if_neg hka, h₁.content k hka, if_pos rfl, hxb,
          Equiv.swap_apply_right]
      · rw [if_neg hxb, h₂.content x hxb]
        by_cases hxa : x = a
        · rw [if_pos hxa, h₁.content b (Ne.symm hab), if_neg hkb.symm, hxa, Equiv.swap_apply_left]
        · rw [if_neg hxa, h₁.content x hxa, if_neg hx, Equiv.swap_apply_of_ne_of_ne hxa hxb]
    · rw [h₃.place, hk, adopted, h₂.place, hb, adopted, h₁.place]
      split
      · split <;> simp [adopted, Function.comp_def]
      · rfl
    · rw [h₃.fold, h₂.fold, h₁.fold]
    · rw [h₃.expanded, h₂.expanded, h₁.expanded]

theorem swap_lt (ha : a < n) (hb : b < n) (hx : x < n) : Equiv.swap a b x < n := by
  rw [Equiv.swap_apply_def]
  split
  · exact hb
  · split
    · exact ha
    · exact hx

/-! ## The tree after a swap -/

section
variable (h : Tied True t) (ha : a < t.size) (hb : b < t.size)
include h ha hb

/-- The moves of a swap. Contents that are one and the same are not moved between the other two. -/
theorem Tied.handedOver_swap : ∃ t₁ t₂, HandedOver (t.detached []).2 t₁ t.size a ∧
    (if a = b then t₂ = t₁ else HandedOver t₁ t₂ a b) ∧
    HandedOver t₂ (t.swap a b).tree b t.size := by
  have hk : t.size < (t.detached []).2.size := (size_alloc t _).symm ▸ Nat.lt_succ_self _
  have hd := h.detached []
  have h₁ : Tied True ((t.detached []).2.replaceContent t.size a) :=
    hd.replaceContent hk (ha.trans hk) (.inl trivial)
  have h₂ : Tied True (((t.detached []).2.replaceContent t.size a).replaceContent a b) :=
    h₁.replaceContent (by simpa using ha.trans hk) (by simpa using hb.trans hk) (.inl trivial)
  rw [swap_tree ha hb]
  refine ⟨_, _, hd.handedOver ha.ne' hk (ha.trans hk), ?_,
    h₂.handedOver hb.ne (by simpa using hb.trans hk) (by simpa using hk)⟩
  by_cases hab : a = b
  · rw [if_pos hab]
    exact if_pos hab
  · rw [if_neg hab]
    exact h₁.handedOver hab (by simpa using ha.trans hk) (by simpa using hb.trans hk)

theorem Tied.exchangedAt (hx : x < t.size) : ExchangedAt t (t.swap a b).tree a b x := by
  obtain ⟨t₁, t₂, h₁, h₂, h₃⟩ := h.handedOver_swap ha hb
  have hat := h₁.exchangedAt h₂ h₃ ha.ne' hb.ne' hx.ne
  have hkids : ∀ p, (t.detached []).2.children p = t.children p := fun p =>
    (children_alloc [] [] none p).1
  have hnode : ∀ {y}, y < t.size → (t.detached []).2.node y = t.node y := fun hy =>
    node_alloc_of_ne hy.ne
  obtain ⟨h1, h2, h3, h4⟩ := hat
  rw [hkids, hkids] at h2
  rw [hnode hx] at h2 h3 h4
  rw [hnode (swap_lt ha hb hx)] at h1
  exact ⟨h1, h2, h3, h4⟩

/-- The fresh node has lost its content again, and stands nowhere. -/
theorem Tied.scratch_swap : ((t.swap a b).tree.node t.size).place = none ∧
    (t.swap a b).tree.below t.size = [] ∧ (t.swap a b).tree.Unlisted t.size := by
  obtain ⟨t₁, t₂, h₁, h₂, h₃⟩ := h.handedOver_swap ha hb
  have hfresh : (t.detached []).2.node t.size = ⟨[], [], none, none, none, [], []⟩ := by
    rw [Tree.detached, node_alloc, if_pos rfl]
  have hplace₂ : (t₂.node t.size).place = none ∧ (t₂.node t.size).expanded = [] := by
    have hplace₁ : (t₁.node t.size).place = none ∧ (t₁.node t.size).expanded = [] := by
      rw [h₁.place, h₁.expanded, hfresh]
      exact ⟨by split <;> rfl, rfl⟩
    by_cases hab : a = b
    · rwa [(if_pos hab).mp h₂]
    · rw [if_neg hab] at h₂
      rw [h₂.place, h₂.expanded, adopted, hplace₁.1]
      exact ⟨by split <;> rfl, hplace₁.2⟩
  have hplace : ((t.swap a b).tree.node t.size).place = none := by
    rw [h₃.place, adopted, hplace₂.1]
    split <;> rfl
  refine ⟨hplace, ?_, fun p hp => ?_⟩
  · rw [below, h₃.emptied, expandedChildren, h₃.expanded]
    exact hplace₂.2
  · have hparent := (h.swap (a := a) (b := b) (.inl trivial)).parent_below hp
    rw [IsParent, Node.parent, hplace] at hparent
    cases hparent

theorem Tied.beside_swap : (t.swap a b).tree.size = t.size + 1 ∧
    (t.swap a b).tree.aside = t.aside := by
  obtain ⟨t₁, t₂, h₁, h₂, h₃⟩ := h.handedOver_swap ha hb
  have h₁₂ : t₂.size = t₁.size ∧ t₂.aside = t₁.aside := by
    split at h₂
    · rw [h₂]
      exact ⟨rfl, rfl⟩
    · exact ⟨h₂.size, h₂.aside⟩
  exact ⟨by rw [h₃.size, h₁₂.1, h₁.size, Tree.detached, size_alloc],
    by rw [h₃.aside, h₁₂.2, h₁.aside]; rfl⟩

end

/-! ## Back again -/

theorem adopted_self (h : t.IsParent c p) : adopted p (t.node c) = t.node c := by
  obtain ⟨⟨q, s⟩, hpl, rfl⟩ := Option.map_eq_some_iff.1 h
  rw [adopted, hpl, Option.map_some, ← hpl]

/-- Contents that are exchanged once more are where they were. -/
theorem ExchangedAt.back {t'' : Tree} (h : Tied circles t) (ha : a < t.size) (hb : b < t.size)
    (hx : x < t.size) (hat : ∀ y < t.size, ExchangedAt t t' a b y)
    (hat' : ExchangedAt t' t'' a b x) : t''.node x = t.node x := by
  have hkids : ∀ y < t.size, t'.children y = t.children (Equiv.swap a b y) := fun y hy =>
    congrArg Content.children (hat y hy).content
  refine Node.eq_of_content ?_ ?_ ?_ ?_
  · rw [hat'.content, (hat _ (swap_lt ha hb hx)).content, Equiv.swap_apply_self]
  · have hback : ∀ {p}, x ∈ t.children p → (adopted p (t'.node x)).place = (t.node x).place :=
      fun hp => by
        rw [place_adopted, (hat x hx).span, ← place_adopted, adopted_self (h.isParent_child hp)]
    have hplace := (hat x hx).place
    rw [hat'.place, hkids a ha, hkids b hb, Equiv.swap_apply_left, Equiv.swap_apply_right]
    split
    · exact hback ‹_›
    · rename_i hxb
      split
      · exact hback ‹_›
      · rename_i hxa
        rwa [if_neg hxa, if_neg hxb] at hplace
  · rw [hat'.fold, (hat x hx).fold]
  · rw [hat'.expanded, (hat x hx).expanded]

/-! ## What the nodes stand for -/

/-- A node `x` resolves to what another node resolved to before if it has the text and the children of
that, the children stand in the text as before, and those that are gone down to resolve as before. -/
theorem resolve_congr (htext : (t'.node x).text = (t.node j).text)
    (hkids : t'.children x = t.children j)
    (hlook : ∀ c ∈ t.children j, (t'.node c).fold = (t.node c).fold ∧
      (t'.node c).span = (t.node c).span)
    (hdown : ∀ c ∈ t.hiddenChildren j, t'.resolve d c = t.resolve d c) :
    t'.resolve (d + 1) x = t.resolve (d + 1) j := by
  rw [resolve, resolve, resolvingEdits, resolvingEdits, htext, hkids]
  refine congrArg (applyEdits _ <| sortByKey _ ·) (List.flatMap_congr fun c hc => ?_)
  obtain ⟨hfold, hspan⟩ := hlook c hc
  dsimp only
  rw [Node.isUnfolded_congr hfold, Node.atoms_congr hfold hspan]
  split
  · rfl
  · rename_i hun
    rw [hdown c (mem_hiddenChildren.2 ⟨hc, by simpa using hun⟩)]

theorem resolve_eq_of_ends (h : Ends t.hiddenChildren d x) (h' : Ends t.hiddenChildren n x) :
    t.resolve d x = t.resolve n x :=
  Option.some.inj ((resolveLoop_eq h (Nat.le_max_left d n) le_rfl).symm.trans
    (resolveLoop_eq h' (Nat.le_max_right d n) le_rfl))

theorem Tied.above_of_under (h : Tied circles t) (hxy : TransGen (Under t.hiddenChildren) x j) :
    t.Above j x := by
  have hstep : ∀ {p c}, Under t.hiddenChildren p c → t.IsParent c p := fun hc =>
    h.isParent_child (mem_hiddenChildren.1 hc).1
  induction hxy with
  | single hc => exact .single (hstep hc)
  | tail _ hc ih => exact .head (hstep hc) ih

section
variable (h : Tied circles t) (hat : ∀ y < t.size, ExchangedAt t t' a b y)
include h hat

/-- Whatever has the content of a node resolves to what that resolved to, if the way down from there
does not come to one of the two nodes. -/
theorem Tied.resolve_exchanged (hx : x < t.size)
    (hclear : ∀ c ∈ t.hiddenChildren (Equiv.swap a b x), ∀ y,
      ReflTransGen (Under t.hiddenChildren) c y → y ≠ a ∧ y ≠ b) :
    (Ends t.hiddenChildren d (Equiv.swap a b x) → Ends t'.hiddenChildren d x) ∧
      t'.resolve d x = t.resolve d (Equiv.swap a b x) := by
  induction d generalizing x with
  | zero => exact ⟨id, congrArg Content.text (hat x hx).content⟩
  | succ d ih =>
    have hkids : t'.children x = t.children (Equiv.swap a b x) :=
      congrArg Content.children (hat x hx).content
    have hlt : ∀ c ∈ t.children (Equiv.swap a b x), c < t.size := fun c hc =>
      (h.isParent_child hc).lt
    have hhidden : t'.hiddenChildren x = t.hiddenChildren (Equiv.swap a b x) := by
      rw [hiddenChildren, hiddenChildren, hkids]
      refine List.filter_congr fun c hc => ?_
      rw [Node.isUnfolded_congr (hat c (hlt c hc)).fold]
    -- the children that are gone down to have their own content still
    have hdown : ∀ c ∈ t.hiddenChildren (Equiv.swap a b x),
        (Ends t.hiddenChildren d c → Ends t'.hiddenChildren d c) ∧
          t'.resolve d c = t.resolve d c := fun c hc => by
      obtain ⟨hca, hcb⟩ := hclear c hc c .refl
      have hsame := Equiv.swap_apply_of_ne_of_ne hca hcb
      have := ih (hlt c (mem_hiddenChildren.1 hc).1) fun k hk y hy =>
        hclear c hc y (.head (hsame ▸ hk) hy)
      rwa [hsame] at this
    refine ⟨fun hends c hc => ?_, resolve_congr (congrArg Content.text (hat x hx).content) hkids
      (fun c hc => ⟨(hat c (hlt c hc)).fold, (hat c (hlt c hc)).span⟩) fun c hc => (hdown c hc).2⟩
    rw [hhidden] at hc
    exact (hdown c hc).1 (hends c hc)

/-- If neither of two different nodes is above the other, the way down from either comes to none of
them. -/
theorem Tied.resolved_exchanged (ha : a < t.size) (hb : b < t.size) (hsize : t.size ≤ t'.size)
    (hnot : a ≠ b → ¬ t.Above a b ∧ ¬ t.Above b a) (hx : x = a ∨ x = b) {steps : Nat} {text : Text}
    (hr : t.resolveLoop steps (Equiv.swap a b x) = some text) :
    t.expandedText (Equiv.swap a b x) = some text ∧ t'.expandedText x = some text ∧
      t'.resolveLoop steps x = some text := by
  have hlt : x < t.size := hx.elim (· ▸ ha) (· ▸ hb)
  have hends := h.ends_of_resolveLoop (Option.isSome_of_eq_some hr)
  have hclear : ∀ c ∈ t.hiddenChildren (Equiv.swap a b x), ∀ y,
      ReflTransGen (Under t.hiddenChildren) c y → y ≠ a ∧ y ≠ b := fun c hc y hy => by
    have hbelow : TransGen (Under t.hiddenChildren) (Equiv.swap a b x) y := .head' hc hy
    have hself : y ≠ Equiv.swap a b x := fun e => hends.irrefl (e ▸ hbelow)
    have hother : y ≠ x := fun e => by
      have hup := h.above_of_under hbelow
      rw [e] at hup hself
      rcases hx with rfl | rfl
      · rw [Equiv.swap_apply_left] at hup hself
        exact (hnot hself).1 hup
      · rw [Equiv.swap_apply_right] at hup hself
        exact (hnot hself.symm).2 hup
    rcases hx with rfl | rfl
    · rw [Equiv.swap_apply_left] at hself
      exact ⟨hother, hself⟩
    · rw [Equiv.swap_apply_right] at hself
      exact ⟨hself, hother⟩
  have hwithin := hends.within (n := t.size) (fun p c hc =>
    (h.isParent_child (mem_hiddenChildren.1 hc).1).lt) (swap_lt ha hb hlt)
  have hback := fun d => h.resolve_exchanged hat (d := d) hlt hclear
  have htext : t.resolve steps (Equiv.swap a b x) = text :=
    Option.some.inj ((resolveLoop_eq hends le_rfl le_rfl).symm.trans hr)
  refine ⟨?_, ?_, ?_⟩
  · rw [expandedText, if_pos (swap_lt ha hb hlt), resolve_eq_of_ends hwithin hends, htext]
  · rw [expandedText, if_pos (hlt.trans_le hsize),
      resolve_eq_of_ends (((hback _).1 hwithin).mono hsize) ((hback _).1 hends), (hback _).2, htext]
  · rw [resolveLoop_eq ((hback _).1 hends) le_rfl le_rfl, (hback _).2, htext]

end

/-! ## Exchange -/

/-- `t'` is `t` with the contents of `a` and `b` exchanged. -/
structure Exchanged (t t' : Tree) (a b : NodeId) : Prop where
  /-- There is one more node, which stands nowhere and lists nothing. -/
  size : t'.size = t.size + 1
  added : (t'.node t.size).place = none ∧ t'.below t.size = [] ∧ t'.Unlisted t.size
  /-- Each of the two has the name, the text, the groups and the children of the other, and all other
  nodes have their own. -/
  content : ∀ x < t.size, (t'.node x).content = (t.node (Equiv.swap a b x)).content
  /-- The parent links of the children follow. -/
  parent : ∀ x < t.size, (t'.node x).parent =
    if x ∈ t.children a then some b else if x ∈ t.children b then some a else (t.node x).parent
  /-- All else is kept by all nodes. -/
  span : ∀ x < t.size, (t'.node x).span = (t.node x).span
  fold : ∀ x < t.size, (t'.node x).fold = (t.node x).fold
  expanded : ∀ x < t.size, t'.expandedChildren x = t.expandedChildren x
  /-- So is what is kept beside the nodes: which of them are ignored and which are unfolded. -/
  aside : t'.aside = t.aside
  /-- The two nodes stay where they are, but for one that has been made its own child before: it is
  among the children that follow. -/
  stays : ∀ x, x = a ∨ x = b → x ∉ t.children x → (t'.node x).place = (t.node x).place
  /-- If there is an end to finding the text that one of the two stands for, then the other stands
  for it afterwards. -/
  texts : ∀ x, x = a ∨ x = b → ∀ steps text, t.resolveLoop steps (Equiv.swap a b x) = some text →
    t.expandedText (Equiv.swap a b x) = some text ∧ t'.expandedText x = some text ∧
      t'.resolveLoop steps x = some text

/-- A swap of nodes of which neither is above the other exchanges what they hold and what they stand
for, and nothing else, whatever has been done to the tree before; a second swap takes it back. -/
theorem Reached.contents_exchanged (h : Reached t) (ha : a < t.size) (hb : b < t.size)
    (hab : t.KeepsAncestry (.swap a b)) :
    (t.swap a b).result = .ok () ∧ Exchanged t (t.swap a b).tree a b ∧
      ((t.swap a b).tree.swap a b).result = .ok () ∧
      ∀ x < t.size, ((t.swap a b).tree.swap a b).tree.node x = t.node x := by
  have ht := h.tied
  obtain ⟨hsize, haside⟩ := ht.beside_swap ha hb
  have hat : ∀ x < t.size, ExchangedAt t (t.swap a b).tree a b x := fun x hx => ht.exchangedAt ha hb hx
  have ht' : Tied True (t.swap a b).tree := ht.swap (.inl trivial)
  have hok : ∀ {u : Tree}, a < u.size → b < u.size → (u.swap a b).result = .ok () := fun ha hb => by
    rw [Tree.swap, if_pos ha, if_pos hb]
    rfl
  have hle : ∀ {x}, x < t.size → x < (t.swap a b).tree.size := fun hx => by omega
  refine ⟨hok ha hb, ⟨hsize, ht.scratch_swap ha hb, fun x hx => (hat x hx).content, fun x hx => ?_,
    fun x hx => (hat x hx).span, fun x hx => (hat x hx).fold, fun x hx => (hat x hx).expanded, haside,
    fun x hx hself => ?_, fun x hx steps text hr =>
      ht.resolved_exchanged hat ha hb (by omega) hab hx hr⟩, hok (hle ha) (hle hb), fun x hx =>
    ExchangedAt.back ht ha hb hx hat (ht'.exchangedAt (hle ha) (hle hb) (hle hx))⟩
  · rw [Node.parent, (hat x hx).place, apply_ite (Option.map _), apply_ite (Option.map _)]
    refine ite_congr rfl (fun hxa => ?_) fun _ => ite_congr rfl (fun hxb => ?_) fun _ => rfl
    · exact adopted_parent (ht.isParent_child hxa) b
    · exact adopted_parent (ht.isParent_child hxb) a
  · have hlt : x < t.size := hx.elim (· ▸ ha) (· ▸ hb)
    have hnot : x ∉ t.children a ∧ x ∉ t.children b := by
      rcases hx with rfl | rfl
      · refine ⟨hself, fun hxb => ?_⟩
        have hne : x ≠ b := fun e => hself (e.symm ▸ hxb)
        exact (hab hne).1 (.single (ht.isParent_child hxb))
      · refine ⟨fun hxa => ?_, hself⟩
        have hne : a ≠ x := fun e => hself (e ▸ hxa)
        exact (hab hne).2 (.single (ht.isParent_child hxa))
    rw [(hat x hlt).place, if_neg hnot.1, if_neg hnot.2]

/-- Hides a part of a text and a part of that, and then another part, which it unfolds. -/
def hideTwiceAndUnfold : List Command :=
  [.hideAll ['k'] ['x', 'y', 'z'] ['#'] ['*'], .hideAll ['m'] ['y'] ['%'] ['k'],
    .hideAll ['n'] ['b'] ['$'] [], .unfold 3 ['<'] ['>']]

/-- One of the nodes has a child, the other is unfolded. -/
theorem contents_exchanged_unfolded :
    let t := (ofText ['a', 'x', 'y', 'z', 'b']).after hideTwiceAndUnfold
    Reached t ∧ 1 < t.size ∧ 3 < t.size ∧ t.KeepsAncestry (.swap 1 3) ∧
      (t.swap 1 3).result = .ok () ∧ Exchanged t (t.swap 1 3).tree 1 3 ∧
      ((t.swap 1 3).tree.swap 1 3).result = .ok () ∧
      ∀ x < t.size, ((t.swap 1 3).tree.swap 1 3).tree.node x = t.node x := by
  have h : Reached ((ofText ['a', 'x', 'y', 'z', 'b']).after hideTwiceAndUnfold) :=
    (Reached.initial (.ofText _ _)).after _
  obtain ⟨hsize, hparent₁, hparent₃⟩ :
      ((ofText ['a', 'x', 'y', 'z', 'b']).after hideTwiceAndUnfold).size = 4 ∧
      (((ofText ['a', 'x', 'y', 'z', 'b']).after hideTwiceAndUnfold).node 1).parent = some root ∧
      (((ofText ['a', 'x', 'y', 'z', 'b']).after hideTwiceAndUnfold).node 3).parent = some root := by
    cbv
  have ha : 1 < ((ofText ['a', 'x', 'y', 'z', 'b']).after hideTwiceAndUnfold).size := by
    rw [hsize]
    decide
  have hb : 3 < ((ofText ['a', 'x', 'y', 'z', 'b']).after hideTwiceAndUnfold).size := by
    rw [hsize]
    decide
  have hab : ((ofText ['a', 'x', 'y', 'z', 'b']).after hideTwiceAndUnfold).KeepsAncestry
      (.swap 1 3) := fun _ =>
    ⟨fun hup => absurd (h.eq_root_of_above hparent₁ hup) (by decide),
      fun hup => absurd (h.eq_root_of_above hparent₃ hup) (by decide)⟩
  exact ⟨h, ha, hb, hab, Reached.contents_exchanged h ha hb hab⟩

end Tree

end GlyphTree
