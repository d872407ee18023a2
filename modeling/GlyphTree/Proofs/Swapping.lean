import GlyphTree.Proofs.Arrangement
import GlyphTree.Proofs.Orders
import GlyphTree.Proofs.RoundTrip

/-!
# Swapping contents

Two nodes that contain neither one the other contribute to the document at two places, and what they
contribute is what they stand for. A swap exchanges just these two contributions, if neither node is
unfolded (`Reachable.swap_exchanges`). An unfolded node keeps its body beside itself, so a swap does
not move that, and what the other node stood for is lost (`not_swap_exchanges`).
-/

namespace GlyphTree

/-! ## Texts with gaps -/

/-- A text with gaps, each of them kept for a node. -/
abbrev Gapped := List (Char ⊕ NodeId)

namespace Gapped

/-- The text with the gaps filled. -/
def plug (r : NodeId → Text) (l : Gapped) : Text := l.flatMap (Sum.elim (fun ch => [ch]) r)

/-- The nodes that the gaps are kept for. -/
def gaps (l : Gapped) : List NodeId := l.filterMap Sum.getRight?

variable {r : NodeId → Text} {l m : Gapped} {ch : Char} {x y : NodeId} {ys : List NodeId}

@[simp] theorem plug_inl : plug r (.inl ch :: l) = ch :: plug r l := rfl
@[simp] theorem plug_inr : plug r (.inr x :: l) = r x ++ plug r l := rfl

theorem plug_append : plug r (l ++ m) = plug r l ++ plug r m := List.flatMap_append

@[simp] theorem gaps_inl : gaps (.inl ch :: l) = gaps l := rfl
@[simp] theorem gaps_inr : gaps (.inr x :: l) = x :: gaps l := rfl

theorem gaps_append : gaps (l ++ m) = gaps l ++ gaps m := List.filterMap_append

theorem plug_of_gaps_nil (h : gaps l = []) : ∃ u, ∀ r, plug r l = u := by
  induction l with
  | nil => exact ⟨[], fun _ => rfl⟩
  | cons a l ih =>
    cases a with
    | inl ch =>
      obtain ⟨u, hu⟩ := ih h
      exact ⟨ch :: u, fun r => by rw [plug_inl, hu]⟩
    | inr x => cases h

theorem plug_of_gaps_cons (h : gaps l = y :: ys) :
    ∃ u m, gaps m = ys ∧ ∀ r, plug r l = u ++ r y ++ plug r m := by
  induction l with
  | nil => cases h
  | cons a l ih =>
    cases a with
    | inl ch =>
      obtain ⟨u, m, hm, hu⟩ := ih h
      exact ⟨ch :: u, m, hm, fun r => by rw [plug_inl, hu]; rfl⟩
    | inr x =>
      obtain ⟨rfl, hl⟩ := List.cons.inj h
      exact ⟨[], l, hl, fun r => rfl⟩

/-- A text with two gaps. -/
theorem plug_of_gaps_pair (h : gaps l = [x, y]) :
    ∃ u v w, ∀ r, plug r l = u ++ r x ++ v ++ r y ++ w := by
  obtain ⟨u, m, hm, hl⟩ := plug_of_gaps_cons h
  obtain ⟨v, n, hn, hm⟩ := plug_of_gaps_cons hm
  obtain ⟨w, hn⟩ := plug_of_gaps_nil hn
  exact ⟨u, v, w, fun r => by rw [hl, hm, hn]; simp⟩

end Gapped

namespace Tree

open Cells Gapped Relation

variable {t t' : Tree} {p x y a b c d : NodeId} {o : Nat} {cs as bs : Cells} {S : List NodeId}

/-! ## Places of contributions -/

/-- Other texts for the nodes of a list. -/
def standIns (S : List NodeId) (r : NodeId → Text) : NodeId → Option Text := fun x =>
  if x ∈ S then some (r x) else none

/-- No node of the list is unfolded, and none of them is below another one. -/
structure Apart (t : Tree) (S : List NodeId) : Prop where
  folded : ∀ x ∈ S, (t.node x).isUnfolded = false
  apart : ∀ x ∈ S, ∀ y ∈ S, y ∈ t.walk x → y = x

section
variable (hs : Shaped t) (hx : x < t.size)
include hs hx

theorem Shaped.mem_walk : y ∈ t.walk x ↔ ReflTransGen (Under t.children) x y :=
  mem_preorder (hs.ranked_children.ends (fun _ _ => hs.listed.lt) hx)

theorem Shaped.nodup_walk : (t.walk x).Nodup :=
  nodup_preorder hs.ranked_children.irrefl (fun _ _ _ => hs.parent_unique) hs.children_nodup
    (hs.ranked_children.ends (fun _ _ => hs.listed.lt) hx)

/-- A node that walks come upon from another node is below it. -/
theorem Shaped.mem_walk_of_child (hc : c ∈ t.children x) (hy : y ∈ t.walk c) :
    y ∈ t.walk x ∧ y ≠ x := by
  have hw := hs.listed.walk_eq hx
  have hmem : y ∈ (t.children x).flatMap t.walk := List.mem_flatMap.2 ⟨c, hc, hy⟩
  refine ⟨hw ▸ List.mem_cons_of_mem _ hmem, fun e => ?_⟩
  have hnd := hs.nodup_walk hx
  rw [hw] at hnd
  exact (List.nodup_cons.1 hnd).1 (e ▸ hmem)

end

/-- An unfolded node has nothing below it. -/
theorem Shaped.walk_unfolded (hs : Shaped t) (h : (t.node x).isUnfolded = true) :
    t.walk x = [x] := by
  have hl := hs.hollow x h
  rw [hs.listed.walk_eq hl.lt, hl.children]
  rfl

/-- Filled cells have a gap where one of their children has one. -/
theorem Fits.gapped (h : t.Fits p o cs) (hs : Shaped t) (hS : Apart t S)
    {f : (NodeId → Text) → NodeId → Text}
    (hc : ∀ c ∈ starts cs, ∃ l : Gapped, (∀ r, f r c = plug r l) ∧
      gaps l = (t.walk c).filter (· ∈ S)) :
    ∃ l : Gapped, (∀ r, fill (f r) cs = plug r l) ∧
      gaps l = ((starts cs).flatMap t.walk).filter (· ∈ S) := by
  induction cs generalizing o with
  | nil => exact ⟨[], fun _ => rfl, rfl⟩
  | cons c cs ih =>
    obtain ⟨ch, m⟩ := c
    rcases m with _ | i | i | i
    · obtain ⟨l, hl, hg⟩ := ih (fits_none.1 h) hc
      exact ⟨.inl ch :: l, fun r => by rw [fill_none, plug_inl, hl], hg⟩
    · obtain ⟨l, hl, hg⟩ := ih (fits_some.1 h).2 fun c hcs => hc c (by simp [hcs])
      obtain ⟨l', hl', hg'⟩ := hc i (by simp)
      refine ⟨l' ++ l, fun r => by rw [fill_glyph, plug_append, hl, hl'], ?_⟩
      rw [gaps_append, hg, hg', starts_glyph, List.flatMap_cons, List.filter_append]
    · -- an unfolded child contributes nothing itself
      obtain ⟨l, hl, hg⟩ := ih (fits_some.1 h).2 fun c hcs => hc c (by simp [hcs])
      have hi : (t.node i).isUnfolded = true := h.isUnfolded (by simp)
      have hiS : i ∉ S := fun hm => Bool.noConfusion (hi.symm.trans (hS.folded i hm))
      refine ⟨l, hl, ?_⟩
      rw [starts_opening, List.flatMap_cons, hs.walk_unfolded hi, List.singleton_append,
        List.filter_cons_of_neg (by simpa using hiS), hg]
    · exact ih (fits_some.1 h).2 hc

/-- What nodes that are apart contribute to a reading has its places there, in the order in which the
walk comes upon them. -/
theorem Shaped.gapped (hs : Shaped t) (hS : Apart t S) (hx : x < t.size) :
    ∃ l : Gapped, (∀ r, t.readingWith (standIns S r) x = plug r l) ∧
      gaps l = (t.walk x).filter (· ∈ S) := by
  obtain ⟨rank, hrank⟩ := hs.ranked
  induction hn : rank x using Nat.strong_induction_on generalizing x with
  | _ n ih =>
    obtain ⟨cs, hl⟩ := hs.layout x hx
    by_cases hxS : x ∈ S
    · have hwalk := hs.listed.walk_eq hx
      refine ⟨[.inr x], fun r => ?_, ?_⟩
      · rw [hs.readingWith_eq hl, standIns, if_pos hxS]
        simp [plug]
      · have hrest : ∀ y ∈ (t.children x).flatMap t.walk, y ∉ S := by
          intro y hy hyS
          obtain ⟨c, hc, hyc⟩ := List.mem_flatMap.1 hy
          obtain ⟨hyw, hyx⟩ := hs.mem_walk_of_child hx hc hyc
          exact hyx (hS.apart x hxS y hyS hyw)
        rw [hwalk, List.filter_cons_of_pos (by simpa using hxS),
          List.filter_eq_nil_iff.2 fun y hy => by simpa using hrest y hy]
        rfl
    · obtain ⟨l, hfill, hg⟩ := hl.fits.gapped hs hS
        (f := fun r => t.readingWith (standIns S r)) fun c hc =>
          ih (rank c) (hn ▸ hrank x c (List.mem_append_left _ (hl.children ▸ hc)))
            (hl.lt_size (hl.children ▸ hc)) rfl
      refine ⟨l, fun r => ?_, ?_⟩
      · rw [hs.readingWith_eq hl, standIns, if_neg hxS]
        exact hfill r
      · rw [hg, hs.listed.walk_eq hx, List.filter_cons_of_neg (by simpa using hxS), hl.children]

theorem Shaped.readingWith_standIns (hs : Shaped t) (hx : x < t.size) :
    t.readingWith (standIns S t.reading) x = t.reading x := by
  refine (hs.readingWith_unique (fun y cs hl => ?_) hx).symm
  rw [standIns]
  split
  · rfl
  · exact hs.reading_eq hl

/-! ## The tree after a swap -/

/-- `t'` is `t` with the contents of two nodes exchanged by way of a third one. -/
structure Swapped (t t' : Tree) (a b k : NodeId) : Prop where
  wellFormed : WellFormed t'
  first : ∀ {cs}, Layout t b cs → Layout t' a cs
  second : ∀ {cs}, Layout t a cs → Layout t' b cs
  other : ∀ {x cs}, Layout t x cs → x ≠ a → x ≠ b → x ≠ k → Layout t' x cs

/-- Of live nodes, one is below another only if the lists of children lead there. -/
theorem Shaped.children_of_below (hs : Shaped t) (hy : y ∈ t.liveOrder)
    (h : ReflTransGen (Under t.below) x y) : ReflTransGen (Under t.children) x y := by
  have hlive := hs.mem_liveOrder.1 hy
  clear hy
  induction hlive with
  | refl =>
    rcases h.cases_tail with rfl | ⟨z, -, hz⟩
    · exact .refl
    · exact absurd hz hs.root_not_below
  | tail _ hc ih =>
    rcases h.cases_tail with rfl | ⟨z, hxz, hz⟩
    · exact .refl
    · obtain rfl := hs.below_unique _ _ _ hz (List.mem_append_left _ hc)
      exact (ih hxz).tail hc

theorem Shaped.not_below_of_walk (hs : Shaped t) (hx : x < t.size) (hy : y ∈ t.liveOrder)
    (h : y ∉ t.walk x) : ¬ TransGen (Under t.below) x y := fun hxy =>
  h ((hs.mem_walk hx).2 (hs.children_of_below hy hxy.to_reflTransGen))

/-- No node gets below itself when two nodes of which neither is below the other exchange their
children. -/
theorem Shaped.acyclic_exchange (hs : Shaped t) (hab : a ≠ b)
    (hna : ¬ TransGen (Under t.below) a b)
    (hnb : ¬ TransGen (Under t.below) b a)
    (hc : ∀ p, ∀ c ∈ t'.below p, c ∈ t.expandedChildren p ∨
      if p = a then c ∈ t.children b else if p = b then c ∈ t.children a
        else c ∈ t.children p) : Acyclic t' := by
  refine (hs.ranked.exchange hna hnb (fun c hcb => ?_) fun p hpa hpb c hcp => ?_).irrefl
  · rcases hcb with hcb | hcb
    · rcases hc a c hcb with hcb | hcb
      · exact .inl (.single (List.mem_append_right _ hcb))
      · exact .inr (.single (List.mem_append_left _ (by simpa using hcb)))
    · rcases hc b c hcb with hcb | hcb
      · exact .inr (.single (List.mem_append_right _ hcb))
      · exact .inl (.single (List.mem_append_left _ (by simpa [hab.symm] using hcb)))
  · rcases hc p c hcp with hcp | hcp
    · exact List.mem_append_right _ hcp
    · exact List.mem_append_left _ (by simpa [hpa, hpb] using hcp)

/-- Contents exchanged by way of a vacant node, if neither node is below the other. -/
theorem WellFormed.exchange {k : NodeId} (hw : WellFormed t) (hk : Vacant t k) (ha : a < t.size)
    (hb : b < t.size) (hka : k ≠ a) (hkb : k ≠ b) (hab : a ≠ b)
    (hau : (t.node a).isUnfolded = false) (hbu : (t.node b).isUnfolded = false)
    (hna : ¬ TransGen (Under t.below) a b) (hnb : ¬ TransGen (Under t.below) b a) :
    Swapped t (((t.replaceContent k a).replaceContent a b).replaceContent b k) a b k := by
  have hs := hw.shaped
  obtain ⟨as, hla⟩ := hs.layout a ha
  obtain ⟨bs, hlb⟩ := hs.layout b hb
  have hchild : ∀ {p}, k ∉ t.children p := fun hp => hk.below _ (List.mem_append_left _ hp)
  -- the vacant node takes what is laid out at the first one
  obtain ⟨hw₁, hv₁⟩ := hw.fill_vacant hk ha hka hau
  have hc₁ := hs.children_replaceContent hka hk.lt ha
  have hk₁ := kept_replaceContent hka hk.lt hla
  have hlk₁ := layout_replaceContent_target hka hk.lt hla hchild
  have hlb₁ := hk₁.layout hs hlb (by simp [hkb.symm, hab.symm])
  have hsize₁ : (t.replaceContent k a).size = t.size := size_replaceContent hka
  have hun₁ := hs.isUnfolded_replaceContent hka hk.lt ha
  -- the first one takes what is laid out at the second one
  have ha₁ : a < (t.replaceContent k a).size := hsize₁ ▸ ha
  have hb₁ : b < (t.replaceContent k a).size := hsize₁ ▸ hb
  have hc₂ := hw₁.shaped.children_replaceContent hab ha₁ hb₁
  have hk₂ := kept_replaceContent hab ha₁ hlb₁
  have hself₂ : a ∉ (t.replaceContent k a).children b := by
    rw [(hc₁ b).1, if_neg hkb.symm, if_neg hab.symm]
    exact fun h => hnb (.single (List.mem_append_left _ h))
  have hla₂ := layout_replaceContent_target hab ha₁ hlb₁ hself₂
  have hlk₂ := hk₂.layout hw₁.shaped hlk₁ (by simp [hka, hkb])
  have hsize₂ : ((t.replaceContent k a).replaceContent a b).size = t.size :=
    (size_replaceContent hab).trans hsize₁
  -- the second one takes what the vacant one has
  have hb₂ : b < ((t.replaceContent k a).replaceContent a b).size := hsize₂ ▸ hb
  have hc₃ := children_replaceContent hkb.symm hb₂ hlk₂
  have hacyc : Acyclic (((t.replaceContent k a).replaceContent a b).replaceContent b k) := by
    refine hs.acyclic_exchange hab hna hnb fun p c hc => ?_
    rw [below, (hc₃ p).1, (hc₃ p).2.1, (hc₂ p).2.1, (hc₁ p).2.1, List.mem_append] at hc
    refine hc.symm.imp_right fun hc => ?_
    simp only [(hc₂ _).1, (hc₁ _).1, hka, hkb, hkb.symm, hab.symm, if_false, if_true] at hc
    by_cases hpb : p = b
    · simpa [hpb, hab.symm] using hc
    · by_cases hpk : p = k
      · simp [hpk, hkb] at hc
      · by_cases hpa : p = a
        · simpa [hpa, hab, hka.symm] using hc
        · simpa [hpb, hpk, hpa] using hc
  obtain ⟨hw₂, hw₃⟩ := hw₁.pass_on hv₁ ha₁ hb₁ hka hkb hab ((hun₁ a).trans hau)
    ((hun₁ b).trans hbu) hacyc
  have hk₃ := kept_replaceContent hkb.symm hb₂ hlk₂
  have hself₃ : b ∉ ((t.replaceContent k a).replaceContent a b).children k := by
    rw [(hc₂ k).1, if_neg hka, if_neg hkb, (hc₁ k).1, if_pos rfl]
    exact fun h => hna (.single (List.mem_append_left _ h))
  exact {
    wellFormed := hw₃
    first := fun hl => by
      rw [hl.unique hlb]
      exact hk₃.layout hw₂.shaped hla₂ (by simp [hab, hka.symm])
    second := fun hl => by
      rw [hl.unique hla]
      exact layout_replaceContent_target hkb.symm hb₂ hlk₂ hself₃
    other := fun hl hxa hxb hxk =>
      hk₃.layout hw₂.shaped (hk₂.layout hw₁.shaped (hk₁.layout hs hl (by simp [hxa, hxk]))
        (by simp [hxa, hxb])) (by simp [hxb, hxk]) }

/-- A swap of nodes of which neither is below the other. -/
theorem WellFormed.swapped (hw : WellFormed t) (ha : a < t.size) (hb : b < t.size) (hab : a ≠ b)
    (hau : (t.node a).isUnfolded = false) (hbu : (t.node b).isUnfolded = false)
    (hna : ¬ TransGen (Under t.below) a b) (hnb : ¬ TransGen (Under t.below) b a) :
    (t.swap a b).result = .ok () ∧ Swapped t (t.swap a b).tree a b t.size := by
  have hkept := kept_detached t []
  have hbelow : (t.detached []).2.below = t.below := by
    funext j
    obtain ⟨h1, h2⟩ := children_alloc (t := t) [] [] none j
    exact congrArg₂ (· ++ ·) h1 h2
  have hnode : ∀ {j}, j < t.size → (t.detached []).2.node j = t.node j := fun hj =>
    node_alloc_of_ne (Nat.ne_of_lt hj)
  have lift : ∀ {x cs}, Layout t x cs → Layout (t.detached []).2 x cs := fun hl =>
    hkept.layout hw.shaped hl List.not_mem_nil
  have h := (hw.faithful_detached []).wellFormed.exchange (hw.shaped.vacant_alloc [])
    (Nat.lt_of_lt_of_le ha hkept.size) (Nat.lt_of_lt_of_le hb hkept.size) (Nat.ne_of_gt ha)
    (Nat.ne_of_gt hb) hab (hnode ha ▸ hau) (hnode hb ▸ hbu) (hbelow ▸ hna) (hbelow ▸ hnb)
  unfold Tree.swap
  rw [if_pos ha, if_pos hb]
  exact ⟨rfl, h.wellFormed, fun hl => h.first (lift hl), fun hl => h.second (lift hl),
    fun hl => h.other (lift hl)⟩

/-! ## Contributions after a swap -/

section
variable {k : NodeId} (h : Swapped t t' a b k) (hs : Shaped t) (hk : t.size ≤ k)
include h hs hk

/-- Where neither of the nodes is contained nothing changes. -/
theorem Swapped.reading_beside (hx : x < t.size) (hxa : a ∉ t.walk x) (hxb : b ∉ t.walk x) :
    t'.reading x = t.reading x := by
  obtain ⟨rank, hrank⟩ := hs.ranked
  induction hn : rank x using Nat.strong_induction_on generalizing x with
  | _ n ih =>
    obtain ⟨cs, hl⟩ := hs.layout x hx
    have hself : x ∈ t.walk x := (hs.mem_walk hx).2 .refl
    have hl' := h.other hl (fun e => hxa (e ▸ hself)) (fun e => hxb (e ▸ hself))
      (Nat.ne_of_lt (Nat.lt_of_lt_of_le hx hk))
    rw [h.wellFormed.shaped.reading_eq hl', hs.reading_eq hl]
    refine hl.fill_congr fun c hc _ => ?_
    exact ih (rank c) (hn ▸ hrank x c (List.mem_append_left _ hc)) (hl.lt_size hc)
      (fun hm => hxa (hs.mem_walk_of_child hx hc hm).1)
      (fun hm => hxb (hs.mem_walk_of_child hx hc hm).1) rfl

/-- What a node that contains no other one of the two is laid out as reads as it did. -/
theorem Swapped.fill_reading (hl : Layout t x cs) (hxa : a ∈ t.walk x → a = x)
    (hxb : b ∈ t.walk x → b = x) : fill t'.reading cs = t.reading x := by
  rw [hs.reading_eq hl]
  refine hl.fill_congr fun c hc _ => ?_
  refine h.reading_beside hs hk (hl.lt_size hc) (fun hm => ?_) fun hm => ?_
  · obtain ⟨hw, hne⟩ := hs.mem_walk_of_child hl.lt hc hm
    exact hne (hxa hw)
  · obtain ⟨hw, hne⟩ := hs.mem_walk_of_child hl.lt hc hm
    exact hne (hxb hw)

/-- After a swap a document reads as before with the contributions of the two nodes exchanged. -/
theorem Swapped.reading (ha : a < t.size) (hb : b < t.size) (hS : Apart t [a, b])
    (hx : x < t.size) : t'.reading x =
      t.readingWith (standIns [a, b] fun y => t.reading (Equiv.swap a b y)) x := by
  have hs' := h.wellFormed.shaped
  obtain ⟨as, hla⟩ := hs.layout a ha
  obtain ⟨bs, hlb⟩ := hs.layout b hb
  have hapart := hS.apart
  have hfa : fill t'.reading as = t.reading a := h.fill_reading hs hk hla
    (hapart a (by simp) a (by simp)) (hapart a (by simp) b (by simp))
  have hfb : fill t'.reading bs = t.reading b := h.fill_reading hs hk hlb
    (hapart b (by simp) a (by simp)) (hapart b (by simp) b (by simp))
  refine hs.readingWith_unique (fun y cs hl => ?_) hx
  rw [standIns]
  by_cases hya : y = a
  · subst hya
    rw [if_pos (by simp), hs'.reading_eq (h.first hlb), Equiv.swap_apply_left, hfb]
    rfl
  · by_cases hyb : y = b
    · subst hyb
      rw [if_pos (by simp), hs'.reading_eq (h.second hla), Equiv.swap_apply_right, hfa]
      rfl
    · rw [if_neg (by simp [hya, hyb])]
      exact hs'.reading_eq
        (h.other hl hya hyb (Nat.ne_of_lt (Nat.lt_of_lt_of_le hl.lt hk)))

end

/-! ## Swaps in reachable trees -/

instance (s : Span) (F : Fold) (region : Span) : Decidable (Between s F region) :=
  inferInstanceAs (Decidable (_ ∧ _))

/-- What a node holds: its children, or the siblings between its markers if it is unfolded. -/
def contents (t : Tree) (x : NodeId) : List NodeId :=
  match (t.node x).fold, (t.node x).place with
  | some F, some ⟨p, region⟩ =>
    (t.children p).filter fun c => Between ((t.node c).span.getD ⟨0, 0⟩) F region
  | _, _ => t.children x

/-- The node lies inside another one. -/
def LiesIn (t : Tree) (y x : NodeId) : Prop := ∃ c ∈ t.contents x, y ∈ t.walk c

instance (t : Tree) (y x : NodeId) : Decidable (t.LiesIn y x) :=
  inferInstanceAs (Decidable (∃ c ∈ t.contents x, y ∈ t.walk c))

theorem contents_of_folded (h : (t.node x).isUnfolded = false) : t.contents x = t.children x := by
  unfold contents
  split
  · rename_i F _ _ hF _
    simp [Node.isUnfolded, hF] at h
  · rfl

theorem Shaped.eq_of_mem_walk (hs : Shaped t) (hx : x < t.size)
    (hun : (t.node x).isUnfolded = false) (hn : ¬ t.LiesIn y x) (hy : y ∈ t.walk x) : y = x := by
  rw [hs.listed.walk_eq hx] at hy
  refine (List.mem_cons.1 hy).resolve_right fun hy => hn ?_
  rw [LiesIn, contents_of_folded hun]
  exact List.mem_flatMap.1 hy

/-- Two nodes in a list without repetitions stand in one of two orders. -/
theorem filter_pair {l : List NodeId} (hl : l.Nodup) (ha : a ∈ l) (hb : b ∈ l) (hab : a ≠ b) :
    ∃ c d, [c, d].Perm [a, b] ∧ l.filter (· ∈ [a, b]) = [c, d] := by
  have hp : (l.filter (· ∈ [a, b])).Perm [a, b] := by
    refine (List.perm_ext_iff_of_nodup (hl.filter _) (by simpa using hab)).2 fun x => ?_
    simp only [List.mem_filter, decide_eq_true_eq, and_iff_right_iff_imp]
    intro hx
    rcases List.mem_cons.1 hx with rfl | hx
    · exact ha
    · exact List.mem_singleton.1 hx ▸ hb
  obtain ⟨c, d, h⟩ := List.length_eq_two.1 hp.length_eq
  exact ⟨c, d, h ▸ hp, h⟩

theorem swap_of_perm (h : [c, d].Perm [a, b]) : Equiv.swap a b c = d ∧ Equiv.swap a b d = c := by
  rcases List.mem_cons.1 (h.subset List.mem_cons_self) with rfl | hc
  · obtain rfl := List.singleton_perm_singleton.1 h.cons_inv
    exact ⟨Equiv.swap_apply_left c d, Equiv.swap_apply_right c d⟩
  · obtain rfl := List.mem_singleton.1 hc
    obtain rfl := List.singleton_perm_singleton.1 (h.trans (.swap ..)).cons_inv
    exact ⟨Equiv.swap_apply_right d c, Equiv.swap_apply_left d c⟩

/-- A swap of two nodes that are not unfolded and of which neither lies inside the other exchanges
what they contribute to the document and keeps all else. -/
theorem Reachable.swap_exchanges (h : Reachable t) (ha : t.isLive a = true)
    (hb : t.isLive b = true) (hab : a ≠ b) (hau : (t.node a).isUnfolded = false)
    (hbu : (t.node b).isUnfolded = false) (hla : ¬ t.LiesIn a b) (hlb : ¬ t.LiesIn b a) :
    (t.perform (.swap a b)).result = .ok .done ∧
      ∃ c d C D u v w, [c, d].Perm [a, b] ∧
        t.expandedText c = some C ∧ t.expandedText d = some D ∧
        (∀ r, t.readingWith (standIns [a, b] r) root = u ++ r c ++ v ++ r d ++ w) ∧
        t.expandedText root = some (u ++ C ++ v ++ D ++ w) ∧
        ((((t.perform (.swap a b)).tree.perform .unhideAll).tree).node? root).map Node.text =
          some (u ++ D ++ v ++ C ++ w) := by
  have hw := h.wellFormed
  have hs := hw.shaped
  have ha' := hs.mem_liveOrder_of_isLive ha
  have hb' := hs.mem_liveOrder_of_isLive hb
  have halt := hs.listed.live_lt ha'
  have hblt := hs.listed.live_lt hb'
  have hwb := hs.eq_of_mem_walk hblt hbu hla
  have hwa := hs.eq_of_mem_walk halt hau hlb
  have hS : Apart t [a, b] := by
    constructor
    · simp [hau, hbu]
    · simpa using ⟨hwa, hwb⟩
  obtain ⟨hr, hsw⟩ := hw.swapped halt hblt hab hau hbu
    (hs.not_below_of_walk halt hb' fun hm => hab (hwa hm).symm)
    (hs.not_below_of_walk hblt ha' fun hm => hab (hwb hm))
  obtain ⟨l, hplug, hgaps⟩ := hs.gapped hS hs.root
  obtain ⟨c, d, hp, hcd⟩ := filter_pair hs.nodup_liveOrder ha' hb' hab
  obtain ⟨u, v, w, huvw⟩ := plug_of_gaps_pair (hgaps.trans hcd)
  have hlt : ∀ x ∈ [a, b], x < t.size := by simp [halt, hblt]
  have hcl : c < t.size := hlt c (hp.subset List.mem_cons_self)
  have hdl : d < t.size := hlt d (hp.subset (List.mem_cons_of_mem c List.mem_cons_self))
  have hread : ∀ r, t.readingWith (standIns [a, b] r) root = u ++ r c ++ v ++ r d ++ w := fun r =>
    (hplug r).trans (huvw r)
  refine ⟨by simp [perform, Outcome.reply, hr, Except.map, Except.mapError], c, d, t.reading c,
    t.reading d, u, v, w, hp, expandedText_eq hcl, expandedText_eq hdl, hread, ?_, ?_⟩
  · rw [expandedText_eq hs.root, ← hread t.reading, hs.readingWith_standIns hs.root]
  · obtain ⟨hc, hd⟩ := swap_of_perm hp
    have := hsw.wellFormed.text?_root_unhideAll
    rw [expandedText_eq hsw.wellFormed.shaped.root,
      hsw.reading hs (Nat.le_refl _) halt hblt hS hs.root, hread] at this
    simp only [hc, hd] at this
    exact this

/-- Hides the middle of a text, a part of that and the first character, and unfolds the first of the
three. -/
def hiddenInside : List Command :=
  [.hideAll ['k'] ['x', 'y', 'z'] ['#'] ['*'], .hideAll ['m'] ['y', 'z'] ['#'] ['k'],
    .hideAll ['n'] ['a'] ['#'] [], .unfold 1 ['<'] ['>']]

set_option maxRecDepth 20000 in
theorem admitsAll_hiddenInside :
    AdmitsAll (ofText ['a', 'x', 'y', 'z', 'b']) hiddenInside := by
  refine ⟨?_, ?_, ?_, trivial, trivial⟩
  · exact admits_hideAll (by cbv)
  · exact admits_hideAll (by cbv)
  · exact admits_hideAll (by cbv)

/-- One of the nodes stands between the markers of the unfolded one, the other beside them. -/
theorem swap_exchanges_hiddenInside :
    let t := (ofText ['a', 'x', 'y', 'z', 'b']).after hiddenInside
    Reachable t ∧ t.isLive 2 = true ∧ t.isLive 3 = true ∧ (t.node 2).isUnfolded = false ∧
      (t.node 3).isUnfolded = false ∧ ¬ t.LiesIn 2 3 ∧ ¬ t.LiesIn 3 2 ∧
      (t.perform (.swap 2 3)).result = .ok .done ∧
      ∃ c d C D u v w, [c, d].Perm [2, 3] ∧
        t.expandedText c = some C ∧ t.expandedText d = some D ∧
        (∀ r, t.readingWith (standIns [2, 3] r) root = u ++ r c ++ v ++ r d ++ w) ∧
        t.expandedText root = some (u ++ C ++ v ++ D ++ w) ∧
        ((((t.perform (.swap 2 3)).tree.perform .unhideAll).tree).node? root).map Node.text =
          some (u ++ D ++ v ++ C ++ w) := by
  have h : Reachable ((ofText ['a', 'x', 'y', 'z', 'b']).after hiddenInside) :=
    (Reachable.initial (.ofText _ _)).after admitsAll_hiddenInside
  -- all that is to be computed, at once, since each run of `cbv` makes the tree anew
  obtain ⟨ha, hb, hau, hbu, hab, hba⟩ :
      ((ofText ['a', 'x', 'y', 'z', 'b']).after hiddenInside).isLive 2 = true ∧
      ((ofText ['a', 'x', 'y', 'z', 'b']).after hiddenInside).isLive 3 = true ∧
      (((ofText ['a', 'x', 'y', 'z', 'b']).after hiddenInside).node 2).isUnfolded = false ∧
      (((ofText ['a', 'x', 'y', 'z', 'b']).after hiddenInside).node 3).isUnfolded = false ∧
      decide (((ofText ['a', 'x', 'y', 'z', 'b']).after hiddenInside).LiesIn 2 3) = false ∧
      decide (((ofText ['a', 'x', 'y', 'z', 'b']).after hiddenInside).LiesIn 3 2) = false := by
    cbv
  have hab := of_decide_eq_false hab
  have hba := of_decide_eq_false hba
  exact ⟨h, ha, hb, hau, hbu, hab, hba,
    Reachable.swap_exchanges h ha hb (by decide) hau hbu hab hba⟩

/-- Hides two characters of a text each for itself, and unfolds the first one. -/
def unfoldedBeside : List Command :=
  [.hideAll ['k'] ['x'] ['#'] ['*'], .hideAll ['m'] ['z'] ['#'] ['*'], .unfold 1 ['<'] ['>']]

set_option maxRecDepth 20000 in
/-- A swap with an unfolded node exchanges no two parts of the document: the body of that node stays
where it is, and what the other one stood for is gone. -/
theorem not_swap_exchanges :
    ¬ ∀ t a b, Reachable t → t.isLive a = true → t.isLive b = true → a ≠ root → b ≠ root →
      a ≠ b → ¬ t.LiesIn a b → ¬ t.LiesIn b a →
      ∃ A B u v w, t.expandedText root = some (u ++ A ++ v ++ B ++ w) ∧
        ((((t.perform (.swap a b)).tree.perform .unhideAll).tree).node? root).map Node.text =
          some (u ++ B ++ v ++ A ++ w) := by
  intro hall
  have ha : AdmitsAll (ofText ['a', 'x', 'y', 'z', 'b']) unfoldedBeside := by
    refine ⟨?_, ?_, trivial, trivial⟩
    · exact admits_hideAll (by cbv)
    · exact admits_hideAll (by cbv)
  obtain ⟨hlive₁, hlive₂, hin₁, hin₂, hb, hf⟩ :
      ((ofText ['a', 'x', 'y', 'z', 'b']).after unfoldedBeside).isLive 1 = true ∧
      ((ofText ['a', 'x', 'y', 'z', 'b']).after unfoldedBeside).isLive 2 = true ∧
      decide (((ofText ['a', 'x', 'y', 'z', 'b']).after unfoldedBeside).LiesIn 1 2) = false ∧
      decide (((ofText ['a', 'x', 'y', 'z', 'b']).after unfoldedBeside).LiesIn 2 1) = false ∧
      ((ofText ['a', 'x', 'y', 'z', 'b']).after unfoldedBeside).expandedText root =
        some ['a', 'x', 'y', 'z', 'b'] ∧
      ((((((ofText ['a', 'x', 'y', 'z', 'b']).after unfoldedBeside).perform
        (.swap 1 2)).tree.perform .unhideAll).tree).node? root).map Node.text =
          some ['a', 'x', 'y', 'b'] := by
    cbv
  obtain ⟨A, B, u, v, w, hbefore, hafter⟩ :=
    hall _ 1 2 ((Reachable.initial (.ofText _ _)).after ha) hlive₁ hlive₂ (by decide)
      (by decide) (by decide) (of_decide_eq_false hin₁) (of_decide_eq_false hin₂)
  have h5 := congrArg (Option.map List.length) (hb.symm.trans hbefore)
  have h4 := congrArg (Option.map List.length) (hf.symm.trans hafter)
  simp only [Option.map_some, Option.some.injEq, List.length_append, List.length_cons,
    List.length_nil] at h4 h5
  omega

end Tree

end GlyphTree
