import GlyphTree.Proofs.Ancestry
import GlyphTree.Proofs.FreshNodes

/-!
# Names

The index of names lists every node once, under the name it has, and nothing else, whatever commands
have led to the tree (`Reached.namesAgree`). So to look a name up in the index is to look at the nodes
themselves, in document order (`Reached.named_eq`).
-/

namespace GlyphTree.Tree

variable {t t' : Tree} {x id : NodeId} {name : Text}

/-- The index of names says of each node which name it has, and says so once. -/
structure NamesAgree (t : Tree) : Prop where
  mem_iff : ∀ name x, (name, x) ∈ t.names.entries ↔ x < t.size ∧ (t.node x).name = name
  once : t.names.entries.Nodup

theorem NamesAgree.enlists (h : NamesAgree t) (he : Enlists t t') : NamesAgree t' := by
  refine ⟨fun name x => ⟨fun hx => ?_, ?_⟩,
    he.once h.once fun e hmem => ((h.mem_iff e.1 e.2).1 hmem).1⟩
  · rcases he.only _ hx with hx | ⟨-, hlt, hname⟩
    · obtain ⟨hlt, hname⟩ := (h.mem_iff name x).1 hx
      exact ⟨hlt.trans_le he.size, (he.name x hlt).trans hname⟩
    · exact ⟨hlt, hname⟩
  · rintro ⟨hlt, rfl⟩
    rcases Nat.lt_or_ge x t.size with hold | hnew
    · rw [he.name x hold]
      exact he.old _ ((h.mem_iff _ x).2 ⟨hold, rfl⟩)
    · exact he.fresh x hnew hlt

theorem rename_of_name_eq {newName : Text} (h : (t.node id).name = newName) :
    t.rename id newName = t := if_pos h

theorem entries_rename {newName : Text} (h : (t.node id).name ≠ newName) :
    (t.rename id newName).names.entries =
      (t.names.entries.filter fun e => !(e.1 = (t.node id).name && e.2 = id)) ++
        [(newName, id)] := by
  rw [rename, if_neg h]
  rfl

theorem NamesAgree.rename (h : NamesAgree t) (hid : id < t.size) (newName : Text) :
    NamesAgree (t.rename id newName) := by
  by_cases hsame : (t.node id).name = newName
  · rwa [rename_of_name_eq hsame]
  have he := entries_rename hsame
  refine ⟨fun name x => ?_, ?_⟩
  · rw [size_rename, node_rename, he, List.mem_append, List.mem_filter, h.mem_iff,
      List.mem_singleton, Prod.mk.injEq]
    by_cases hxid : x = id
    · subst hxid
      rw [if_pos ⟨rfl, hid⟩]
      constructor
      · rintro (⟨⟨-, hname⟩, hgone⟩ | ⟨rfl, -⟩)
        · simp [hname] at hgone
        · exact ⟨hid, rfl⟩
      · rintro ⟨-, hname⟩
        exact .inr ⟨hname.symm, rfl⟩
    · rw [if_neg fun e => hxid e.1]
      simp [hxid]
  · -- the node was not yet listed under its new name
    rw [he]
    refine List.nodup_append.2 ⟨h.once.filter _, List.nodup_singleton _, fun e hmem e' he' heq => ?_⟩
    rw [heq, List.mem_singleton.1 he', List.mem_filter, h.mem_iff] at hmem
    exact hsame hmem.1.2

/-! ## Changes that keep the names -/

theorem enlists_setChildren (t : Tree) (p : NodeId) (ks : List NodeId) :
    Enlists t (t.setChildren p ks) := enlists_modify t p fun _ => rfl

theorem enlists_rewrite (t : Tree) (p : NodeId) (es : List Edit) : Enlists t (t.rewrite p es) :=
  enlists_of_stripped (by simp) (by simp) fun _ => (preserved_rewrite t p es).name

theorem enlists_putChild (t : Tree) (p c : NodeId) (s : Span) : Enlists t (t.putChild p c s) :=
  enlists_of_stripped (by simp) (by simp) fun _ => (preserved_putChild t p c s).name

theorem enlists_moveChild (t : Tree) (q : NodeId) (sub add : Nat) (c : NodeId) :
    Enlists t (t.moveChild q sub add c) :=
  enlists_of_stripped (by simp) (by simp) fun _ => (preserved_moveChild t q sub add c).name

theorem enlists_folds (t : Tree) (folds : List NodeId) : Enlists t { t with folds } :=
  enlists_of_names rfl rfl fun _ => rfl

theorem enlists_unfoldAt (t : Tree) (id : NodeId) (p : Place) (f : Fold) :
    Enlists t (t.unfoldAt id p f) := by
  refine .trans ?_ (enlists_folds _ _)
  refine .trans ?_ (enlists_putChild _ _ _ _)
  refine .trans ?_ (enlists_modify _ _ fun _ => rfl)
  refine .trans ?_ (enlists_foldl (fun t c => enlists_moveChild t _ _ _ c) _ _)
  refine .trans ?_ (enlists_modify _ _ fun _ => rfl)
  exact (enlists_setChildren t _ _).trans (enlists_rewrite _ _ _)

theorem enlists_unfold (t : Tree) (id : NodeId) (openLabel closeLabel : Text) :
    Enlists t (t.unfold id openLabel closeLabel).tree := by
  unfold unfold
  split <;> try exact .refl t
  split
  · exact .refl t
  · split
    · exact .refl t
    · split
      · exact .refl t
      · exact enlists_unfoldAt t _ _ _

theorem enlists_foldEach (ids : List NodeId) (t : Tree) : Enlists t (foldEach ids t).tree := by
  induction ids generalizing t with
  | nil => exact .refl t
  | cons id ids ih =>
    rw [foldEach]
    split
    · exact ih t
    · next t' events he =>
      have hback : Enlists t t' := by
        unfold foldBack at he
        split at he
        · split at he
          · obtain rfl := (Prod.mk.inj (Option.some.inj he)).1
            exact (enlists_setChildren t _ _).trans (enlists_splice _ _ _)
          · cases he
        · cases he
      exact hback.trans (ih t')

theorem enlists_foldAll (t : Tree) : Enlists t t.foldAll.tree :=
  (enlists_folds t []).trans (enlists_foldEach _ _)

theorem enlists_unhideAll (t : Tree) : Enlists t t.unhideAll.tree := by
  refine Outcome.tree_andThen (enlists_foldAll t) fun _ h _ =>
    h.trans (enlists_foldl (fun t id => ?_) _ _)
  exact ((enlists_setChildren t id []).trans (enlists_rewrite _ _ _)).trans
    (enlists_modify _ _ fun _ => rfl)

theorem enlists_replaceAll (t : Tree) (old new target : Text) :
    Enlists t (t.replaceAll old new target).tree := by
  have heach : ∀ ids t, Enlists t (replaceEach old new ids t).2 := fun ids => by
    induction ids with
    | nil => exact .refl
    | cons id ids ih => exact fun t => (enlists_rewrite t id _).trans (ih _)
  unfold replaceAll
  split
  · exact .refl t
  · exact heach _ t

/-! ## Commands -/

theorem NamesAgree.replaceContent (h : NamesAgree t) {target : NodeId} (ht : target < t.size)
    (source : NodeId) : NamesAgree (t.replaceContent target source) := by
  by_cases hne : target = source
  · rw [Tree.replaceContent, if_pos hne]
    exact h
  · rw [replaceContent_eq hne]
    refine (h.rename ht (t.node source).name).enlists ?_
    refine .trans (.trans (enlists_setChildren _ source []) ?_) (enlists_modify _ _ fun _ => rfl)
    exact enlists_foldl (fun t c => enlists_modify (f := adopted target) t c fun _ => rfl) _ _

theorem NamesAgree.swap (h : NamesAgree t) (a b : NodeId) : NamesAgree (t.swap a b).tree := by
  by_cases ha : a < t.size
  · by_cases hb : b < t.size
    · have h₀ : NamesAgree (t.detached []).2 := h.enlists (enlists_alloc t _)
      have hscratch : t.size < (t.detached []).2.size := by simp [detached]
      have h₁ := h₀.replaceContent hscratch a
      have h₂ := h₁.replaceContent (by simpa using ha.trans hscratch) b
      rw [swap_tree ha hb]
      exact h₂.replaceContent (by simpa using hb.trans hscratch) t.size
    · rw [Tree.swap, if_pos ha, if_neg hb]
      exact h
  · rw [Tree.swap, if_neg ha]
    exact h

theorem NamesAgree.renameAll (h : NamesAgree t) (newName scope oldName : Text) :
    NamesAgree (t.renameAll newName scope oldName).2 := by
  have hall : ∀ (ids : List NodeId) t, NamesAgree t → (∀ id ∈ ids, id < t.size) →
      NamesAgree (ids.foldl (fun t id => t.rename id newName) t) := fun ids => by
    induction ids with
    | nil => exact fun t h _ => h
    | cons id ids ih =>
      intro t h hids
      obtain ⟨hid, hids⟩ := List.forall_mem_cons.1 hids
      exact ih _ (h.rename hid newName) fun x hx => (size_rename t id newName).symm ▸ hids x hx
  refine hall _ t h fun id hid => ?_
  have hids := (List.mem_filter.1 (List.mem_filter.1 hid).1).2
  exact ((h.mem_iff oldName id).1 (mem_ids.1 (List.contains_iff_mem.1 hids))).1

/-- No single operation leaves a name behind in the index or forgets one. -/
theorem NamesAgree.perform_single (h : NamesAgree t) {c : Command} (hc : c.isSingle = true) :
    NamesAgree (t.perform c).tree := by
  have hbeside : ∀ {u : Tree}, u.names = t.names → u.nodes = t.nodes → NamesAgree u := fun hn hs =>
    h.enlists (enlists_of_names hn (by rw [size, size, hs]) fun x => by rw [node, node, hs])
  cases c with
  | define label =>
    simp only [perform, Outcome.reply, define]
    split
    · exact h
    · exact hbeside rfl rfl
  | defineMacro label body =>
    simp only [perform, Outcome.reply, defineMacro]
    split
    · exact h
    · exact hbeside rfl rfl
  | hideAll => exact h.enlists (enlists_hideMatches ..)
  | hideAny => exact h.enlists (enlists_hideMatches ..)
  | hideGroup => exact h.enlists (enlists_hideGroup ..)
  | hideRest => exact h.enlists (enlists_hideRest ..)
  | unhideAll => exact h.enlists (enlists_unhideAll t)
  | unfold => exact h.enlists (enlists_unfold ..)
  | foldAll => exact h.enlists (enlists_foldAll t)
  | replaceAll => exact h.enlists (enlists_replaceAll ..)
  | ignoreAll | unignoreAll => exact hbeside rfl rfl
  | renameAll newName scope oldName => exact h.renameAll newName scope oldName
  | renameNode id name =>
    simp only [perform, Outcome.reply, renameNode]
    split
    · exact h.rename ‹_› name
    · exact h
  | replaceNode target source =>
    simp only [perform, Outcome.reply, replaceNode]
    split
    · split
      · exact h.replaceContent ‹_› source
      · exact h
    · exact h
  | swap => exact h.swap _ _
  | detached text => exact h.enlists (enlists_alloc t _)
  | getNode name =>
    simp only [perform, getNode]
    split <;> exact hbeside rfl rfl
  | resetNode name => exact hbeside rfl rfl
  | run => cases hc

theorem namesAgree_ofText (text : Text) (config : Config) : NamesAgree (ofText text config) := by
  have hempty : NamesAgree ⟨#[], ⟨[]⟩, ⟨[]⟩, [], [], .empty config.glyphPool, config⟩ :=
    ⟨fun _ _ => ⟨fun hx => absurd hx List.not_mem_nil, fun hx => absurd hx.1 (Nat.not_lt_zero _)⟩,
      .nil⟩
  exact hempty.enlists (enlists_alloc _ _)

theorem Initial.namesAgree (h : Initial t) : NamesAgree t :=
  h.induct namesAgree_ofText (fun name hroot hi => hi.rename hroot name) fun _ _ _ hi =>
    hi.enlists ((enlists_alloc _ _).trans (enlists_modify _ _ fun _ => rfl))

/-- Whatever commands lead to a tree, its index of names agrees with its nodes. -/
theorem Reached.namesAgree (h : Reached t) : NamesAgree t := by
  induction h with
  | initial h => exact h.namesAgree
  | step _ ih => exact perform_induct (fun h hc => h.perform_single hc) _ ih

/-- To look a name up is to go through all nodes in document order. -/
theorem Reached.named_eq (h : Reached t) (name : Text) :
    t.named name = t.documentOrder.filter fun x => (t.node x).name = name := by
  refine List.filter_congr fun x hx => ?_
  rw [Bool.eq_iff_iff, List.contains_iff_mem, decide_eq_true_eq, mem_ids, h.namesAgree.mem_iff]
  exact and_iff_right (h.tied.lt_of_mem_documentOrder hx)

end GlyphTree.Tree
