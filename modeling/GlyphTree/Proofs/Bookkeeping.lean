import GlyphTree.Proofs.Failures

/-!
# Bookkeeping

What a tree keeps beside its nodes: the index of names and the set of ignored nodes. Both only ever
hold numbers of nodes (`Registered`), whatever commands led to the tree. Pipelines need no proof of
their own for that: the tree they leave is one that the commands of their passes lead to
(`run_leadsTo`).
-/

namespace GlyphTree

/-- Whether a command is a single operation and no pipeline. -/
def Command.isSingle : Command → Bool
  | .run _ => false
  | _ => true

/-- Whether a command is a single operation that leaves the labels and the ignored nodes as they
are. -/
def Command.keepsBooks : Command → Bool
  | .define _ | .defineMacro .. | .ignoreAll _ | .unignoreAll | .run _ => false
  | _ => true

/-- The commands that a pass is made of. -/
def Pass.steps : Pass → List Command
  | define label none => [.define label]
  | define label (some body) => [.defineMacro label body]
  | hideAll name pattern label target => [.hideAll name pattern label target]
  | hideNested name pattern label target content newName =>
    .hideAny name pattern label target ::
      (content.toList.map (fun p => .hideGroup p.name p.label p.group.toNat target name) ++
        newName.toList.map (.renameAll · target name))
  | hideGroup name label group target source => [.hideGroup name label group.toNat target source]
  | hideRest name label target => [.hideRest name label target]
  | ignore name => [.ignoreAll name]
  | unignore => [.unignoreAll]
  | rename name target source => [.renameAll name target source]
  | replaceAll old new target => [.replaceAll old new target]

theorem Pass.isSingle_of_mem_steps {p : Pass} {c : Command} (h : c ∈ p.steps) :
    c.isSingle = true := by
  cases p with
  | define label body =>
    cases body <;> exact List.mem_singleton.1 h ▸ rfl
  | hideNested =>
    rcases List.mem_cons.1 h with rfl | h
    · rfl
    · rcases List.mem_append.1 h with h | h
      · obtain ⟨_, -, rfl⟩ := List.mem_map.1 h
        rfl
      · obtain ⟨_, -, rfl⟩ := List.mem_map.1 h
        rfl
  | _ => exact List.mem_singleton.1 h ▸ rfl

namespace Tree

variable {t t' t'' : Tree} {id : NodeId}

/-! ## Pipelines as histories -/

/-- A history of the given commands leads from one tree to another. If `solid` holds, each of the
commands is admitted. -/
def LeadsTo (solid : Prop) (commands : List Command) (t t' : Tree) : Prop :=
  ∃ history, (∀ c ∈ history, c ∈ commands) ∧ (solid → AdmitsAll t history) ∧ t' = t.after history

section
variable {solid : Prop} {commands commands' : List Command} {c : Command}

theorem LeadsTo.refl (t : Tree) : LeadsTo solid commands t t := ⟨[], by simp, fun _ => trivial, rfl⟩

theorem LeadsTo.trans (h : LeadsTo solid commands t t') (h' : LeadsTo solid commands t' t'') :
    LeadsTo solid commands t t'' := by
  obtain ⟨history, hc, ha, rfl⟩ := h
  obtain ⟨history', hc', ha', rfl⟩ := h'
  refine ⟨history ++ history', fun c hmem => ?_, fun hs => (ha hs).append (ha' hs),
    (List.foldl_append ..).symm⟩
  exact (List.mem_append.1 hmem).elim (hc c) (hc' c)

theorem LeadsTo.step (h : LeadsTo solid commands t t') (hc : c ∈ commands)
    (ha : solid → t'.Admits c) : LeadsTo solid commands t (t'.perform c).tree :=
  h.trans ⟨[c], fun _ hd => List.mem_singleton.1 hd ▸ hc, fun hs => ⟨ha hs, trivial⟩, rfl⟩

theorem LeadsTo.mono (h : LeadsTo solid commands t t') (hsub : commands ⊆ commands') :
    LeadsTo solid commands' t t' := by
  obtain ⟨history, hc, ha, rfl⟩ := h
  exact ⟨history, fun c hmem => hsub (hc c hmem), ha, rfl⟩

end

section
variable {solid : Prop} {name pattern label target : Text} {content : Option Promotion}
  {newName : Option Text}

theorem finishRound_leadsTo
    (hs : solid → ∀ p ∈ content, t.SolidGroup p.name p.label p.group.toNat target name) :
    LeadsTo solid (Pass.hideNested name pattern label target content newName).steps t
      (t.finishRound name target content newName).tree := by
  refine Outcome.tree_andThen ?_ fun _ h _ => ?_
  · cases content with
    | none => exact .refl t
    | some p =>
      exact (LeadsTo.refl t).step
        (c := .hideGroup p.name p.label p.group.toNat target name) (by simp [Pass.steps])
        fun h => hs h p rfl
  · cases newName with
    | none => exact h
    | some newName =>
      exact h.step (c := .renameAll newName target name) (by simp [Pass.steps]) fun _ => trivial

theorem nestedRounds_leadsTo (rounds : Nat) {left : Nat}
    (hs : solid → SolidRounds name pattern label target content newName left t) :
    LeadsTo solid (Pass.hideNested name pattern label target content newName).steps t
      (nestedRounds name pattern label target content newName rounds left t).tree := by
  induction left generalizing t rounds with
  | zero => exact .refl t
  | succ left ih =>
    have hhide : LeadsTo solid (Pass.hideNested name pattern label target content newName).steps t
        (t.hideAny name pattern label target).tree :=
      (LeadsTo.refl t).step (c := .hideAny name pattern label target) List.mem_cons_self
        fun h => (hs h).1
    refine Outcome.tree_andThen hhide fun hidden _ hr => ?_
    cases hidden with
    | false => exact hhide
    | true =>
      rw [if_pos rfl]
      have hround : LeadsTo solid (Pass.hideNested name pattern label target content newName).steps
          (t.hideAny name pattern label target).tree _ :=
        finishRound_leadsTo fun h => ((hs h).2 hr).1
      refine Outcome.tree_andThen (hhide.trans hround) fun _ h hf => ?_
      exact h.trans (ih (rounds + 1) fun h => ((hs h).2 hr).2 hf)

/-- What a pass leaves is a tree that its commands lead to. -/
theorem runPass_leadsTo {p : Pass} (hs : solid → t.SolidPass p) :
    LeadsTo solid p.steps t (t.runPass p).tree := by
  cases p with
  | define label body =>
    cases body with
    | none =>
      exact (LeadsTo.refl t).step (c := .define label) List.mem_cons_self fun _ => trivial
    | some body =>
      exact (LeadsTo.refl t).step (c := .defineMacro label body) List.mem_cons_self
        fun _ => trivial
  | hideAll name pattern label target =>
    exact (LeadsTo.refl t).step (c := .hideAll name pattern label target) List.mem_cons_self hs
  | hideNested => exact Outcome.tree_andThen (nestedRounds_leadsTo 0 hs) fun _ h _ => h
  | hideGroup name label group target source =>
    exact (LeadsTo.refl t).step (c := .hideGroup name label group.toNat target source)
      List.mem_cons_self hs
  | hideRest name label target =>
    exact (LeadsTo.refl t).step (c := .hideRest name label target) List.mem_cons_self
      fun _ => trivial
  | ignore name =>
    exact (LeadsTo.refl t).step (c := .ignoreAll name) List.mem_cons_self fun _ => trivial
  | unignore => exact (LeadsTo.refl t).step (c := .unignoreAll) List.mem_cons_self fun _ => trivial
  | rename name target source =>
    exact (LeadsTo.refl t).step (c := .renameAll name target source) List.mem_cons_self
      fun _ => trivial
  | replaceAll old new target =>
    exact (LeadsTo.refl t).step (c := .replaceAll old new target) List.mem_cons_self
      fun _ => trivial

/-- What a pipeline leaves, also where it fails, is a tree that the commands of its passes lead
to. -/
theorem run_leadsTo {pipeline : Pipeline} (hs : solid → SolidRun pipeline t) :
    LeadsTo solid (pipeline.flatMap Pass.steps) t (t.run pipeline).tree := by
  rw [run]
  generalize 0 = index
  induction pipeline generalizing t index with
  | nil => exact .refl t
  | cons p ps ih =>
    have hp : LeadsTo solid ((p :: ps).flatMap Pass.steps) t (t.runPass p).tree :=
      (runPass_leadsTo fun h => (hs h).1).mono fun c hc =>
        List.mem_flatMap.2 ⟨p, List.mem_cons_self, hc⟩
    rw [runFrom]
    dsimp only
    split
    · exact hp
    · next hr =>
      have hps : LeadsTo solid ((p :: ps).flatMap Pass.steps) (t.runPass p).tree
          (runFrom (index + 1) ps (t.runPass p).tree).tree :=
        (ih (fun h => (hs h).2 hr) (index + 1)).mono fun c hc => by
          rw [List.flatMap_cons]
          exact List.mem_append_right _ hc
      exact hp.trans hps

end

/-! ## Trees that grow -/

/-- From one tree to the other no node goes away, the set of ignored nodes, the configuration
and the labels stay, and whatever comes into the index of names is a node. -/
structure Grows (t t' : Tree) : Prop where
  size : t.size ≤ t'.size
  ignored : t'.ignored = t.ignored
  config : t'.config = t.config
  labels : t'.labels = t.labels
  names : ∀ e ∈ t'.names.entries, e ∈ t.names.entries ∨ e.2 < t'.size

theorem Grows.refl (t : Tree) : Grows t t := ⟨Nat.le_refl _, rfl, rfl, rfl, fun _ he => .inl he⟩

theorem Grows.trans (h : Grows t t') (h' : Grows t' t'') : Grows t t'' where
  size := Nat.le_trans h.size h'.size
  ignored := h'.ignored.trans h.ignored
  config := h'.config.trans h.config
  labels := h'.labels.trans h.labels
  names e he := by
    rcases h'.names e he with he | hlt
    · exact (h.names e he).imp_right (Nat.lt_of_lt_of_le · h'.size)
    · exact .inr hlt

/-- Changes of nodes alone. -/
theorem grows_of_stripped (h : t'.stripped = t.stripped) (hs : t'.size = t.size) : Grows t t' where
  size := Nat.le_of_eq hs.symm
  ignored := show t'.stripped.ignored = t.stripped.ignored by rw [h]
  config := show t'.stripped.config = t.stripped.config by rw [h]
  labels := show t'.stripped.labels = t.stripped.labels by rw [h]
  names e he := .inl (show e ∈ t.stripped.names.entries by rwa [← h])

theorem grows_folds (t : Tree) (folds : List NodeId) : Grows t { t with folds } :=
  ⟨Nat.le_refl _, rfl, rfl, rfl, fun _ he => .inl he⟩

theorem grows_cursors (t : Tree) (cursors : Cursors) : Grows t { t with cursors } :=
  ⟨Nat.le_refl _, rfl, rfl, rfl, fun _ he => .inl he⟩

theorem grows_foldl {α : Type} {f : Tree → α → Tree} (h : ∀ t a, Grows t (f t a)) (l : List α)
    (t : Tree) : Grows t (l.foldl f t) := by
  induction l generalizing t with
  | nil => exact .refl t
  | cons a l ih => exact (h t a).trans (ih (f t a))

theorem grows_modify (t : Tree) (id : NodeId) (f : Node → Node) : Grows t (t.modify id f) :=
  grows_of_stripped rfl (size_modify t id f)

theorem grows_alloc (t : Tree) (n : Node) : Grows t (t.alloc n) where
  size := by simp
  ignored := rfl
  config := rfl
  labels := rfl
  names e he := by
    refine (List.mem_append.1 he).imp_right fun h => ?_
    rw [List.mem_singleton.1 h, size_alloc]
    exact Nat.lt_succ_self _

theorem grows_rename (h : id < t.size) (name : Text) : Grows t (t.rename id name) := by
  have hsize := size_rename t id name
  unfold rename at hsize ⊢
  dsimp only at hsize ⊢
  split
  · exact .refl t
  · refine ⟨by simp [size, modify], rfl, rfl, rfl, fun e he => ?_⟩
    rcases List.mem_append.1 he with he | he
    · exact .inl (List.mem_filter.1 he).1
    · rw [List.mem_singleton.1 he]
      exact .inr (by simpa [size, modify] using h)

theorem labels_rename (t : Tree) (id : NodeId) (name : Text) :
    (t.rename id name).labels = t.labels := by
  unfold rename
  dsimp only
  split <;> rfl

/-! ## Single operations -/

theorem grows_settle (t : Tree) (p : NodeId) (text : Text) (es : List Edit) (c : Cut)
    (moved : List NodeId) : Grows t (t.settle p text es c moved) := by
  have hprepare : Grows t (t.prepare text c).1 := by
    unfold prepare
    split
    · exact grows_alloc t _
    · exact grows_modify t _ _
  refine hprepare.trans (grows_of_stripped ?_ ?_)
  · simp [settle]
  · simp [settle]

theorem grows_settleAll (p : NodeId) (text : Text) (es : List Edit) (cuts : List Cut)
    (kids : List (NodeId × Span)) (t : Tree) : Grows t (settleAll p text es cuts kids t) := by
  induction cuts generalizing kids t with
  | nil => exact .refl t
  | cons c cuts ih => exact (grows_settle t p text es c _).trans (ih _ _)

theorem grows_splice (t : Tree) (p : NodeId) (cuts : List Cut) : Grows t (t.splice p cuts) :=
  (grows_of_stripped (by simp) (by simp)).trans (grows_settleAll ..)

theorem grows_applyPlan (t : Tree) (plan : Plan) : Grows t (t.applyPlan plan) :=
  grows_foldl (fun t x => by
    dsimp only
    split
    · exact .refl t
    · exact grows_splice t _ _) plan t

theorem grows_hideMatches (t : Tree) (name pattern label target : Text) :
    Grows t (t.hideMatches name pattern label target).tree :=
  hideMatches_tree t name pattern label target ▸ grows_applyPlan t _

theorem grows_hideGroup (t : Tree) (name label : Text) (group : Nat) (scope source : Text) :
    Grows t (t.hideGroup name label group scope source).tree :=
  hideGroup_tree t name label group scope source ▸ grows_applyPlan t _

theorem grows_hideRest (t : Tree) (name label target : Text) :
    Grows t (t.hideRest name label target).tree :=
  hideRest_tree t name label target ▸ grows_applyPlan t _

theorem grows_replaceEach (old new : Text) (ids : List NodeId) (t : Tree) :
    Grows t (replaceEach old new ids t).2 := by
  induction ids generalizing t with
  | nil => exact .refl t
  | cons id ids ih => exact (grows_of_stripped (by simp) (by simp)).trans (ih _)

theorem grows_replaceAll (t : Tree) (old new target : Text) :
    Grows t (t.replaceAll old new target).tree := by
  unfold replaceAll
  split
  · exact .refl t
  · exact grows_replaceEach old new _ t

theorem grows_replaceContent {target : NodeId} (h : target < t.size) (source : NodeId) :
    Grows t (t.replaceContent target source) := by
  by_cases hne : target = source
  · rw [replaceContent, if_pos hne]
    exact .refl t
  · rw [replaceContent_eq hne]
    refine (grows_rename h (t.node source).name).trans (grows_of_stripped ?_ ?_)
    · simp [stripped_foldl_modify]
    · simp [size_foldl_modify]

theorem grows_replaceNode (t : Tree) (target source : NodeId) :
    Grows t (t.replaceNode target source).tree := by
  unfold replaceNode
  split
  · split
    · exact grows_replaceContent ‹_› source
    · exact .refl t
  · exact .refl t

theorem grows_swap (t : Tree) (a b : NodeId) : Grows t (t.swap a b).tree := by
  by_cases ha : a < t.size
  · by_cases hb : b < t.size
    · have h₀ : Grows t (t.detached []).2 := grows_alloc t _
      have hscratch : t.size < (t.detached []).2.size := by simp [detached]
      have h₁ := h₀.trans (grows_replaceContent hscratch a)
      have h₂ := h₁.trans (grows_replaceContent (Nat.lt_of_lt_of_le ha h₁.size) b)
      rw [swap_tree ha hb]
      exact h₂.trans (grows_replaceContent (Nat.lt_of_lt_of_le hb h₂.size) t.size)
    · rw [swap, if_pos ha, if_neg hb]
      exact .refl t
  · rw [swap, if_neg ha]
    exact .refl t

theorem grows_unfold (t : Tree) (id : NodeId) (openLabel closeLabel : Text) :
    Grows t (t.unfold id openLabel closeLabel).tree := by
  have hat : ∀ p f, Grows t (t.unfoldAt id p f) := fun p f =>
    (grows_of_stripped (by simp) (by simp)).trans (grows_folds _ _)
  unfold unfold
  split
  · exact .refl t
  · exact .refl t
  · exact .refl t
  · split
    · exact .refl t
    · split
      · exact .refl t
      · split
        · exact .refl t
        · exact hat _ _

theorem grows_foldEach (ids : List NodeId) (t : Tree) : Grows t (foldEach ids t).tree := by
  induction ids generalizing t with
  | nil => exact .refl t
  | cons id ids ih =>
    rw [foldEach]
    split
    · exact ih t
    · next t' events he =>
      have hback : Grows t t' := by
        unfold foldBack at he
        split at he
        · split at he
          · obtain rfl := (Prod.mk.inj (Option.some.inj he)).1
            exact (grows_modify t _ _).trans (grows_splice _ _ _)
          · cases he
        · cases he
      exact hback.trans (ih t')

theorem grows_foldAll (t : Tree) : Grows t t.foldAll.tree :=
  (grows_folds t []).trans (grows_foldEach _ _)

theorem grows_unhideAll (t : Tree) : Grows t t.unhideAll.tree := by
  refine Outcome.tree_andThen (grows_foldAll t) fun _ h _ => h.trans (grows_foldl (fun t id => ?_) _ _)
  exact grows_of_stripped (by simp [expandChildren]) (by simp [expandChildren])

/-! ## Registered trees -/

/-- The index of names and the set of ignored nodes hold only numbers of nodes. -/
structure Registered (t : Tree) : Prop where
  names : ∀ e ∈ t.names.entries, e.2 < t.size
  ignored : ∀ id ∈ t.ignored, id < t.size

theorem Registered.grows (h : Registered t) (g : Grows t t') : Registered t' where
  names e he := (g.names e he).elim (fun he => Nat.lt_of_lt_of_le (h.names e he) g.size) id
  ignored id hid := Nat.lt_of_lt_of_le (h.ignored id (g.ignored ▸ hid)) g.size

theorem Registered.lt_of_ids (h : Registered t) {name : Text} (hid : id ∈ t.names.ids name) :
    id < t.size := by
  obtain ⟨e, he, rfl⟩ := List.mem_map.1 hid
  exact h.names e (List.mem_filter.1 he).1

theorem Registered.lt_of_named (h : Registered t) {name : Text} (hid : id ∈ t.named name) :
    id < t.size := by
  have hids := (List.mem_filter.1 hid).2
  rw [List.contains_iff_mem] at hids
  exact h.lt_of_ids hids

theorem grows_foldl_rename (newName : Text) {ids : List NodeId} (h : ∀ id ∈ ids, id < t.size) :
    Grows t (ids.foldl (fun t id => t.rename id newName) t) := by
  induction ids generalizing t with
  | nil => exact .refl t
  | cons id ids ih =>
    obtain ⟨hid, hids⟩ := List.forall_mem_cons.1 h
    refine (grows_rename hid newName).trans (ih fun i hi => ?_)
    rw [size_rename]
    exact hids i hi

theorem Registered.grows_renameAll (h : Registered t) (newName scope oldName : Text) :
    Grows t (t.renameAll newName scope oldName).2 :=
  grows_foldl_rename newName fun _ hid => h.lt_of_named (List.mem_filter.1 hid).1

/-- Commands that leave the books alone let the tree grow. -/
theorem Registered.grows_perform (h : Registered t) {c : Command} (hc : c.keepsBooks = true) :
    Grows t (t.perform c).tree := by
  cases c with
  | hideAll => exact grows_hideMatches ..
  | hideAny => exact grows_hideMatches ..
  | hideGroup => exact grows_hideGroup ..
  | hideRest => exact grows_hideRest ..
  | unhideAll => exact grows_unhideAll t
  | unfold => exact grows_unfold ..
  | foldAll => exact grows_foldAll t
  | replaceAll => exact grows_replaceAll ..
  | renameAll newName scope oldName => exact h.grows_renameAll newName scope oldName
  | renameNode id name =>
    simp only [perform, Outcome.reply, renameNode]
    split
    · exact grows_rename ‹_› name
    · exact .refl t
  | replaceNode => exact grows_replaceNode ..
  | swap => exact grows_swap ..
  | detached text => exact grows_alloc t _
  | getNode name =>
    simp only [perform, getNode]
    split
    · exact grows_cursors t _
    · exact grows_cursors t _
  | resetNode name => exact grows_cursors t _
  | define | defineMacro | ignoreAll | unignoreAll | run => cases hc

theorem Registered.perform_single (h : Registered t) {c : Command} (hc : c.isSingle = true) :
    Registered (t.perform c).tree := by
  cases c with
  | define label =>
    simp only [perform, Outcome.reply, define]
    split
    · exact h
    · exact ⟨h.names, h.ignored⟩
  | defineMacro label body =>
    simp only [perform, Outcome.reply, defineMacro]
    split
    · exact h
    · exact ⟨h.names, h.ignored⟩
  | ignoreAll name =>
    exact ⟨h.names, fun id hid => (List.mem_append.1 hid).elim (h.ignored id) h.lt_of_ids⟩
  | unignoreAll => exact ⟨h.names, fun _ hid => by cases hid⟩
  | run => cases hc
  | _ => exact h.grows (h.grows_perform rfl)

/-- What no single operation takes away no command does. -/
theorem perform_induct {P : Tree → Prop}
    (single : ∀ {t : Tree} {c : Command}, P t → c.isSingle = true → P (t.perform c).tree)
    (c : Command) (h : P t) : P (t.perform c).tree := by
  have hafter : ∀ (history : List Command), (∀ c ∈ history, c.isSingle = true) → ∀ {t : Tree},
      P t → P (t.after history) := by
    intro history hs
    induction history with
    | nil => exact fun h => h
    | cons c cs ih =>
      obtain ⟨hc, hcs⟩ := List.forall_mem_cons.1 hs
      exact fun h => ih hcs (single h hc)
  cases c with
  | run pipeline =>
    obtain ⟨history, hs, -, he⟩ :
        LeadsTo False (pipeline.flatMap Pass.steps) t (t.run pipeline).tree := run_leadsTo False.elim
    have hsingle : ∀ c ∈ history, c.isSingle = true := by
      intro c hc
      obtain ⟨p, -, hp⟩ := List.mem_flatMap.1 (hs c hc)
      exact Pass.isSingle_of_mem_steps hp
    exact he ▸ hafter history hsingle h
  | _ => exact single h rfl

theorem Registered.perform (h : Registered t) (c : Command) : Registered (t.perform c).tree :=
  perform_induct (fun h hc => h.perform_single hc) c h

theorem registered_ofText (text : Text) (config : Config) : Registered (ofText text config) where
  names e he := by
    rw [List.mem_singleton.1 he]
    exact Nat.zero_lt_one
  ignored _ hid := absurd hid List.not_mem_nil

theorem Initial.registered (h : Initial t) : Registered t :=
  h.induct registered_ofText (fun name hroot hr => hr.grows (grows_rename hroot name))
    fun _ _ _ hr => hr.grows ((grows_alloc _ _).trans (grows_modify _ _ _))

/-- No label has been defined yet. -/
theorem Initial.labels_eq_nil (h : Initial t) : t.labels.labels = [] :=
  h.induct (P := fun t => t.labels.labels = []) (fun _ _ => rfl)
    (fun name _ hl => (congrArg Registry.labels (labels_rename _ root name)).trans hl)
    fun _ _ _ hl => hl

/-- Whatever is done to a tree, names and ignored nodes stay numbers of nodes. -/
theorem Initial.registered_after (h : Initial t) (history : List Command) :
    Registered (t.after history) := by
  have hall : ∀ {t : Tree}, Registered t → Registered (t.after history) := by
    induction history with
    | nil => exact fun h => h
    | cons c cs ih => exact fun h => ih (h.perform c)
  exact hall h.registered

end Tree

end GlyphTree
