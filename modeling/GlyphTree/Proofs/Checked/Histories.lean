import GlyphTree.Proofs.Bookkeeping
import GlyphTree.Proofs.Checked.Hiding
import GlyphTree.Proofs.Checked.Views

/-!
# Checked histories

Pipelines and commands with checks, and with them whole histories. A tree that admitted commands lead
to is laid out and its nodes refer to nodes, which is all that the checks of a single operation ask
for but one thing: that no label is empty. So if no command defines an empty label, everything that
is done with such a tree and everything that is asked of it passes all checks
(`Initial.unfailing_after`).
-/

namespace GlyphTree

/-! ## Labels that are defined -/

/-- The labels that a pass defines. -/
def Pass.defined : Pass → List Text
  | define label _ => [label]
  | _ => []

/-- The labels that a command defines. -/
def Command.defined : Command → List Text
  | define label | defineMacro label _ => [label]
  | run pipeline => pipeline.flatMap Pass.defined
  | _ => []

theorem Pass.defined_of_mem_steps {p : Pass} {c : Command} (h : c ∈ p.steps) :
    c.defined ⊆ p.defined := by
  cases p with
  | define label body =>
    cases body <;> exact List.mem_singleton.1 h ▸ List.Subset.refl _
  | hideNested =>
    rcases List.mem_cons.1 h with rfl | h
    · exact List.nil_subset _
    · rcases List.mem_append.1 h with h | h
      · obtain ⟨_, -, rfl⟩ := List.mem_map.1 h
        exact List.nil_subset _
      · obtain ⟨_, -, rfl⟩ := List.mem_map.1 h
        exact List.nil_subset _
  | _ => exact List.mem_singleton.1 h ▸ List.Subset.refl _

namespace Registry

variable {r r' : Registry} {name : Text} {glyph : Char}

theorem Named.define (h : r.Named) (hne : name ≠ []) (hd : r.define name = .ok (glyph, r')) :
    r'.Named := by
  unfold Registry.define at hd
  split at hd
  · obtain ⟨-, rfl⟩ := Prod.mk.inj (Except.ok.inj hd)
    exact h
  · split at hd
    · obtain ⟨-, rfl⟩ := Prod.mk.inj (Except.ok.inj hd)
      intro l hl
      rcases List.mem_append.1 hl with hl | hl
      · exact h l hl
      · exact List.mem_singleton.1 hl ▸ hne
    · cases hd

theorem Named.setBody (h : r.Named) (name body : Text) : (r.setBody name body).Named := by
  intro l hl
  obtain ⟨l', hl', rfl⟩ := List.mem_map.1 hl
  split
  · exact h l' hl'
  · exact h l' hl'

end Registry

namespace Tree

variable {t t' : Tree} {name pattern label target : Text} {content : Option Promotion}
  {newName : Option Text} {c : Command} {commands history : List Command}

/-! ## Definitions -/

/-- Hides every match of a pattern in the targets. -/
def hideAll? (t : Tree) (name pattern label target : Text) : Option (Outcome HideError Unit) := do
  return (← t.hideMatches? name pattern label target).map fun _ => ()

/-- Hides every match of a pattern in the targets, and tells whether there was one. -/
def hideAny? (t : Tree) (name pattern label target : Text) : Option (Outcome HideError Bool) := do
  return (← t.hideMatches? name pattern label target).map (0 < ·)

/-- What follows a round of a nested hide that hid something: promotion, then renaming. -/
def finishRound? (t : Tree) (name target : Text) (content : Option Promotion)
    (newName : Option Text) : Option (Outcome HideError Unit) := do
  let promoted ← match content with
    | some p => t.hideGroup? p.name p.label p.group.toNat target name
    | none => some (.done t ())
  promoted.andThen? fun t _ =>
    match newName with
    | some newName => do return .done (← t.renameAll? newName target name).2 ()
    | none => some (.done t ())

/-- The rounds of a nested hide, `left` more at most after `rounds`. -/
def nestedRounds? (name pattern label target : Text) (content : Option Promotion)
    (newName : Option Text) (rounds : Nat) : Nat → Tree → Option (Outcome HideError Nat)
  | 0, t => some (.done t rounds [.nestedStopped name rounds])
  | left + 1, t => do
    let o ← t.hideAny? name pattern label target
    o.andThen? fun t hidden =>
      if hidden then do
        let o ← t.finishRound? name target content newName
        o.andThen? fun t _ =>
          nestedRounds? name pattern label target content newName (rounds + 1) left t
      else some (.done t rounds)

/-- Hides matches round after round. -/
def hideNested? (t : Tree) (name pattern label target : Text) (content : Option Promotion)
    (newName : Option Text) : Option (Outcome HideError Unit) := do
  let bound := max t.config.maxRounds.toNat 1
  let o ← nestedRounds? name pattern label target content newName 0 bound t
  o.andThen? fun t rounds => some (.done t () [.nestedDone name rounds])

/-- Runs one pass. -/
def runPass? (t : Tree) : Pass → Option (Outcome HideError Unit)
  | .define label none => some ((t.define label).map fun _ => ())
  | .define label (some body) => some ((t.defineMacro label body).map fun _ => ())
  | .hideAll name pattern label target => t.hideAll? name pattern label target
  | .hideNested name pattern label target content newName =>
    t.hideNested? name pattern label target content newName
  | .hideGroup name label group target source => t.hideGroup? name label group.toNat target source
  | .hideRest name label target => t.hideRest? name label target
  | .ignore name => some (.done (t.ignoreAll name) ())
  | .unignore => some (.done t.unignoreAll ())
  | .rename name target source => do return .done (← t.renameAll? name target source).2 ()
  | .replaceAll old new target => do return (← t.replaceAll? old new target).map fun _ => ()

/-- Runs passes, the first of them number `index`. Gives the number of nodes each one made. -/
def runFrom? (index : Nat) : Pipeline → Tree → Option (Outcome PassError (List Nat))
  | [], t => some (.done t [])
  | p :: ps, t => do
    let o ← t.runPass? p
    match o.result with
    | .error e => return .failed o.tree ⟨index, e⟩ o.events
    | .ok () => do
      let created ← minus? o.tree.size t.size
      let rest := (← runFrom? (index + 1) ps o.tree).map (created :: ·)
      return { rest with events := o.events ++ .passDone index p.op created :: rest.events }

/-- Carries out a command. -/
def perform? (t : Tree) : Command → Option (Outcome CommandError Reply)
  | .define label => some ((t.define label).reply .glyph)
  | .defineMacro label body => some ((t.defineMacro label body).reply .glyph)
  | .hideAll name pattern label target => do
    return (← t.hideAll? name pattern label target).reply fun _ => .done
  | .hideAny name pattern label target => do
    return (← t.hideAny? name pattern label target).reply .flag
  | .hideGroup name label group scope source => do
    return (← t.hideGroup? name label group scope source).reply fun _ => .done
  | .hideRest name label target => do
    return (← t.hideRest? name label target).reply fun _ => .done
  | .unhideAll => do return (← t.unhideAll?).reply fun _ => .done
  | .unfold id openLabel closeLabel => do
    return (← t.unfolding? id openLabel closeLabel).reply .flag
  | .foldAll => do return (← t.foldAll?).reply .count
  | .replaceAll old new target => do return (← t.replaceAll? old new target).reply .count
  | .ignoreAll name => some (.done (t.ignoreAll name) .done)
  | .unignoreAll => some (.done t.unignoreAll .done)
  | .renameAll newName scope oldName => do
    let (n, t) ← t.renameAll? newName scope oldName
    return .done t (.count n)
  | .renameNode id name => do return (← t.renameNode? id name).reply fun _ => .done
  | .replaceNode target source => do return (← t.replaceNode? target source).reply fun _ => .done
  | .swap a b => do return (← t.swap? a b).reply fun _ => .done
  | .detached text =>
    let (id, t) := t.detached text
    some (.done t (.node (some id)))
  | .getNode name => do
    let (id, t) ← t.getNode? name
    return .done t (.node id)
  | .resetNode name => some (.done (t.resetNode name) .done)
  | .run pipeline => do
    let o ← runFrom? 0 pipeline t
    return ⟨o.tree, (o.result.map .created).mapError .pass, o.events⟩

/-- The tree that a history of commands leaves behind. -/
def after? (t : Tree) (history : List Command) : Option Tree :=
  history.foldlM (fun t c => (t.perform? c).map Outcome.tree) t

/-! ## Sound trees -/

/-- A tree that is laid out, and whose nodes refer to nodes. -/
structure Sound (t : Tree) : Prop where
  wellFormed : WellFormed t
  housed : t.Housed

theorem invariant_sound : Invariant Sound where
  beside h hn hf := ⟨invariant_wellFormed.beside h.wellFormed hn hf, housed_of_nodes h.housed hn⟩
  rename id name h := ⟨invariant_wellFormed.rename id name h.wellFormed, h.housed.rename id name⟩
  hideMatches h hs := ⟨invariant_wellFormed.hideMatches h.wellFormed hs,
    (h.wellFormed.hideMatches?_eq h.housed hs).2⟩
  hideGroup h hs := ⟨invariant_wellFormed.hideGroup h.wellFormed hs,
    (h.wellFormed.hideGroup?_eq h.housed hs).2⟩
  hideRest name label target h := ⟨invariant_wellFormed.hideRest name label target h.wellFormed,
    (h.wellFormed.hideRest?_eq h.housed name label target).2⟩
  unfold id openLabel closeLabel h :=
    ⟨invariant_wellFormed.unfold id openLabel closeLabel h.wellFormed,
      h.wellFormed.shaped.housed_unfold h.housed id openLabel closeLabel⟩
  foldAll h := ⟨invariant_wellFormed.foldAll h.wellFormed, (h.wellFormed.foldAll?_eq h.housed).2⟩
  unhideAll h := ⟨invariant_wellFormed.unhideAll h.wellFormed,
    (h.wellFormed.unhideAll?_eq h.housed).2⟩
  replaceAll old new target h := ⟨invariant_wellFormed.replaceAll old new target h.wellFormed,
    (h.wellFormed.replaceAll?_eq h.housed old new target).2⟩
  replaceNode h ha := ⟨invariant_wellFormed.replaceNode h.wellFormed ha,
    (h.housed.replaceNode?_eq _ _).2⟩
  swap h ha := ⟨invariant_wellFormed.swap h.wellFormed ha, (h.housed.swap?_eq _ _).2⟩
  detached text h := ⟨invariant_wellFormed.detached text h.wellFormed, h.housed.detached text⟩

theorem housed_ofText (text : Text) (config : Config) : (ofText text config).Housed := by
  have hbare : ∀ {n : Node} {size : Nat}, n.children = [] → n.place = none → n.Housed size := by
    intro n size hc hp
    refine ⟨fun c hmem => ?_, fun p hparent => ?_⟩
    · rw [hc] at hmem
      cases hmem
    · rw [Node.parent, hp] at hparent
      cases hparent
  refine Housed.alloc (fun j => ?_) (hbare rfl rfl)
  rw [node_eq_default (Nat.zero_le j)]
  exact hbare rfl rfl

theorem Housed.addChild (h : t.Housed) (hroot : root < t.size) (width : Nat)
    (child : (Text × Text) × Nat) : (t.addChild width child).Housed := by
  obtain ⟨⟨name, text⟩, start⟩ := child
  have halloc :
      (t.alloc ⟨name, text, some ⟨root, ⟨start, start + width⟩⟩, none, none, [], []⟩).Housed :=
    h.alloc ⟨fun _ hc => absurd hc List.not_mem_nil, fun _ hp => by cases hp; exact hroot⟩
  refine halloc.setChildren fun c hc => ?_
  rw [size_alloc]
  rcases List.mem_append.1 hc with hc | hc
  · exact Nat.lt_succ_of_lt (h.lt_of_mem hc)
  · exact List.mem_singleton.1 hc ▸ Nat.lt_succ_self _

theorem Initial.sound (h : Initial t) : Sound t where
  wellFormed := h.wellFormed
  housed := h.induct housed_ofText (fun name _ ht => ht.rename root name)
    fun width child hroot ht => ht.addChild hroot width child

/-! ## What stays beside the nodes -/

theorem labels_renameAll (t : Tree) (newName scope oldName : Text) :
    (t.renameAll newName scope oldName).2.labels = t.labels :=
  List.foldlRecOn (motive := fun u : Tree => u.labels = t.labels) _ _ rfl fun u hu id _ =>
    (labels_rename u id newName).trans hu

theorem Initial.named (h : Initial t) : t.labels.Named := by
  intro l hl
  rw [h.labels_eq_nil] at hl
  cases hl

/-- What no single command of a history takes away a history does not take away. -/
theorem LeadsTo.induct {solid : Prop} {P : Tree → Prop} (h : LeadsTo solid commands t t') (h₀ : P t)
    (hstep : ∀ u, ∀ c ∈ commands, P u → P (u.perform c).tree) : P t' := by
  obtain ⟨history, hc, -, rfl⟩ := h
  exact history.foldlRecOn _ h₀ fun u hu c hmem => hstep u c (hc c hmem) hu

theorem Registered.size_le_perform (h : Registered t) (hc : c.isSingle = true) :
    t.size ≤ (t.perform c).tree.size := by
  by_cases hk : c.keepsBooks = true
  · exact (h.grows_perform hk).size
  · cases c with
    | define label =>
      simp only [Tree.perform, Outcome.reply, Tree.define]
      split <;> exact Nat.le_refl _
    | defineMacro label body =>
      simp only [Tree.perform, Outcome.reply, Tree.defineMacro]
      split <;> exact Nat.le_refl _
    | ignoreAll | unignoreAll => exact Nat.le_refl _
    | run => cases hc
    | _ => exact absurd rfl hk

theorem Registered.named_perform (h : Registered t) (hc : c.isSingle = true)
    (hn : t.labels.Named) (hd : [] ∉ c.defined) : (t.perform c).tree.labels.Named := by
  by_cases hk : c.keepsBooks = true
  · exact (h.grows_perform hk).labels ▸ hn
  · cases c with
    | define label =>
      have hne : label ≠ [] := by simpa [Command.defined, eq_comm] using hd
      simp only [Tree.perform, Outcome.reply, Tree.define]
      split
      · exact hn
      · next hdef => exact hn.define hne hdef
    | defineMacro label body =>
      have hne : label ≠ [] := by simpa [Command.defined, eq_comm] using hd
      simp only [Tree.perform, Outcome.reply, Tree.defineMacro, Registry.defineMacro]
      cases hdef : t.labels.define label with
      | error e => exact hn
      | ok r => exact (hn.define hne hdef).setBody label body
    | ignoreAll | unignoreAll => exact hn
    | run => cases hc
    | _ => exact absurd rfl hk

/-- The books of a tree are in order: they hold numbers of nodes, and labels that are not empty. -/
structure WellKept (t : Tree) : Prop where
  registered : Registered t
  named : t.labels.Named

theorem WellKept.perform_single (h : WellKept t) (hc : c.isSingle = true) (hd : [] ∉ c.defined) :
    WellKept (t.perform c).tree :=
  ⟨h.registered.perform_single hc, h.registered.named_perform hc h.named hd⟩

theorem WellKept.runPass (h : WellKept t) {p : Pass} (hd : [] ∉ p.defined) :
    WellKept (t.runPass p).tree ∧ t.size ≤ (t.runPass p).tree.size := by
  have hrun : LeadsTo False p.steps t (t.runPass p).tree := runPass_leadsTo False.elim
  refine hrun.induct (P := fun u => WellKept u ∧ t.size ≤ u.size) ⟨h, Nat.le_refl _⟩
    fun u c hc hu => ?_
  obtain ⟨hu, hsize⟩ := hu
  have hs := Pass.isSingle_of_mem_steps hc
  exact ⟨hu.perform_single hs fun hmem => hd (Pass.defined_of_mem_steps hc hmem),
    hsize.trans (hu.registered.size_le_perform hs)⟩

theorem WellKept.perform (h : WellKept t) (hd : [] ∉ c.defined) : WellKept (t.perform c).tree := by
  cases c with
  | run pipeline =>
    have hrun : LeadsTo False (pipeline.flatMap Pass.steps) t (t.run pipeline).tree :=
      run_leadsTo False.elim
    refine hrun.induct (P := WellKept) h fun u c hc hu => ?_
    obtain ⟨p, hp, hc⟩ := List.mem_flatMap.1 hc
    refine hu.perform_single (Pass.isSingle_of_mem_steps hc) fun hmem => hd ?_
    exact List.mem_flatMap.2 ⟨p, hp, Pass.defined_of_mem_steps hc hmem⟩
  | _ => exact h.perform_single rfl hd

/-! ## Pipelines -/

theorem labels_finishRound (t : Tree) (name target : Text) (content : Option Promotion)
    (newName : Option Text) :
    (t.finishRound name target content newName).tree.labels = t.labels := by
  refine Outcome.tree_andThen (P := fun u => u.labels = t.labels) ?_ fun _ h _ => ?_
  · cases content with
    | none => rfl
    | some p => exact (grows_hideGroup ..).labels
  · cases newName with
    | none => exact h
    | some newName => exact (labels_renameAll ..).trans h

section
variable (h : Sound t)
include h

theorem Sound.hideAll?_eq (hn : t.labels.Named) (hs : t.SolidMatches name pattern label target) :
    t.hideAll? name pattern label target = some (t.hideAll name pattern label target) :=
  bind_eq_of_some ((h.wellFormed.hideMatches?_eq h.housed hs).1 hn) _

theorem Sound.hideAny?_eq (hn : t.labels.Named) (hs : t.SolidMatches name pattern label target) :
    t.hideAny? name pattern label target = some (t.hideAny name pattern label target) :=
  bind_eq_of_some ((h.wellFormed.hideMatches?_eq h.housed hs).1 hn) _

theorem Sound.finishRound?_eq (newName : Option Text)
    (hg : ∀ p ∈ content, t.SolidGroup p.name p.label p.group.toNat target name) :
    t.finishRound? name target content newName =
      some (t.finishRound name target content newName) := by
  have hrenamed : ∀ {o : Outcome HideError Unit}, Sound o.tree →
      (o.andThen? fun t _ => match newName with
        | some newName => do return .done (← t.renameAll? newName target name).2 ()
        | none => some (.done t ())) = some (o.andThen fun t _ => match newName with
        | some newName => .done (t.renameAll newName target name).2 ()
        | none => .done t ()) := fun {o} ho => Outcome.andThen?_eq fun _ _ => by
    cases newName with
    | none => rfl
    | some newName =>
      exact bind_eq_of_some (ho.wellFormed.shaped.renameAll?_eq newName target name) _
  cases content with
  | none => exact hrenamed (o := .done t ()) h
  | some p =>
    obtain ⟨hgroup, hhoused⟩ := h.wellFormed.hideGroup?_eq h.housed (hg p rfl)
    rw [finishRound?, bind_eq_of_some hgroup]
    exact hrenamed (invariant_sound.hideGroup h (hg p rfl))

theorem Sound.nestedRounds?_eq (hn : t.labels.Named) (rounds : Nat) {left : Nat}
    (hs : SolidRounds name pattern label target content newName left t) :
    nestedRounds? name pattern label target content newName rounds left t =
      some (nestedRounds name pattern label target content newName rounds left t) := by
  induction left generalizing t rounds with
  | zero => rfl
  | succ left ih =>
    rw [nestedRounds?, nestedRounds, bind_eq_of_some (h.hideAny?_eq hn hs.1)]
    refine Outcome.andThen?_eq fun hidden hr => ?_
    cases hidden with
    | false => rfl
    | true =>
      have hh : Sound (t.hideAny name pattern label target).tree :=
        invariant_sound.hideMatches h hs.1
      obtain ⟨hg, hrest⟩ := hs.2 hr
      rw [if_pos rfl, if_pos rfl, bind_eq_of_some (hh.finishRound?_eq newName hg)]
      refine Outcome.andThen?_eq fun _ hf => ?_
      have hfinished := invariant_sound.passes.finishRound hh newName fun _ => hg
      -- a round leaves the labels alone, so the next one can expand the pattern as well
      refine ih hfinished ?_ (rounds + 1) (hrest hf)
      rw [labels_finishRound]
      exact (grows_hideMatches t name pattern label target).labels ▸ hn

theorem Sound.runPass?_eq (hn : t.labels.Named) {p : Pass} (hs : t.SolidPass p) :
    t.runPass? p = some (t.runPass p) := by
  cases p with
  | define label body => cases body <;> rfl
  | hideAll => exact h.hideAll?_eq hn hs
  | hideNested name =>
    refine (bind_eq_of_some (h.nestedRounds?_eq hn 0 hs) _).trans ?_
    rw [runPass, hideNested]
    exact Outcome.andThen?_eq fun _ _ => rfl
  | hideGroup => exact (h.wellFormed.hideGroup?_eq h.housed hs).1
  | hideRest name label target => exact (h.wellFormed.hideRest?_eq h.housed name label target).1
  | ignore => rfl
  | unignore => rfl
  | rename name target source =>
    exact bind_eq_of_some (h.wellFormed.shaped.renameAll?_eq name target source) _
  | replaceAll old new target =>
    exact bind_eq_of_some (h.wellFormed.replaceAll?_eq h.housed old new target).1 _

/-- A pass leaves the tree no smaller, so the nodes that it made can be counted. -/
theorem Sound.runFrom?_eq (hk : WellKept t) (index : Nat) {pipeline : Pipeline}
    (hs : SolidRun pipeline t) (hd : ∀ p ∈ pipeline, [] ∉ p.defined) :
    runFrom? index pipeline t = some (runFrom index pipeline t) := by
  induction pipeline generalizing t index with
  | nil => rfl
  | cons p ps ih =>
    obtain ⟨hp, hps⟩ := List.forall_mem_cons.1 hd
    rw [runFrom?, runFrom, bind_eq_of_some (h.runPass?_eq hk.named hs.1)]
    cases hr : (t.runPass p).result with
    | error e => rfl
    | ok _ =>
      obtain ⟨hkept, hsize⟩ := hk.runPass hp
      have hsound : Sound (t.runPass p).tree := invariant_sound.passes.runPass h fun _ => hs.1
      have hrest := ih hsound hkept (index + 1) (hs.2 hr) hps
      dsimp only
      rw [bind_eq_of_some (minus?_eq hsize), bind_eq_of_some hrest]
      rfl

/-! ## Commands -/

theorem Sound.perform?_eq (hk : WellKept t) (ha : t.Admits c) (hd : [] ∉ c.defined) :
    t.perform? c = some (t.perform c) := by
  have hw := h.wellFormed
  have ht := h.housed
  cases c with
  | define | defineMacro | ignoreAll | unignoreAll | detached | resetNode => rfl
  | hideAll => exact bind_eq_of_some (h.hideAll?_eq hk.named ha) _
  | hideAny => exact bind_eq_of_some (h.hideAny?_eq hk.named ha) _
  | hideGroup => exact bind_eq_of_some (hw.hideGroup?_eq ht ha).1 _
  | hideRest name label target => exact bind_eq_of_some (hw.hideRest?_eq ht name label target).1 _
  | unhideAll => exact bind_eq_of_some (hw.unhideAll?_eq ht).1 _
  | unfold id openLabel closeLabel =>
    exact bind_eq_of_some (hw.shaped.unfolding?_eq ht id openLabel closeLabel) _
  | foldAll => exact bind_eq_of_some (hw.foldAll?_eq ht).1 _
  | replaceAll old new target => exact bind_eq_of_some (hw.replaceAll?_eq ht old new target).1 _
  | renameAll newName scope oldName =>
    exact bind_eq_of_some (hw.shaped.renameAll?_eq newName scope oldName) _
  | renameNode id name => exact bind_eq_of_some (renameNode?_eq t id name) _
  | replaceNode target source => exact bind_eq_of_some (ht.replaceNode?_eq target source).1 _
  | swap a b => exact bind_eq_of_some (ht.swap?_eq a b).1 _
  | getNode name => exact bind_eq_of_some (hw.shaped.getNode?_eq name) _
  | run pipeline =>
    refine bind_eq_of_some (h.runFrom?_eq hk 0 ha fun p hp hmem => hd ?_) _
    exact List.mem_flatMap.2 ⟨p, hp, hmem⟩

end

/-- What is done with a tree, as far as it admits it, and what is asked of it passes all checks. -/
structure Unfailing (t : Tree) : Prop where
  /-- Commands that define no empty label. -/
  commands : ∀ c, t.Admits c → [] ∉ c.defined → t.perform? c = some (t.perform c)
  listing : t.listing? = some t.listing
  annotatedTexts : ∀ id, t.annotatedText? id = some (t.annotatedText id)
  snapshots : ∀ id, t.snapshotOf? id = some (t.snapshotOf id)
  expandedTexts : ∀ id, t.expandedText? id = some (t.expandedText id)
  orders : t.documentOrder? = some t.documentOrder ∧ t.liveOrder? = some t.liveOrder
  liveness : ∀ id, t.isLive? id = some (t.isLive id)
  names : ∀ name, t.named? name = some (t.named name)
  groupings : ∀ parentName name,
    t.groupByText? parentName name = some (t.groupByText parentName name)

theorem Sound.unfailing (h : Sound t) (hk : WellKept t) : Unfailing t where
  commands _ ha hd := h.perform?_eq hk ha hd
  listing := h.wellFormed.shaped.listing?_eq h.housed
  annotatedTexts := h.wellFormed.shaped.annotatedText?_eq
  snapshots := h.wellFormed.shaped.snapshotOf?_eq h.housed
  expandedTexts := h.wellFormed.shaped.expandedText?_eq
  orders := ⟨h.wellFormed.shaped.documentOrder?_eq, h.wellFormed.shaped.liveOrder?_eq⟩
  liveness := h.wellFormed.shaped.isLive?_eq h.housed
  names := h.wellFormed.shaped.named?_eq
  groupings := h.wellFormed.shaped.groupByText?_eq h.housed

theorem Sound.after?_eq (h : Sound t) (hk : WellKept t) (ha : AdmitsAll t history)
    (hd : ∀ c ∈ history, [] ∉ c.defined) :
    t.after? history = some (t.after history) ∧ Sound (t.after history) ∧
      WellKept (t.after history) := by
  induction history generalizing t with
  | nil => exact ⟨rfl, h, hk⟩
  | cons c cs ih =>
    obtain ⟨hc, hcs⟩ := List.forall_mem_cons.1 hd
    obtain ⟨hrest, hsound⟩ := ih (invariant_sound.perform h ha.1) (hk.perform hc) ha.2 hcs
    have hstep : (t.perform? c).map Outcome.tree = some (t.perform c).tree := by
      rw [h.perform?_eq hk ha.1 hc]
      rfl
    exact ⟨by rw [after?, List.foldlM_cons, bind_eq_of_some hstep]; exact hrest, hsound⟩

/-- A history of admitted commands that define no empty label passes all checks, and so does whatever
is done with the tree that it leaves, and asked of it. -/
theorem Initial.unfailing_after (h : Initial t) (ha : AdmitsAll t history)
    (hd : ∀ c ∈ history, [] ∉ c.defined) :
    t.after? history = some (t.after history) ∧ Unfailing (t.after history) := by
  obtain ⟨hafter, hsound, hkept⟩ := h.sound.after?_eq ⟨h.registered, h.named⟩ ha hd
  exact ⟨hafter, hsound.unfailing hkept⟩

/-- Two nodes are unfolded one after the other, the second between the markers of the first. -/
theorem unfailing_unfoldedTwice :
    let t := ofText ['a', 'x', 'y', 'z', 'b']
    AdmitsAll t unfoldTwice ∧ (∀ c ∈ unfoldTwice, [] ∉ c.defined) ∧
      t.after? unfoldTwice = some unfoldedTwice ∧ Unfailing unfoldedTwice ∧
      unfoldedTwice.annotatedText root = "[#2][#1>[#3>xyz<#3]<#1][#4]" := by
  have hd : ∀ c ∈ unfoldTwice, [] ∉ c.defined := by decide
  obtain ⟨hafter, hunfailing⟩ :=
    Initial.unfailing_after (.ofText ['a', 'x', 'y', 'z', 'b'] {}) admitsAll_unfoldTwice hd
  exact ⟨admitsAll_unfoldTwice, hd, hafter, hunfailing, by cbv⟩

/-- A child whose span ends behind the text of its parent does not pass. -/
example :
    (((ofText ['a', 'b']).alloc ⟨[], [], some ⟨root, ⟨1, 9⟩⟩, none, none, [], []⟩).setChildren root
      [1]).annotatedText? root = none := by cbv

end Tree

end GlyphTree
