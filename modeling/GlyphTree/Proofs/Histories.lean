import GlyphTree.Proofs.Making
import GlyphTree.Proofs.Plans
import Mathlib

/-!
# Histories

Which commands a tree admits: a hide must not collapse an empty region, and a move of content must
leave unfolded nodes alone and put no node below itself. What no single operation takes away
(`Invariant`) no command takes away either, with all the passes of its pipeline. A tree that is made
from a text or from records and then changed by admitted commands only is well-formed
(`Reachable.wellFormed`).
-/

namespace GlyphTree

/-- What holds of the tree after one step and after any next one holds after both. -/
theorem Outcome.tree_andThen {ε α β : Type} {P : Tree → Prop} {o : Outcome ε α}
    {next : Tree → α → Outcome ε β} (h : P o.tree)
    (hn : ∀ a, P o.tree → o.result = .ok a → P (next o.tree a).tree) :
    P (o.andThen next).tree := by
  unfold andThen
  cases hr : o.result with
  | error e => exact h
  | ok a => exact hn a h hr

namespace Tree

variable {t : Tree} {name pattern label target : Text}

/-! ## Solid hides -/

/-- No match to be hidden is empty. -/
def SolidMatches (t : Tree) (name pattern label target : Text) : Prop :=
  match t.labels.glyph label, t.compile pattern with
  | .ok glyph, .ok program => (t.matchPlan name glyph program target).Solid
  | _, _ => True

instance (t : Tree) (name pattern label target : Text) :
    Decidable (t.SolidMatches name pattern label target) :=
  match hg : t.labels.glyph label, hp : t.compile pattern with
  | .ok glyph, .ok program =>
    decidable_of_iff (t.matchPlan name glyph program target).Solid
      (by unfold SolidMatches; rw [hg, hp])
  | .error _, _ => isTrue (by unfold SolidMatches; rw [hg]; trivial)
  | .ok _, .error _ => isTrue (by unfold SolidMatches; rw [hg, hp]; trivial)

/-- No capture group to be hidden is empty. -/
def SolidGroup (t : Tree) (name label : Text) (group : Nat) (scope source : Text) : Prop :=
  match t.labels.glyph label with
  | .ok glyph =>
    match (t.planGroup name glyph group (t.groupSources scope source)).1 with
    | .ok plan => plan.Solid
    | .error _ => True
  | .error _ => True

theorem solidMatches_iff :
    t.SolidMatches name pattern label target ↔ (t.matchesToHide name pattern label target).Solid := by
  unfold SolidMatches matchesToHide
  cases t.labels.glyph label with
  | error e => simp [Plan.Solid]
  | ok glyph =>
    cases t.compile pattern with
    | error e => simp [Plan.Solid]
    | ok program => exact .rfl

theorem solidGroup_iff {group : Nat} {scope source : Text} :
    t.SolidGroup name label group scope source ↔
      (t.groupToHide name label group scope source).Solid := by
  unfold SolidGroup groupToHide
  cases t.labels.glyph label with
  | error e => simp [Plan.Solid]
  | ok glyph =>
    dsimp only
    cases (t.planGroup name glyph group (t.groupSources scope source)).1 with
    | error e => simp [Plan.Solid]
    | ok plan => exact .rfl

/-- No region hidden in any round of a nested hide is empty. -/
def SolidRounds (name pattern label target : Text) (content : Option Promotion)
    (newName : Option Text) : Nat → Tree → Prop
  | 0, _ => True
  | left + 1, t =>
    let hidden := t.hideAny name pattern label target
    let finished := hidden.tree.finishRound name target content newName
    t.SolidMatches name pattern label target ∧
      (hidden.result = .ok true →
        (∀ p ∈ content, hidden.tree.SolidGroup p.name p.label p.group.toNat target name) ∧
          (finished.result = .ok () →
            SolidRounds name pattern label target content newName left finished.tree))

/-- No region hidden by a pass is empty. -/
def SolidPass (t : Tree) : Pass → Prop
  | .hideAll name pattern label target => t.SolidMatches name pattern label target
  | .hideNested name pattern label target content newName =>
    SolidRounds name pattern label target content newName (max t.config.maxRounds.toNat 1) t
  | .hideGroup name label group target source =>
    t.SolidGroup name label group.toNat target source
  | _ => True

/-- No region hidden by a pipeline is empty. -/
def SolidRun : Pipeline → Tree → Prop
  | [], _ => True
  | p :: ps, t =>
    t.SolidPass p ∧ ((t.runPass p).result = .ok () → SolidRun ps (t.runPass p).tree)

/-- Whether a command hides no empty region, and moves content only between nodes that are not
unfolded and not so that a node becomes its own ancestor. -/
def Admits (t : Tree) : Command → Prop
  | .hideAll name pattern label target => t.SolidMatches name pattern label target
  | .hideAny name pattern label target => t.SolidMatches name pattern label target
  | .hideGroup name label group scope source => t.SolidGroup name label group scope source
  | .replaceNode target source =>
    (t.node target).isUnfolded = false ∧ (t.node source).isUnfolded = false ∧
      Acyclic (t.replaceNode target source).tree
  | .swap a b =>
    (t.node a).isUnfolded = false ∧ (t.node b).isUnfolded = false ∧ Acyclic (t.swap a b).tree
  | .run pipeline => SolidRun pipeline t
  | _ => True

theorem admits_hideAll (h : decide (t.SolidMatches name pattern label target) = true) :
    t.Admits (.hideAll name pattern label target) :=
  of_decide_eq_true (p := t.SolidMatches name pattern label target) h

/-- Each command of a history is admitted by the tree it is carried out on. -/
def AdmitsAll : Tree → List Command → Prop
  | _, [] => True
  | t, c :: cs => t.Admits c ∧ AdmitsAll (t.perform c).tree cs

/-- What the commands of a history answer. -/
def replies : Tree → List Command → List (Except CommandError Reply)
  | _, [] => []
  | t, c :: cs => (t.perform c).result :: replies (t.perform c).tree cs

/-! ## Single operations -/

/-- The plan of an admitted command fits. -/
theorem Shaped.fitting_planOf (hs : Shaped t) {c : Command} (h : t.Admits c) :
    ∀ e ∈ t.planOf c, Fitting t e.1 e.2 := by
  intro e he
  have hfit (hsolid : (t.planOf c).Solid) : Fitting t e.1 e.2 :=
    (hs.cutting_planOf he).fitting fun cut hcut => lt_of_isEmpty_eq_false (hsolid e he cut hcut)
  cases c with
  | hideAll | hideAny => exact hfit (solidMatches_iff.1 h)
  | hideGroup => exact hfit (solidGroup_iff.1 h)
  | hideRest =>
    -- no literal run is empty
    obtain ⟨cs, hl⟩ := hs.layout_planOf he
    obtain ⟨-, glyph, -, hcuts⟩ := mem_restToHide he
    exact hcuts ▸ hl.fitting_restCuts
  | _ => cases he

theorem WellFormed.faithful_planOf (hw : WellFormed t) {c : Command} (h : t.Admits c) :
    Faithful t (t.applyPlan (t.planOf c)) :=
  hw.faithful_applyPlan (hw.shaped.nodup_planOf c) (hw.shaped.fitting_planOf h)

theorem WellFormed.faithful_hideMatches (hw : WellFormed t)
    (h : t.SolidMatches name pattern label target) :
    Faithful t (t.hideMatches name pattern label target).tree :=
  hideMatches_tree t name pattern label target ▸
    hw.faithful_planOf (c := .hideAll name pattern label target) h

theorem WellFormed.faithful_hideGroup (hw : WellFormed t) {group : Nat} {scope source : Text}
    (h : t.SolidGroup name label group scope source) :
    Faithful t (t.hideGroup name label group scope source).tree :=
  hideGroup_tree t name label group scope source ▸
    hw.faithful_planOf (c := .hideGroup name label group scope source) h

theorem WellFormed.faithful_hideRest (hw : WellFormed t) (name label target : Text) :
    Faithful t (t.hideRest name label target).tree :=
  hideRest_tree t name label target ▸ hw.faithful_planOf (c := .hideRest name label target) trivial

theorem WellFormed.faithful_define (hw : WellFormed t) (label : Text) :
    Faithful t (t.define label).tree := by
  unfold define
  split
  · exact .refl hw
  · exact hw.faithful_alike ⟨rfl, fun _ => ⟨_, _, rfl⟩⟩ rfl

theorem WellFormed.faithful_defineMacro (hw : WellFormed t) (label body : Text) :
    Faithful t (t.defineMacro label body).tree := by
  unfold defineMacro
  split
  · exact .refl hw
  · exact hw.faithful_alike ⟨rfl, fun _ => ⟨_, _, rfl⟩⟩ rfl

theorem WellFormed.faithful_renameAll (hw : WellFormed t) (newName scope oldName : Text) :
    Faithful t (t.renameAll newName scope oldName).2 := by
  obtain ⟨h1, h2⟩ := alike_renameAll t newName scope oldName
  exact hw.faithful_alike h1 (folds_of_aside h2)

theorem WellFormed.faithful_renameNode (hw : WellFormed t) (id : NodeId) (name : Text) :
    Faithful t (t.renameNode id name).tree := by
  unfold renameNode
  split
  · exact hw.faithful_alike (alike_rename t id name) (folds_rename t id name)
  · exact .refl hw

theorem WellFormed.faithful_getNode (hw : WellFormed t) (name : Text) :
    Faithful t (t.getNode name).2 := by
  unfold getNode
  dsimp only
  split
  · exact hw.faithful_alike ⟨rfl, fun _ => ⟨_, _, rfl⟩⟩ rfl
  · exact hw.faithful_alike ⟨rfl, fun _ => ⟨_, _, rfl⟩⟩ rfl

theorem WellFormed.replaceAll (hw : WellFormed t) (old new target : Text) :
    WellFormed (t.replaceAll old new target).tree := by
  unfold Tree.replaceAll
  split
  · exact hw
  · rename_i hold
    exact hw.replaceEach (fun x hx => hw.shaped.mem_targets hx) (by simpa using hold) new

/-! ## Invariants of pipelines -/

/-- A property of trees that no operation of a pipeline takes away. If `solid` holds, only as long as
the operation hides no empty region. -/
structure PassInvariant (solid : Prop) (P : Tree → Prop) : Prop where
  beside : ∀ {t t' : Tree}, P t → t'.nodes = t.nodes → t'.folds = t.folds → P t'
  rename : ∀ {t : Tree} (id : NodeId) (name : Text), P t → P (t.rename id name)
  hideMatches : ∀ {t : Tree} {name pattern label target : Text}, P t →
    (solid → t.SolidMatches name pattern label target) →
    P (t.hideMatches name pattern label target).tree
  hideGroup : ∀ {t : Tree} {name label : Text} {group : Nat} {scope source : Text}, P t →
    (solid → t.SolidGroup name label group scope source) →
    P (t.hideGroup name label group scope source).tree
  hideRest : ∀ {t : Tree} (name label target : Text), P t → P (t.hideRest name label target).tree
  replaceAll : ∀ {t : Tree} (old new target : Text), P t → P (t.replaceAll old new target).tree

section
variable {solid : Prop} {P : Tree → Prop} (hi : PassInvariant solid P) (h : P t)
include hi h

theorem PassInvariant.define (label : Text) : P (t.define label).tree := by
  unfold Tree.define
  split
  · exact h
  · exact hi.beside h rfl rfl

theorem PassInvariant.defineMacro (label body : Text) : P (t.defineMacro label body).tree := by
  unfold Tree.defineMacro
  split
  · exact h
  · exact hi.beside h rfl rfl

theorem PassInvariant.renameAll (newName scope oldName : Text) :
    P (t.renameAll newName scope oldName).2 := by
  unfold Tree.renameAll
  dsimp only
  generalize (t.named oldName).filter (t.inScope scope) = ids
  induction ids generalizing t with
  | nil => exact h
  | cons id ids ih => exact ih (hi.rename id newName h)

theorem PassInvariant.finishRound {content : Option Promotion} (newName : Option Text)
    (hg : solid → ∀ p ∈ content, t.SolidGroup p.name p.label p.group.toNat target name) :
    P (t.finishRound name target content newName).tree := by
  refine Outcome.tree_andThen ?_ fun _ hp _ => ?_
  · cases content with
    | none => exact h
    | some p => exact hi.hideGroup h fun hs => hg hs p rfl
  · cases newName with
    | none => exact hp
    | some newName => exact hi.renameAll hp newName target name

theorem PassInvariant.nestedRounds {content : Option Promotion} {newName : Option Text}
    (rounds : Nat) {left : Nat}
    (hs : solid → SolidRounds name pattern label target content newName left t) :
    P (nestedRounds name pattern label target content newName rounds left t).tree := by
  induction left generalizing t rounds with
  | zero => exact h
  | succ left ih =>
    have hh : P (t.hideAny name pattern label target).tree := hi.hideMatches h fun s => (hs s).1
    apply Outcome.tree_andThen hh
    intro hidden _ hr
    cases hidden with
    | false => exact hh
    | true =>
      rw [if_pos rfl]
      apply Outcome.tree_andThen (hi.finishRound hh newName fun s => ((hs s).2 hr).1)
      intro _ hp hf
      exact ih hp (rounds + 1) fun s => ((hs s).2 hr).2 hf

theorem PassInvariant.runPass {p : Pass} (hs : solid → t.SolidPass p) : P (t.runPass p).tree := by
  cases p with
  | define label body =>
    cases body with
    | none => exact hi.define h label
    | some body => exact hi.defineMacro h label body
  | hideAll => exact hi.hideMatches h hs
  | hideNested => exact Outcome.tree_andThen (hi.nestedRounds h 0 hs) fun _ hp _ => hp
  | hideGroup => exact hi.hideGroup h hs
  | hideRest name label target => exact hi.hideRest name label target h
  | ignore => exact hi.beside h rfl rfl
  | unignore => exact hi.beside h rfl rfl
  | rename name target source => exact hi.renameAll h name target source
  | replaceAll old new target => exact hi.replaceAll old new target h

theorem PassInvariant.runFrom (index : Nat) {pipeline : Pipeline}
    (hs : solid → SolidRun pipeline t) : P (runFrom index pipeline t).tree := by
  induction pipeline generalizing t index with
  | nil => exact h
  | cons p ps ih =>
    have hp := hi.runPass h fun s => (hs s).1
    rw [Tree.runFrom]
    dsimp only
    split
    · exact hp
    · rename_i hr
      exact ih hp (index + 1) fun s => (hs s).2 hr

end

/-! ## Invariants -/

/-- A property of trees that no single operation takes away, if the tree admits the operation. -/
structure Invariant (P : Tree → Prop) : Prop where
  beside : ∀ {t t' : Tree}, P t → t'.nodes = t.nodes → t'.folds = t.folds → P t'
  rename : ∀ {t : Tree} (id : NodeId) (name : Text), P t → P (t.rename id name)
  hideMatches : ∀ {t : Tree} {name pattern label target : Text}, P t →
    t.SolidMatches name pattern label target → P (t.hideMatches name pattern label target).tree
  hideGroup : ∀ {t : Tree} {name label : Text} {group : Nat} {scope source : Text}, P t →
    t.SolidGroup name label group scope source → P (t.hideGroup name label group scope source).tree
  hideRest : ∀ {t : Tree} (name label target : Text), P t → P (t.hideRest name label target).tree
  unfold : ∀ {t : Tree} (id : NodeId) (openLabel closeLabel : Text), P t →
    P (t.unfold id openLabel closeLabel).tree
  foldAll : ∀ {t : Tree}, P t → P t.foldAll.tree
  unhideAll : ∀ {t : Tree}, P t → P t.unhideAll.tree
  replaceAll : ∀ {t : Tree} (old new target : Text), P t → P (t.replaceAll old new target).tree
  replaceNode : ∀ {t : Tree} {target source : NodeId}, P t → t.Admits (.replaceNode target source) →
    P (t.replaceNode target source).tree
  swap : ∀ {t : Tree} {a b : NodeId}, P t → t.Admits (.swap a b) → P (t.swap a b).tree
  detached : ∀ {t : Tree} (text : Text), P t → P (t.detached text).2

theorem invariant_wellFormed : Invariant WellFormed where
  beside hw hn hf := hw.alike ⟨by rw [size, hn]; rfl, fun j => ⟨_, _, by rw [node, hn]; rfl⟩⟩ hf
  rename id name hw := hw.alike (alike_rename _ id name) (folds_rename _ id name)
  hideMatches hw h := (hw.faithful_hideMatches h).wellFormed
  hideGroup hw h := (hw.faithful_hideGroup h).wellFormed
  hideRest name label target hw := (hw.faithful_hideRest name label target).wellFormed
  unfold id openLabel closeLabel hw := (hw.faithful_unfold id openLabel closeLabel).wellFormed
  foldAll hw := hw.faithful_foldAll.wellFormed
  unhideAll hw := hw.faithful_unhideAll.wellFormed
  replaceAll old new target hw := hw.replaceAll old new target
  replaceNode hw h := hw.replaceNode h.1 h.2.1 h.2.2
  swap hw h := hw.swap h.1 h.2.1 h.2.2
  detached text hw := (hw.faithful_detached text).wellFormed

/-- What no operation takes away no pass takes away. -/
theorem Invariant.passes {P : Tree → Prop} (hi : Invariant P) : PassInvariant True P where
  beside := hi.beside
  rename := hi.rename
  hideMatches h hs := hi.hideMatches h (hs trivial)
  hideGroup h hs := hi.hideGroup h (hs trivial)
  hideRest := hi.hideRest
  replaceAll := hi.replaceAll

section
variable {P : Tree → Prop} (hi : Invariant P) (h : P t)
include hi h

/-- No command takes the property away, if the tree admits the command. -/
theorem Invariant.perform {c : Command} (ha : t.Admits c) : P (t.perform c).tree := by
  cases c with
  | define label => exact hi.passes.define h label
  | defineMacro label body => exact hi.passes.defineMacro h label body
  | hideAll => exact hi.hideMatches h ha
  | hideAny => exact hi.hideMatches h ha
  | hideGroup => exact hi.hideGroup h ha
  | hideRest name label target => exact hi.hideRest name label target h
  | unhideAll => exact hi.unhideAll h
  | unfold id openLabel closeLabel => exact hi.unfold id openLabel closeLabel h
  | foldAll => exact hi.foldAll h
  | replaceAll old new target => exact hi.replaceAll old new target h
  | ignoreAll => exact hi.beside h rfl rfl
  | unignoreAll => exact hi.beside h rfl rfl
  | renameAll newName scope oldName => exact hi.passes.renameAll h newName scope oldName
  | renameNode id name =>
    simp only [Tree.perform, renameNode, Outcome.reply]
    split
    · exact hi.rename id name h
    · exact h
  | replaceNode => exact hi.replaceNode h ha
  | swap => exact hi.swap h ha
  | detached text => exact hi.detached text h
  | getNode name =>
    simp only [Tree.perform, Tree.getNode]
    split <;> exact hi.beside h rfl rfl
  | resetNode => exact hi.beside h rfl rfl
  | run pipeline => exact hi.passes.runFrom h 0 fun _ => ha

end

theorem WellFormed.perform (hw : WellFormed t) {c : Command} (h : t.Admits c) :
    WellFormed (t.perform c).tree := invariant_wellFormed.perform hw h

end Tree

/-! ## Kept texts -/

/-- Whether a command leaves alone what the document stands for: it does not edit literal text or
move content, and is not a pipeline. -/
def Command.keepsText : Command → Bool
  | .replaceAll .. | .replaceNode .. | .swap .. | .run _ => false
  | _ => true

namespace Tree

variable {t : Tree}

theorem WellFormed.faithful_perform (hw : WellFormed t) {c : Command} (h : t.Admits c)
    (hk : c.keepsText = true) : Faithful t (t.perform c).tree := by
  cases c with
  | define label => exact hw.faithful_define label
  | defineMacro label body => exact hw.faithful_defineMacro label body
  | hideAll => exact hw.faithful_hideMatches h
  | hideAny => exact hw.faithful_hideMatches h
  | hideGroup => exact hw.faithful_hideGroup h
  | hideRest name label target => exact hw.faithful_hideRest name label target
  | unhideAll => exact hw.faithful_unhideAll
  | unfold id openLabel closeLabel => exact hw.faithful_unfold id openLabel closeLabel
  | foldAll => exact hw.faithful_foldAll
  | ignoreAll => exact hw.faithful_alike ⟨rfl, fun _ => ⟨_, _, rfl⟩⟩ rfl
  | unignoreAll => exact hw.faithful_alike ⟨rfl, fun _ => ⟨_, _, rfl⟩⟩ rfl
  | renameAll newName scope oldName => exact hw.faithful_renameAll newName scope oldName
  | renameNode id name => exact hw.faithful_renameNode id name
  | detached text => exact hw.faithful_detached text
  | getNode name => exact hw.faithful_getNode name
  | resetNode => exact hw.faithful_alike ⟨rfl, fun _ => ⟨_, _, rfl⟩⟩ rfl
  | replaceAll | replaceNode | swap | run => cases hk

theorem WellFormed.faithful_after (hw : WellFormed t) {history : List Command}
    (h : AdmitsAll t history) (hk : ∀ c ∈ history, c.keepsText = true) :
    Faithful t (t.after history) := by
  induction history generalizing t with
  | nil => exact .refl hw
  | cons c cs ih =>
    obtain ⟨hc, hcs⟩ := h
    obtain ⟨hkc, hkcs⟩ := List.forall_mem_cons.1 hk
    have hf := hw.faithful_perform hc hkc
    exact hf.trans (ih hf.wellFormed hcs hkcs)

theorem AdmitsAll.append {history history' : List Command} (h : AdmitsAll t history)
    (h' : AdmitsAll (t.after history) history') : AdmitsAll t (history ++ history') := by
  induction history generalizing t with
  | nil => exact h'
  | cons _ history ih => exact ⟨h.1, ih h.2 h'⟩

/-- One command more. -/
theorem AdmitsAll.snoc {history : List Command} {c : Command} (h : AdmitsAll t history)
    (hc : (t.after history).Admits c) : AdmitsAll t (history ++ [c]) := h.append ⟨hc, trivial⟩

theorem AdmitsAll.take {history : List Command} (h : AdmitsAll t history) (n : Nat) :
    AdmitsAll t (history.take n) := by
  induction history generalizing t n with
  | nil => simpa using h
  | cons c cs ih =>
    cases n with
    | zero => trivial
    | succ n => exact ⟨h.1, ih h.2 n⟩

/-! ## Reachable trees -/

/-- A tree as it is made. -/
inductive Initial : Tree → Prop where
  | ofText (text : Text) (config : Config) : Initial (ofText text config)
  | ofRecords {s : RecordSyntax} {serialized : Text} {t : Tree} :
    ofRecords s serialized = .ok t → Initial t

/-- A tree that admitted commands lead to. -/
inductive Reachable : Tree → Prop where
  | initial {t : Tree} : Initial t → Reachable t
  | step {t : Tree} {c : Command} : Reachable t → t.Admits c → Reachable (t.perform c).tree

/-- What holds of a tree of a root only, whatever name the root is given and whatever children are
added to it, holds of every tree as it is made. -/
theorem Initial.induct {P : Tree → Prop} (h : Initial t)
    (htext : ∀ text config, P (Tree.ofText text config))
    (hname : ∀ {t : Tree} (name : Text), root < t.size → P t → P (t.rename root name))
    (hchild : ∀ {t : Tree} (width : Nat) (child : (Text × Text) × Nat), root < t.size → P t →
      P (t.addChild width child)) : P t := by
  cases h with
  | ofText text config => exact htext text config
  | @ofRecords s serialized t h =>
    unfold Tree.ofRecords at h
    split at h
    · cases h
    · cases h
    · rename_i name text rest _
      dsimp only at h
      split at h
      · obtain rfl := Except.ok.inj h
        have hroot : root < ((Tree.ofText text).rename root name).size := by
          rw [size_rename]
          exact Nat.zero_lt_one
        refine (List.foldlRecOn (motive := fun u : Tree => root < u.size ∧ P u) _ _
          ⟨hroot, hname name Nat.zero_lt_one (htext text {})⟩ fun u hu child _ => ?_).2
        exact ⟨by simp [Tree.addChild, setChildren], hchild _ child hu.1 hu.2⟩
      · cases h

theorem Initial.wellFormed (h : Initial t) : WellFormed t := by
  cases h with
  | ofText text config => exact (wellFormed_ofText text config).1
  | ofRecords h => exact wellFormed_ofRecords h

/-- What holds of trees as they are made, and is an invariant, holds of every reachable tree. -/
theorem Reachable.holds {P : Tree → Prop} (h : Reachable t) (hi : Invariant P)
    (h₀ : ∀ t, Initial t → P t) : P t := by
  induction h with
  | initial h => exact h₀ _ h
  | step _ ha ih => exact hi.perform ih ha

theorem Reachable.wellFormed (h : Reachable t) : WellFormed t :=
  h.holds invariant_wellFormed fun _ => Initial.wellFormed

theorem Reachable.after (h : Reachable t) {history : List Command} (ha : AdmitsAll t history) :
    Reachable (t.after history) := by
  induction history generalizing t with
  | nil => exact h
  | cons c cs ih => exact ih (h.step ha.1) ha.2

/-- Hides a region and unfolds it, then hides what stands between its markers and unfolds that. -/
def unfoldTwice : List Command :=
  [.hideAll ['k'] ['x', 'y', 'z'] ['#'] ['*'], .unfold 1 ['<'] ['>'], .hideRest ['x'] ['*'] ['*'],
    .unfold 3 ['('] [')']]

/-- A tree with an unfolded node between the markers of another one. -/
def unfoldedTwice : Tree := (ofText ['a', 'x', 'y', 'z', 'b']).after unfoldTwice

set_option maxRecDepth 20000 in
theorem admitsAll_unfoldTwice : AdmitsAll (ofText ['a', 'x', 'y', 'z', 'b']) unfoldTwice := by
  have hsolid : (ofText ['a', 'x', 'y', 'z', 'b']).SolidMatches ['k'] ['x', 'y', 'z'] ['#'] ['*'] :=
    of_decide_eq_true (by cbv)
  exact ⟨hsolid, trivial, trivial, trivial, trivial⟩

theorem reachable_unfoldedTwice : Reachable unfoldedTwice :=
  (Reachable.initial (.ofText _ _)).after admitsAll_unfoldTwice

end Tree

end GlyphTree
