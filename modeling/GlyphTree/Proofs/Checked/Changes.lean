import GlyphTree.Proofs.Checked.Splice
import GlyphTree.Proofs.Checked.Walks

/-!
# Checked changes

Edits of literal text, names and moves of content, with checks. What is replaced lies in literal runs,
which are pieces of the text; a move of content goes to nodes there are and takes along children there
are.
-/

namespace GlyphTree

/-- The lists that a function gives for the elements of a list, one after the other. -/
def flatMap? {α β : Type} (f : α → Option (List β)) (l : List α) : Option (List β) := do
  return (← l.mapM f).flatten

theorem flatMap?_eq {α β : Type} {f : α → Option (List β)} {g : α → List β} {l : List α}
    (h : ∀ x ∈ l, f x = some (g x)) : flatMap? f l = some (l.flatMap g) := by
  rw [flatMap?, Tree.mapM_eq_some h, List.flatMap_def]
  rfl

namespace Tree

open Cells Patch

variable {t : Tree} {x id target source a b : NodeId} {old new name : Text} {ids : List NodeId}
  {cs : Cells}

/-! ## Definitions -/

/-- The edits that replace `old` in the literal runs of a node's text. -/
def replacingEdits? (t : Tree) (old new : Text) (id : NodeId) : Option (List Edit) := do
  let n ← t.node? id
  let runs ← t.literalRuns? id
  runs |> flatMap? fun run => do
    let shown ← n.text.slice? run
    return (Text.occurrences old shown).map fun offset =>
      ⟨⟨run.start + offset, run.start + offset + old.byteSize⟩, new⟩

/-- Replaces `old` in the literal text of nodes, and gives the number of replacements. -/
def replaceEach? (old new : Text) : List NodeId → Tree → Option (Nat × Tree)
  | [], t => some (0, t)
  | id :: ids, t => do
    let edits ← t.replacingEdits? old new id
    let t ← t.rewrite? id edits
    let (count, t) ← replaceEach? old new ids t
    return (edits.length + count, t)

/-- Replaces every occurrence of a non-empty text in the literal text of the targets. -/
def replaceAll? (t : Tree) (old new target : Text) : Option (Outcome HideError Nat) :=
  if old.isEmpty then some (.done t 0)
  else do
    let ids ← t.targets? target
    let (count, t) ← replaceEach? old new ids t
    return .done t count [.replaced count old target]

/-- Gives a node another name. -/
def rename? (t : Tree) (id : NodeId) (name : Text) : Option Tree :=
  (t.node? id).map fun _ => t.rename id name

/-- Renames the nodes in scope that have a name, and gives their number. -/
def renameAll? (t : Tree) (newName scope oldName : Text) : Option (Nat × Tree) := do
  let named ← t.named? oldName
  let ids ← filter? (t.inScope? scope) named
  let t ← ids.foldlM (fun t id => t.rename? id newName) t
  return (ids.length, t)

/-- Renames one node. -/
def renameNode? (t : Tree) (id : NodeId) (name : Text) : Option (Outcome HideError Unit) :=
  if id < t.size then do return .done (← t.rename? id name) ()
  else some (.failed t (.unknownNode id))

/-- Gives `target` the name, the text, the groups and the children of `source`. -/
def replaceContent? (t : Tree) (target source : NodeId) : Option Tree :=
  if target = source then some t
  else do
    let n ← t.node? source
    let t ← t.rename? target n.name
    let t ← t.setChildren? source []
    let t ← n.children.foldlM (fun t c => t.modify? c fun m => some (adopted target m)) t
    t.modify? target fun m =>
      some { m with text := n.text, groups := n.groups, children := n.children }

/-- Overwrites one node with the content of another. -/
def replaceNode? (t : Tree) (target source : NodeId) : Option (Outcome HideError Unit) :=
  if source < t.size then
    if target < t.size then do return .done (← t.replaceContent? target source) ()
    else some (.failed t (.unknownNode target))
  else some (.failed t (.unknownNode source))

/-- Exchanges the contents of two nodes by way of a fresh one. -/
def swap? (t : Tree) (a b : NodeId) : Option (Outcome HideError Unit) :=
  if a < t.size then
    if b < t.size then do
      let (scratch, t) := t.detached []
      let t ← t.replaceContent? scratch a
      let t ← t.replaceContent? a b
      return .done (← t.replaceContent? b scratch) ()
    else some (.failed t (.unknownNode b))
  else some (.failed t (.unknownNode a))

/-- The next node with a name in document order. -/
def getNode? (t : Tree) (name : Text) : Option (Option NodeId × Tree) := do
  let named ← t.named? name
  let position := t.cursors.get name
  return match named[position]? with
    | some id => (some id, { t with cursors := t.cursors.set name (position + 1) })
    | none => (none, { t with cursors := t.cursors.reset name })

/-! ## Literal text -/

theorem Layout.replacingEdits?_eq (h : Layout t x cs) (old new : Text) :
    t.replacingEdits? old new x = some (t.replacingEdits old new x) := by
  have hruns : Pieces 0 (t.node x).text (t.literalRuns x) := h.text ▸ h.pieces_literalRuns
  rw [replacingEdits?, bind_eq_of_some (node?_eq h.lt), bind_eq_of_some h.literalRuns?_eq]
  refine flatMap?_eq fun run hrun => ?_
  have hrun : (t.node x).text.Holds run := hruns.holds run hrun
  rw [hrun.slice?_eq]
  rfl

/-- The edits that replace a text cut pieces out of the text they are made in. -/
theorem Shaped.pieces_replacingEdits (hs : Shaped t) (hx : x < t.size) (hold : old ≠ [])
    (new : Text) :
    Pieces 0 (t.node x).text ((t.replacingEdits old new x).map Edit.range) := by
  obtain ⟨ps, z, hl, he, -⟩ := hs.exists_replacing hx hold new
  rw [← he, hl.text]
  exact pieces_edits 0 ps z

theorem WellFormed.replaceEach?_eq (hw : WellFormed t) (ht : t.Housed) (hids : ∀ x ∈ ids, x < t.size)
    (hold : old ≠ []) (new : Text) :
    Tree.replaceEach? old new ids t = some (Tree.replaceEach old new ids t) ∧
      (Tree.replaceEach old new ids t).2.Housed := by
  induction ids generalizing t with
  | nil => exact ⟨rfl, ht⟩
  | cons x ids ih =>
    obtain ⟨hx, hids⟩ := List.forall_mem_cons.1 hids
    obtain ⟨cs, hl⟩ := hw.shaped.layout x hx
    obtain ⟨hrest, hhoused⟩ := ih (hw.rewrite_replacingEdits hx hold new)
      (ht.rewrite x (t.replacingEdits old new x)) fun y hy => by
        rw [size_rewrite]
        exact hids y hy
    refine ⟨?_, hhoused⟩
    rw [Tree.replaceEach?, bind_eq_of_some (hl.replacingEdits?_eq old new),
      bind_eq_of_some (rewrite?_eq ht hx (hw.shaped.pieces_replacingEdits hx hold new)),
      bind_eq_of_some hrest]
    rfl

theorem WellFormed.replaceAll?_eq (hw : WellFormed t) (ht : t.Housed) (old new target : Text) :
    t.replaceAll? old new target = some (t.replaceAll old new target) ∧
      (t.replaceAll old new target).tree.Housed := by
  rw [replaceAll?, Tree.replaceAll]
  split
  · exact ⟨rfl, ht⟩
  · next hold =>
    obtain ⟨heach, hhoused⟩ := hw.replaceEach?_eq ht
      (fun x hx => hw.shaped.mem_targets hx) (by simpa using hold) new
    rw [bind_eq_of_some (hw.shaped.targets?_eq target), bind_eq_of_some heach]
    exact ⟨rfl, hhoused⟩

/-! ## Names -/

theorem rename?_eq (h : id < t.size) (name : Text) : t.rename? id name = some (t.rename id name) := by
  rw [rename?, node?_eq h]
  rfl

theorem Housed.rename (h : t.Housed) (id : NodeId) (name : Text) : (t.rename id name).Housed :=
  fun j => by
    rw [size_rename, node_rename]
    split
    · exact h j
    · exact h j

theorem foldlM_rename? (hids : ∀ id ∈ ids, id < t.size) (name : Text) :
    ids.foldlM (fun t id => t.rename? id name) t =
      some (ids.foldl (fun t id => t.rename id name) t) := by
  refine (foldlM_eq_some (P := fun u : Tree => u.size = t.size) rfl fun u hu id hid => ?_).1
  exact ⟨rename?_eq (hu ▸ hids id hid) name, (size_rename u id name).trans hu⟩

theorem Shaped.renameAll?_eq (hs : Shaped t) (newName scope oldName : Text) :
    t.renameAll? newName scope oldName = some (t.renameAll newName scope oldName) := by
  have hdoc : ∀ id ∈ t.named oldName, id ∈ t.documentOrder := fun id hid =>
    (List.mem_filter.1 hid).1
  have hscope : filter? (t.inScope? scope) (t.named oldName) =
      some ((t.named oldName).filter (t.inScope scope)) :=
    filter?_eq fun id hid => hs.inScope?_eq scope (hdoc id hid)
  rw [renameAll?, bind_eq_of_some (hs.named?_eq oldName), bind_eq_of_some hscope,
    bind_eq_of_some (foldlM_rename? (fun id hid =>
      hs.lt_of_mem_documentOrder (hdoc id (List.mem_filter.1 hid).1)) newName)]
  rfl

theorem renameNode?_eq (t : Tree) (id : NodeId) (name : Text) :
    t.renameNode? id name = some (t.renameNode id name) := by
  rw [renameNode?, renameNode]
  split
  · next h => rw [rename?_eq h]; rfl
  · rfl

theorem Shaped.getNode?_eq (hs : Shaped t) (name : Text) :
    t.getNode? name = some (t.getNode name) := by
  rw [getNode?, bind_eq_of_some (hs.named?_eq name), getNode]
  rfl

/-! ## Content -/

theorem Housed.adopted {c : NodeId} (h : t.Housed) (htarget : target < t.size) :
    (t.modify c (adopted target)).Housed :=
  h.modify fun hn => ⟨hn.1, fun p hp => by
    obtain ⟨pl, hpl, rfl⟩ := Option.map_eq_some_iff.1 hp
    obtain ⟨pl', -, rfl⟩ := Option.map_eq_some_iff.1 hpl
    exact htarget⟩

theorem Housed.replaceContent?_eq (h : t.Housed) (ht : target < t.size) (hs : source < t.size) :
    t.replaceContent? target source = some (t.replaceContent target source) ∧
      (t.replaceContent target source).Housed := by
  by_cases hne : target = source
  · rw [replaceContent?, replaceContent, if_pos hne, if_pos hne]
    exact ⟨rfl, h⟩
  rw [replaceContent?, if_neg hne, replaceContent_eq hne, bind_eq_of_some (node?_eq hs),
    bind_eq_of_some (rename?_eq ht _), bind_eq_of_some (setChildren?_eq (by simpa using hs) _)]
  have hcleared : ((t.rename target (t.node source).name).setChildren source []).Housed :=
    (h.rename target _).setChildren fun c hc => by cases hc
  have hsize : ((t.rename target (t.node source).name).setChildren source []).size = t.size := by
    simp
  generalize (t.rename target (t.node source).name).setChildren source [] = u at hcleared hsize
  obtain ⟨hfold, hhoused, hlast⟩ := foldlM_eq_some (P := fun v : Tree => v.Housed ∧ v.size = t.size)
    (f := fun t c => t.modify? c fun m => some (GlyphTree.Tree.adopted target m))
    (g := fun t c => t.modify c (GlyphTree.Tree.adopted target)) (l := t.children source)
    ⟨hcleared, hsize⟩ fun v hv c hc =>
      ⟨modify?_some (hv.2 ▸ h.lt_of_mem hc) _, hv.1.adopted (hv.2 ▸ ht),
        (size_modify ..).trans hv.2⟩
  refine ⟨(bind_eq_of_some hfold _).trans (modify?_some (hlast ▸ ht) _), hhoused.modify fun hn => ?_⟩
  exact ⟨fun c hc => hlast ▸ h.lt_of_mem hc, hn.2⟩

theorem Housed.replaceNode?_eq (h : t.Housed) (target source : NodeId) :
    t.replaceNode? target source = some (t.replaceNode target source) ∧
      (t.replaceNode target source).tree.Housed := by
  rw [replaceNode?, replaceNode]
  split
  · next hs =>
    split
    · next ht =>
      obtain ⟨hcontent, hhoused⟩ := h.replaceContent?_eq ht hs
      rw [hcontent]
      exact ⟨rfl, hhoused⟩
    · exact ⟨rfl, h⟩
  · exact ⟨rfl, h⟩

theorem Housed.detached (h : t.Housed) (text : Text) : (t.detached text).2.Housed :=
  h.alloc ⟨fun c hc => (List.not_mem_nil hc).elim, fun p hp => by cases hp⟩

theorem Housed.swap?_eq (h : t.Housed) (a b : NodeId) :
    t.swap? a b = some (t.swap a b) ∧ (t.swap a b).tree.Housed := by
  by_cases ha : a < t.size
  · by_cases hb : b < t.size
    · have hsize : (t.detached []).2.size = t.size + 1 := size_alloc t _
      have hlt : ∀ {j}, j < t.size → j < (t.detached []).2.size := fun hj =>
        hsize ▸ Nat.lt_succ_of_lt hj
      have hscratch : t.size < (t.detached []).2.size := hsize ▸ Nat.lt_succ_self _
      have hstep : ∀ {u : Tree}, u.Housed → u.size = t.size + 1 → ∀ {p q}, p ≤ t.size → q ≤ t.size →
          u.replaceContent? p q = some (u.replaceContent p q) ∧ (u.replaceContent p q).Housed ∧
            (u.replaceContent p q).size = t.size + 1 := fun {u} hu hus {p q} hp hq => by
        obtain ⟨hcontent, hhoused⟩ := hu.replaceContent?_eq (Nat.lt_of_le_of_lt hp (by omega))
          (Nat.lt_of_le_of_lt hq (by omega))
        refine ⟨hcontent, hhoused, ?_⟩
        by_cases hpq : p = q
        · rwa [replaceContent, if_pos hpq]
        · rwa [size_replaceContent hpq]
      obtain ⟨h₁, hh₁, hs₁⟩ := hstep (h.detached []) (size_alloc t _) le_rfl ha.le
      obtain ⟨h₂, hh₂, hs₂⟩ := hstep hh₁ hs₁ ha.le hb.le
      obtain ⟨h₃, hh₃, -⟩ := hstep hh₂ hs₂ hb.le le_rfl
      rw [swap_tree ha hb]
      refine ⟨?_, hh₃⟩
      rw [swap?, swap, if_pos ha, if_pos hb, if_pos ha, if_pos hb]
      exact (bind_eq_of_some h₁ _).trans ((bind_eq_of_some h₂ _).trans (bind_eq_of_some h₃ _))
    · rw [swap?, swap, if_pos ha, if_neg hb, if_pos ha, if_neg hb]
      exact ⟨rfl, h⟩
  · rw [swap?, swap, if_neg ha, if_neg ha]
    exact ⟨rfl, h⟩

end Tree

end GlyphTree
