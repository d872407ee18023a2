import GlyphTree.Proofs.Checked.Changes
import GlyphTree.View.Listing
import GlyphTree.View.Snapshot

/-!
# Checked views

What only looks at a tree, with checks: annotated texts, the listing, snapshots, resolved texts and
the grouping by text. The marks of the children, and what they give way to, are at the places of the
markers and glyphs, which are pieces of the text; and a tree that is laid out has an end below each
of its nodes.
-/

namespace GlyphTree

/-! ## Definitions -/

/-- The marks of a child. -/
def Mark.ofChild? (id : NodeId) (n : Node) : Option (List Mark) := do
  return match ← n.atoms? with
    | [opening, closing] => [⟨opening, openingSign id⟩, ⟨closing, closingSign id⟩]
    | atoms => atoms.map (⟨·, hiddenSign id⟩)

/-- The snapshot of a number that no node has. -/
def Snapshot.ofUnknown (id : NodeId) (ignored : Bool) : Snapshot :=
  ⟨id, [], [], none, none, none, ignored, false, []⟩

namespace Tree

open Cells

variable {t : Tree} {p id x : NodeId} {d depth steps : Nat} {cs : Cells}

/-- The marks of a node's children, by start. -/
def marks? (t : Tree) (id : NodeId) : Option (List Mark) := do
  let kids ← t.children? id
  let marks ← kids |> flatMap? fun c => do Mark.ofChild? c (← t.node? c)
  return sortByKey (·.range.start) marks

/-- The text of a node with its children shown by number, empty for an unknown number. -/
def annotatedText? (t : Tree) (id : NodeId) : Option Text :=
  match t.node? id with
  | none => some []
  | some n => do
    let marks ← t.marks? id
    Mark.render? n.text marks

/-- The text that a node's groups index. -/
def groupSource? (t : Tree) (n : Node) : Option Text :=
  if n.isUnfolded then (match n.parent with
    | some p => (t.node? p).map Node.text
    | none => some [])
  else some n.text

/-- The group table of a node. -/
def describeGroups? (t : Tree) (n : Node) : Option Text :=
  match n.groups with
  | none => some "no groups"
  | some groups => do
    let source ← t.groupSource? n
    return Text.ofNat groups.length ++ " groups" ++ groups.flatMap (describeGroup source)

/-- The list that shows a node among its siblings. -/
def siblings? (t : Tree) (parent id : NodeId) : Option (List NodeId) := do
  let kids ← t.children? parent
  if kids.contains id then return kids else t.expandedChildren? parent

/-- Where a node stands, and whether it is ignored. -/
def describePlace? (t : Tree) (id : NodeId) (n : Node) : Option Text :=
  let ignored : Text := if t.isIgnored id then " #i" else []
  match n.place with
  | none => some (" root" ++ ignored)
  | some p => do
    let siblings ← t.siblings? p.parent id
    return " => " ++ Text.ofNat p.parent ++ "#(" ++ Text.ofNat p.span.start ++ " " ++
      Text.ofNat p.span.stop ++ ")" ++ ignored ++ describeNeighbours siblings id

/-- Whether a node is unfolded or has been expanded into its parent. -/
def describeState? (t : Tree) (id : NodeId) (n : Node) : Option Text :=
  if n.isUnfolded then some " folded"
  else match n.parent with
    | some p => do return if (← t.expandedChildren? p).contains id then " expanded" else []
    | none => some []

/-- The line of a node, without indentation. -/
def describe? (t : Tree) (id : NodeId) : Option Text := do
  let n ← t.node? id
  let text ← t.annotatedText? id
  let place ← t.describePlace? id n
  let state ← t.describeState? id n
  let groups ← t.describeGroups? n
  return Text.ofNat id ++ "#" ++ n.name ++ "# \"" ++ text ++ "\"" ++ place ++ state ++ " " ++ groups

/-- The listing of a tree. -/
def listing? (t : Tree) : Option Text := do
  let ids ← t.documentOrder?
  let lines ← ids |> flatMap? fun id => do
    let depth ← t.depth? id
    let line ← t.describe? id
    return List.replicate (2 * depth) ' ' ++ line ++ ['\n']
  return lines ++ "#### Total number of nodes defined = " ++ Text.ofNat t.size ++ "."

/-- The snapshot of a node and what is below it, if that has an end. -/
def snapshotWithin? (t : Tree) : Nat → NodeId → Option Snapshot
  | 0, _ => none
  | steps + 1, id => do
    let n ← t.node? id
    let children ← n.children.mapM (t.snapshotWithin? steps)
    return ⟨id, n.name, n.text, n.span, (t.glyphOf n).bind t.labels.labelFor, n.groups,
      t.isIgnored id, n.isUnfolded, children⟩

/-- The snapshot of a node and what is below it; for an unknown number one with empty fields. -/
def snapshotOf? (t : Tree) (id : NodeId) : Option Snapshot :=
  if id < t.size then t.snapshotWithin? (t.size + 1) id
  else some (.ofUnknown id (t.isIgnored id))

/-- The edits that resolve a child, if there is a text for it where one is needed. -/
def childEdits? (t : Tree) (resolved : NodeId → Option Text) (c : NodeId) : Option (List Edit) := do
  let n ← t.node? c
  let atoms ← n.atoms?
  if n.isUnfolded then return atoms.map (⟨·, []⟩)
  else do
    let text ← resolved c
    return atoms.map (⟨·, text⟩)

/-- The edits that resolve a text. -/
def resolvingEdits? (t : Tree) (resolved : NodeId → Option Text) (id : NodeId) :
    Option (List Edit) := do
  let edits ← flatMap? (t.childEdits? resolved) (← t.children? id)
  return sortByKey (·.range.start) edits

/-- The text that a node stands for, if there is an end below it. -/
def resolve? (t : Tree) : Nat → NodeId → Option Text
  | 0, _ => none
  | steps + 1, id => do
    let n ← t.node? id
    let edits ← t.resolvingEdits? (t.resolve? steps) id
    applyEdits? n.text edits

/-- The text that a node stands for, without any glyph or marker of a child. There is one for every
node, and none for an unknown number. -/
def expandedText? (t : Tree) (id : NodeId) : Option (Option Text) :=
  if id < t.size then (t.resolve? t.size id).map some else some none

/-- Whether the parent of a node has a name. -/
def isBelow? (t : Tree) (parentName : Text) (id : NodeId) : Option Bool := do
  let n ← t.node? id
  if t.config.isWildcard parentName then return true
  else match n.parent with
    | none => return false
    | some p => do return (← t.node? p).name = parentName

/-- The nodes with a name, grouped by text; the groups are in the order of their texts. -/
def groupByText? (t : Tree) (parentName name : Text) : Option (List (Text × List NodeId)) := do
  let named ← t.named? name
  let ids ← filter? (t.isBelow? parentName) named
  ids.foldlM (fun groups id => do return addToGroup (← t.node? id).text id groups) []

/-! ## Annotated texts -/

theorem map_range_ofChild (id : NodeId) (n : Node) :
    (Mark.ofChild id n).map Mark.range = n.atoms := by
  unfold Mark.ofChild
  split
  · next h => rw [h]; rfl
  · rw [List.map_map]
    exact List.map_id _

theorem map_range_marks (t : Tree) (id : NodeId) : (t.marks id).map Mark.range = t.atoms id := by
  rw [marks, ← sortByKey_map, List.map_flatMap, Tree.atoms]
  simp only [map_range_ofChild]

theorem Layout.marks?_eq (h : Layout t p cs) : t.marks? p = some (t.marks p) := by
  have hkids : flatMap? (fun c => do Mark.ofChild? c (← t.node? c)) (t.children p) =
      some ((t.children p).flatMap fun c => Mark.ofChild c (t.node c)) := flatMap?_eq fun c hc => by
    rw [bind_eq_of_some (node?_eq (h.lt_size hc)), Mark.ofChild?, bind_eq_of_some (h.atoms?_child hc)]
    rfl
  rw [marks?, bind_eq_of_some (children?_eq h.lt)]
  exact bind_eq_of_some hkids _

theorem node?_eq_none (h : t.size ≤ id) : t.node? id = none := Array.getElem?_eq_none h

theorem Shaped.annotatedText?_eq (hs : Shaped t) (id : NodeId) :
    t.annotatedText? id = some (t.annotatedText id) := by
  rw [annotatedText?, annotatedText]
  rcases Nat.lt_or_ge id t.size with hid | hid
  · obtain ⟨cs, hl⟩ := hs.layout id hid
    -- the marks take the places of the cells that are not literal
    have hmarks : Pieces 0 (t.node id).text ((t.marks id).map Mark.range) := by
      rw [map_range_marks, hl.atoms, hl.text]
      exact pieces_marks 0 cs
    rw [node?_eq hid]
    exact (bind_eq_of_some hl.marks?_eq _).trans (Mark.render?_eq hmarks)
  · rw [node?_eq_none hid, marks, Tree.children, node_eq_default hid]
    rfl

/-! ## Listings -/

section
variable (ht : t.Housed)
include ht

theorem Housed.groupSource?_eq (id : NodeId) :
    t.groupSource? (t.node id) = some (t.groupSource (t.node id)) := by
  rw [groupSource?, groupSource]
  split
  · cases hp : (t.node id).parent with
    | none => rfl
    | some p => simp [node?_eq ((ht id).2 p hp)]
  · rfl

theorem Housed.describeGroups?_eq (id : NodeId) :
    t.describeGroups? (t.node id) = some (t.describeGroups (t.node id)) := by
  rw [describeGroups?, describeGroups]
  cases (t.node id).groups with
  | none => rfl
  | some groups => exact bind_eq_of_some (ht.groupSource?_eq id) _

theorem Housed.describePlace?_eq (id : NodeId) :
    t.describePlace? id (t.node id) = some (t.describePlace id (t.node id)) := by
  rw [describePlace?, describePlace]
  cases hp : (t.node id).place with
  | none => rfl
  | some pl =>
    have hlt : pl.parent < t.size := (ht id).2 pl.parent (by rw [Node.parent, hp]; rfl)
    have hsiblings : t.siblings? pl.parent id = some (t.siblings pl.parent id) := by
      rw [siblings?, siblings, bind_eq_of_some (children?_eq hlt)]
      split
      · rfl
      · exact expandedChildren?_eq hlt
    exact bind_eq_of_some hsiblings _

theorem Housed.describeState?_eq (id : NodeId) :
    t.describeState? id (t.node id) = some (t.describeState id (t.node id)) := by
  rw [describeState?, describeState]
  split
  · rfl
  · cases hp : (t.node id).parent with
    | none => rfl
    | some p => exact bind_eq_of_some (expandedChildren?_eq ((ht id).2 p hp)) _

end

theorem Shaped.describe?_eq (hs : Shaped t) (ht : t.Housed) (hid : id < t.size) :
    t.describe? id = some (t.describe id) := by
  rw [describe?, bind_eq_of_some (node?_eq hid), bind_eq_of_some (hs.annotatedText?_eq id),
    bind_eq_of_some (ht.describePlace?_eq id), bind_eq_of_some (ht.describeState?_eq id),
    bind_eq_of_some (ht.describeGroups?_eq id)]
  rfl

theorem Shaped.listing?_eq (hs : Shaped t) (ht : t.Housed) : t.listing? = some t.listing := by
  have hlines : flatMap? (fun id => do
      let depth ← t.depth? id
      let line ← t.describe? id
      return List.replicate (2 * depth) ' ' ++ line ++ ['\n']) t.documentOrder =
        some (t.documentOrder.flatMap fun id =>
          List.replicate (2 * t.depth id) ' ' ++ t.describe id ++ ['\n']) := by
    refine flatMap?_eq fun id hid => ?_
    rw [bind_eq_of_some (hs.depth?_eq hid),
      bind_eq_of_some (hs.describe?_eq ht (hs.lt_of_mem_documentOrder hid))]
    rfl
  rw [listing?, bind_eq_of_some hs.documentOrder?_eq]
  exact bind_eq_of_some hlines _

/-! ## Snapshots -/

theorem Housed.snapshotWithin?_eq (ht : t.Housed) (hx : x < t.size) (h : Ends t.children d x)
    (hsteps : d ≤ steps) (hdepth : d ≤ depth) :
    t.snapshotWithin? steps x = some (t.snapshotWithin depth x) := by
  induction d generalizing x steps depth with
  | zero => exact h.elim
  | succ d ih =>
    obtain ⟨steps, rfl⟩ : ∃ n, steps = n + 1 := ⟨steps - 1, by omega⟩
    obtain ⟨depth, rfl⟩ : ∃ n, depth = n + 1 := ⟨depth - 1, by omega⟩
    have hkids : (t.node x).children.mapM (t.snapshotWithin? steps) =
        some ((t.node x).children.map (t.snapshotWithin depth)) := mapM_eq_some fun c hc =>
      ih (ht.lt_of_mem hc) (h c hc) (Nat.le_of_succ_le_succ hsteps) (Nat.le_of_succ_le_succ hdepth)
    rw [snapshotWithin?, snapshotWithin, bind_eq_of_some (node?_eq hx)]
    exact bind_eq_of_some hkids _

theorem Shaped.snapshotOf?_eq (hs : Shaped t) (ht : t.Housed) (id : NodeId) :
    t.snapshotOf? id = some (t.snapshotOf id) := by
  rw [snapshotOf?]
  split
  · next hid =>
    exact ht.snapshotWithin?_eq hid (hs.ends_children hid) (Nat.le_succ _) (Nat.le_succ _)
  · next hid =>
    rw [snapshotOf, snapshotWithin, node_eq_default (Nat.not_lt.1 hid)]
    rfl

/-! ## Resolved texts -/

/-- What gives way when a text is resolved are pieces of it. -/
theorem Layout.pieces_resolvingEdits (h : Layout t p cs) (resolved : NodeId → Text) :
    Pieces 0 (t.node p).text ((t.resolvingEdits resolved p).map Edit.range) := by
  rw [h.text, h.resolvingEdits, List.map_map]
  exact pieces_marks 0 cs

theorem Layout.resolvingEdits?_eq (h : Layout t p cs) {resolved? : NodeId → Option Text}
    {resolved : NodeId → Text} (hr : ∀ c ∈ t.children p, resolved? c = some (resolved c)) :
    t.resolvingEdits? resolved? p = some (t.resolvingEdits resolved p) := by
  have hkids : flatMap? (t.childEdits? resolved?) (t.children p) =
      some ((t.children p).flatMap fun c =>
        if (t.node c).isUnfolded then (t.node c).atoms.map fun s => ⟨s, []⟩
        else (t.node c).atoms.map fun s => ⟨s, resolved c⟩) := flatMap?_eq fun c hc => by
    rw [childEdits?, bind_eq_of_some (node?_eq (h.lt_size hc)), bind_eq_of_some (h.atoms?_child hc)]
    split
    · rfl
    · exact bind_eq_of_some (hr c hc) _
  rw [resolvingEdits?, bind_eq_of_some (children?_eq h.lt)]
  exact bind_eq_of_some hkids _

theorem Shaped.resolve?_eq (hs : Shaped t) (hx : x < t.size) (h : Ends t.children d x)
    (hsteps : d ≤ steps) (hdepth : d ≤ depth) : t.resolve? steps x = some (t.resolve depth x) := by
  induction d generalizing x steps depth with
  | zero => exact h.elim
  | succ d ih =>
    obtain ⟨steps, rfl⟩ : ∃ n, steps = n + 1 := ⟨steps - 1, by omega⟩
    obtain ⟨depth, rfl⟩ : ∃ n, depth = n + 1 := ⟨depth - 1, by omega⟩
    obtain ⟨cs, hl⟩ := hs.layout x hx
    have hedits := hl.resolvingEdits?_eq fun c hc =>
      ih (hl.lt_size hc) (h c hc) (Nat.le_of_succ_le_succ hsteps) (Nat.le_of_succ_le_succ hdepth)
    rw [resolve?, resolve, bind_eq_of_some (node?_eq hx), bind_eq_of_some hedits]
    exact applyEdits?_eq (hl.pieces_resolvingEdits _)

theorem Shaped.expandedText?_eq (hs : Shaped t) (id : NodeId) :
    t.expandedText? id = some (t.expandedText id) := by
  rw [expandedText?, expandedText]
  split
  · next hid =>
    rw [hs.resolve?_eq hid (hs.ends_children hid) le_rfl le_rfl]
    rfl
  · rfl

/-! ## Grouping by text -/

theorem Housed.isBelow?_eq (ht : t.Housed) (hid : id < t.size) (parentName : Text) :
    t.isBelow? parentName id = some (t.config.isWildcard parentName ||
      match (t.node id).parent with
      | none => false
      | some p => (t.node p).name = parentName) := by
  rw [isBelow?, bind_eq_of_some (node?_eq hid)]
  cases t.config.isWildcard parentName with
  | true => rfl
  | false =>
    cases hp : (t.node id).parent with
    | none => rfl
    | some p => exact bind_eq_of_some (node?_eq ((ht id).2 p hp)) _

theorem Shaped.groupByText?_eq (hs : Shaped t) (ht : t.Housed) (parentName name : Text) :
    t.groupByText? parentName name = some (t.groupByText parentName name) := by
  have hlt : ∀ id ∈ t.named name, id < t.size := fun id hid =>
    hs.lt_of_mem_documentOrder (List.mem_filter.1 hid).1
  rw [groupByText?, bind_eq_of_some (hs.named?_eq name),
    bind_eq_of_some (filter?_eq fun id hid => ht.isBelow?_eq (hlt id hid) parentName)]
  refine (foldlM_eq_some (P := fun _ => True) trivial fun groups _ id hid => ⟨?_, trivial⟩).1
  exact bind_eq_of_some (node?_eq (hlt id (List.mem_filter.1 hid).1)) _

end Tree

end GlyphTree
