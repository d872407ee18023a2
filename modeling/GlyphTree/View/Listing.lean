import GlyphTree.View.Annotated

/-!
# Listings

A tree written out with a line for each node of the document, indented by depth: its number and
name, its annotated text, where it stands and between which siblings, its state, and its groups.
-/

namespace GlyphTree.Tree

/-- The text that a node's groups index: its own, or its parent's while it is unfolded. -/
def groupSource (t : Tree) (n : Node) : Text :=
  if n.isUnfolded then (match n.parent with
    | some p => (t.node p).text
    | none => [])
  else n.text

/-- One entry of a group table. -/
def describeGroup (source : Text) : Option Span → Text
  | none => " -"
  | some s =>
    " \"" ++ escaped ((source.slice? s).getD "?") ++ "\"(" ++ Text.ofNat s.start ++ "," ++
      Text.ofNat s.stop ++ ")"

/-- The group table of a node. -/
def describeGroups (t : Tree) (n : Node) : Text :=
  match n.groups with
  | none => "no groups"
  | some groups =>
    Text.ofNat groups.length ++ " groups" ++ groups.flatMap (describeGroup (t.groupSource n))

/-- The list that shows a node among its siblings. -/
def siblings (t : Tree) (parent id : NodeId) : List NodeId :=
  if (t.children parent).contains id then t.children parent else t.expandedChildren parent

/-- A node's neighbours in the list of its siblings, a hyphen where there is none. -/
def describeNeighbours (siblings : List NodeId) (id : NodeId) : Text :=
  let shown := fun (neighbour : Option NodeId) => (neighbour.map Text.ofNat).getD "-"
  let (before, after) := match siblings.findIdx? (· = id) with
    | none => (none, none)
    | some 0 => (none, siblings[1]?)
    | some (i + 1) => (siblings[i]?, siblings[i + 2]?)
  " <" ++ shown before ++ " " ++ Text.ofNat id ++ " " ++ shown after ++ ">"

/-- Where a node stands, and whether it is ignored. -/
def describePlace (t : Tree) (id : NodeId) (n : Node) : Text :=
  let ignored : Text := if t.isIgnored id then " #i" else []
  match n.place with
  | none => " root" ++ ignored
  | some p =>
    " => " ++ Text.ofNat p.parent ++ "#(" ++ Text.ofNat p.span.start ++ " " ++
      Text.ofNat p.span.stop ++ ")" ++ ignored ++ describeNeighbours (t.siblings p.parent id) id

/-- Whether a node is unfolded or has been expanded into its parent. -/
def describeState (t : Tree) (id : NodeId) (n : Node) : Text :=
  if n.isUnfolded then " folded"
  else match n.parent with
    | some p => if (t.expandedChildren p).contains id then " expanded" else []
    | none => []

/-- The line of a node, without indentation. -/
def describe (t : Tree) (id : NodeId) : Text :=
  let n := t.node id
  Text.ofNat id ++ "#" ++ n.name ++ "# \"" ++ t.annotatedText id ++ "\"" ++
    t.describePlace id n ++ t.describeState id n ++ " " ++ t.describeGroups n

/-- The listing of a tree. -/
def listing (t : Tree) : Text :=
  (t.documentOrder.flatMap fun id =>
    List.replicate (2 * t.depth id) ' ' ++ t.describe id ++ ['\n']) ++
    "#### Total number of nodes defined = " ++ Text.ofNat t.size ++ "."

end GlyphTree.Tree
