import GlyphTree.Node
import GlyphTree.Text.Quote

/-!
# Log events

What the operations on a tree report, as values, and how each event is written on a line.
-/

namespace GlyphTree

/-- One thing that happened. -/
inductive Event where
  | labelDefined (label : Text) (glyph : Char)
  | regionSkipped (region : Span) (node : NodeId)
  | unfoldedSkipped (node : NodeId)
  | groupSkipped (group : Nat) (node : NodeId) (region : Span)
  | placed (node : NodeId) (span : Span) (parent : NodeId)
  | hid (regions : Nat) (name : Text) (parents : Nat)
  | unfolded (node parent : NodeId)
  | foldedBack (node parent : NodeId)
  | flattened
  | replaced (count : Nat) (old target : Text)
  | passDone (index : Nat) (op : Text) (created : Nat)
  | nestedStopped (name : Text) (rounds : Nat)
  | nestedDone (name : Text) (rounds : Nat)
deriving DecidableEq, Repr, Inhabited

/-- How much an event matters. -/
inductive Level where
  | trace
  | debug
  | warn
deriving DecidableEq, Repr, Inhabited

/-- The word for a level. -/
def Level.name : Level → Text
  | trace => "TRACE"
  | debug => "DEBUG"
  | warn => "WARN"

/-- A span with two dots between its ends. -/
def Span.dotted (s : Span) : Text := Text.ofNat s.start ++ ".." ++ Text.ofNat s.stop

namespace Event

/-- The level of an event: single nodes are traced, whole operations are for debugging, and a
nested hide that gave up is a warning. -/
def level : Event → Level
  | labelDefined .. | regionSkipped .. | unfoldedSkipped .. | groupSkipped .. | placed .. => .trace
  | nestedStopped .. => .warn
  | _ => .debug

/-- The wording of an event. -/
def message : Event → Text
  | labelDefined label glyph => "define label " ++ label ++ " as " ++ quotedChar glyph
  | regionSkipped region node =>
    "skipping region " ++ region.dotted ++ " of node " ++ Text.ofNat node ++
      ": splits an unfolded node"
  | unfoldedSkipped node => "skipping unfolded node " ++ Text.ofNat node
  | groupSkipped group node region =>
    "skipping group " ++ Text.ofNat group ++ " of node " ++ Text.ofNat node ++ ": " ++
      region.dotted ++ " is not inside its text"
  | placed node span parent =>
    "node " ++ Text.ofNat node ++ " now stands at Some(" ++ span.dotted ++ ") in node " ++
      Text.ofNat parent
  | hid regions name parents =>
    "hid " ++ Text.ofNat regions ++ " region(s) as '" ++ name ++ "' in " ++ Text.ofNat parents ++
      " node(s)"
  | unfolded node parent =>
    "unfolded node " ++ Text.ofNat node ++ " into node " ++ Text.ofNat parent
  | foldedBack node parent =>
    "folded node " ++ Text.ofNat node ++ " back into node " ++ Text.ofNat parent
  | flattened => "unhide_all: tree flattened"
  | replaced count old target =>
    "replaced " ++ Text.ofNat count ++ " occurrence(s) of '" ++ old ++ "' in '" ++ target ++
      "' nodes"
  | passDone index op created =>
    "pass " ++ Text.ofNat index ++ " (" ++ op ++ ") created " ++ Text.ofNat created ++ " node(s)"
  | nestedStopped name rounds =>
    "hide_nested '" ++ name ++ "' stopped after " ++ Text.ofNat rounds ++
      " rounds with matches left"
  | nestedDone name rounds =>
    "hide_nested '" ++ name ++ "' ran " ++ Text.ofNat rounds ++ " round(s)"

/-- The line of an event: its level, a blank and its wording. -/
def line (e : Event) : Text := e.level.name ++ ' ' :: e.message

end Event

end GlyphTree
