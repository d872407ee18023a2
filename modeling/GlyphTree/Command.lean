import GlyphTree.Pipeline.Run
import GlyphTree.Tree.Query
import GlyphTree.Tree.Records
import GlyphTree.Tree.Unfold

/-!
# Commands

Every operation that may change a tree, as one type, so that a history is a list of commands.
`Tree.perform` carries out one of them; `Tree.after` is the tree that a history leaves behind,
whether its commands succeeded or failed.
-/

namespace GlyphTree

/-- An operation on a tree, with its arguments. -/
inductive Command where
  | define (label : Text)
  | defineMacro (label body : Text)
  | hideAll (name pattern label target : Text)
  | hideAny (name pattern label target : Text)
  | hideGroup (name label : Text) (group : Nat) (scope source : Text)
  | hideRest (name label target : Text)
  | unhideAll
  | unfold (id : NodeId) (openLabel closeLabel : Text)
  | foldAll
  | replaceAll (old new target : Text)
  | ignoreAll (name : Text)
  | unignoreAll
  | renameAll (newName scope oldName : Text)
  | renameNode (id : NodeId) (name : Text)
  | replaceNode (target source : NodeId)
  | swap (a b : NodeId)
  | detached (text : Text)
  | getNode (name : Text)
  | resetNode (name : Text)
  | run (pipeline : Pipeline)
deriving DecidableEq, Repr, Inhabited

/-- Why a command fails: for one reason, or in a pass of a pipeline. -/
inductive CommandError where
  | hide (e : HideError)
  | pass (e : PassError)
deriving DecidableEq, Repr, Inhabited

/-- What a command answers. -/
inductive Reply where
  | done
  | flag (b : Bool)
  | count (n : Nat)
  | glyph (c : Char)
  | node (id : Option NodeId)
  | created (counts : List Nat)
deriving DecidableEq, Repr, Inhabited

namespace Outcome

/-- The outcome of a command from that of an operation. -/
def reply {α : Type} (o : Outcome HideError α) (f : α → Reply) : Outcome CommandError Reply :=
  ⟨o.tree, (o.result.map f).mapError .hide, o.events⟩

end Outcome

namespace Tree

/-- Carries out a command. -/
def perform (t : Tree) : Command → Outcome CommandError Reply
  | .define label => (t.define label).reply .glyph
  | .defineMacro label body => (t.defineMacro label body).reply .glyph
  | .hideAll name pattern label target =>
    (t.hideAll name pattern label target).reply fun _ => .done
  | .hideAny name pattern label target => (t.hideAny name pattern label target).reply .flag
  | .hideGroup name label group scope source =>
    (t.hideGroup name label group scope source).reply fun _ => .done
  | .hideRest name label target => (t.hideRest name label target).reply fun _ => .done
  | .unhideAll => t.unhideAll.reply fun _ => .done
  | .unfold id openLabel closeLabel => (t.unfold id openLabel closeLabel).reply .flag
  | .foldAll => t.foldAll.reply .count
  | .replaceAll old new target => (t.replaceAll old new target).reply .count
  | .ignoreAll name => .done (t.ignoreAll name) .done
  | .unignoreAll => .done t.unignoreAll .done
  | .renameAll newName scope oldName =>
    let (n, t) := t.renameAll newName scope oldName
    .done t (.count n)
  | .renameNode id name => (t.renameNode id name).reply fun _ => .done
  | .replaceNode target source => (t.replaceNode target source).reply fun _ => .done
  | .swap a b => (t.swap a b).reply fun _ => .done
  | .detached text =>
    let (id, t) := t.detached text
    .done t (.node (some id))
  | .getNode name =>
    let (id, t) := t.getNode name
    .done t (.node id)
  | .resetNode name => .done (t.resetNode name) .done
  | .run pipeline =>
    let o := t.run pipeline
    ⟨o.tree, (o.result.map .created).mapError .pass, o.events⟩

/-- The tree that a history of commands leaves behind. -/
def after (t : Tree) (history : List Command) : Tree :=
  history.foldl (fun t c => (t.perform c).tree) t

end Tree

end GlyphTree
