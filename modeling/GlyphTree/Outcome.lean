import GlyphTree.Log
import GlyphTree.Tree.Basic

/-!
# Outcomes

What an operation on a tree gives back: the tree as it is afterwards, a result or an error, and
what happened on the way. An operation that fails has an outcome too, so a caller can always go on
with its tree.
-/

namespace GlyphTree

/-- The outcome of an operation with results in `α` and errors in `ε`. -/
structure Outcome (ε α : Type) where
  tree : Tree
  result : Except ε α
  events : List Event

namespace Outcome

variable {ε α β : Type}

/-- A success. -/
def done (tree : Tree) (value : α) (events : List Event := []) : Outcome ε α :=
  ⟨tree, .ok value, events⟩

/-- A failure. -/
def failed (tree : Tree) (error : ε) (events : List Event := []) : Outcome ε α :=
  ⟨tree, .error error, events⟩

/-- The outcome with another result in place of a successful one. -/
def map (f : α → β) (o : Outcome ε α) : Outcome ε β := ⟨o.tree, o.result.map f, o.events⟩

/-- Goes on after a success, with the events of both. -/
def andThen (o : Outcome ε α) (next : Tree → α → Outcome ε β) : Outcome ε β :=
  match o.result with
  | .error e => ⟨o.tree, .error e, o.events⟩
  | .ok a =>
    let o' := next o.tree a
    { o' with events := o.events ++ o'.events }

end Outcome

end GlyphTree
