import GlyphTree.Pipeline.Pass
import GlyphTree.Tree.Change
import GlyphTree.Tree.Hide
import GlyphTree.Tree.Labels

/-!
# Running pipelines

Passes are run in order on one tree and stop at the first that fails; the tree then is as that pass
left it. A nested hide repeats a hide until nothing matches, so that structures are taken out from
the inside; after each round it may hide a group of the fresh nodes and give them another name.
-/

namespace GlyphTree

/-- The error of a pipeline: the number of the pass that failed, and why. -/
structure PassError where
  index : Nat
  cause : HideError
deriving DecidableEq, Repr, Inhabited

/-- The wording of a pass error. -/
def PassError.message (e : PassError) : Text :=
  "Pass " ++ Text.ofNat e.index ++ " failed: " ++ e.cause.message

namespace Tree

/-- What follows a round of a nested hide that hid something: promotion, then renaming. -/
def finishRound (t : Tree) (name target : Text) (content : Option Promotion)
    (newName : Option Text) : Outcome HideError Unit :=
  let promoted := match content with
    | some p => t.hideGroup p.name p.label p.group.toNat target name
    | none => .done t ()
  promoted.andThen fun t _ =>
    match newName with
    | some newName => .done (t.renameAll newName target name).2 ()
    | none => .done t ()

/-- The rounds of a nested hide, `left` more at most after `rounds`. Stops when a round hides
nothing, or with a warning after the last round allowed. -/
def nestedRounds (name pattern label target : Text) (content : Option Promotion)
    (newName : Option Text) (rounds : Nat) : Nat → Tree → Outcome HideError Nat
  | 0, t => .done t rounds [.nestedStopped name rounds]
  | left + 1, t =>
    (t.hideAny name pattern label target).andThen fun t hidden =>
      if hidden then
        (t.finishRound name target content newName).andThen fun t _ =>
          nestedRounds name pattern label target content newName (rounds + 1) left t
      else .done t rounds

/-- Hides matches round after round. The first round is run under any bound. -/
def hideNested (t : Tree) (name pattern label target : Text) (content : Option Promotion)
    (newName : Option Text) : Outcome HideError Unit :=
  let bound := max t.config.maxRounds.toNat 1
  (nestedRounds name pattern label target content newName 0 bound t).andThen fun t rounds =>
    .done t () [.nestedDone name rounds]

/-- Runs one pass. -/
def runPass (t : Tree) : Pass → Outcome HideError Unit
  | .define label none => (t.define label).map fun _ => ()
  | .define label (some body) => (t.defineMacro label body).map fun _ => ()
  | .hideAll name pattern label target => t.hideAll name pattern label target
  | .hideNested name pattern label target content newName =>
    t.hideNested name pattern label target content newName
  | .hideGroup name label group target source => t.hideGroup name label group.toNat target source
  | .hideRest name label target => t.hideRest name label target
  | .ignore name => .done (t.ignoreAll name) ()
  | .unignore => .done t.unignoreAll ()
  | .rename name target source => .done (t.renameAll name target source).2 ()
  | .replaceAll old new target => (t.replaceAll old new target).map fun _ => ()

/-- Runs passes, the first of them number `index`. Gives the number of nodes each one made. -/
def runFrom (index : Nat) : Pipeline → Tree → Outcome PassError (List Nat)
  | [], t => .done t []
  | p :: ps, t =>
    let o := t.runPass p
    match o.result with
    | .error e => .failed o.tree ⟨index, e⟩ o.events
    | .ok () =>
      let created := o.tree.size - t.size
      let rest := (runFrom (index + 1) ps o.tree).map (created :: ·)
      { rest with events := o.events ++ .passDone index p.op created :: rest.events }

/-- Runs a pipeline. Gives the number of nodes each pass made. -/
def run (t : Tree) (p : Pipeline) : Outcome PassError (List Nat) := runFrom 0 p t

end Tree

end GlyphTree
