import GlyphTree.Label.Expand
import GlyphTree.Outcome
import GlyphTree.Pattern.Matcher
import GlyphTree.Tree.Splice

/-!
# Hiding

Every hide first makes a plan, against the unchanged texts: which regions of which nodes are to be
collapsed. Whatever can fail fails there. Then the plan is carried out, node after node.
-/

namespace GlyphTree

/-- The cuts to make, by node. -/
abbrev Plan := List (NodeId × List Cut)

namespace Plan

/-- The number of regions in a plan. -/
def regions (p : Plan) : Nat := p.foldr (fun (_, cuts) n => cuts.length + n) 0

/-- The number of nodes whose text a plan changes. -/
def parents (p : Plan) : Nat := (p.filter fun (_, cuts) => !cuts.isEmpty).length

/-- What carrying out a plan of fresh nodes reports about each of them, when `size` is the number
of the first. -/
def placements : Nat → Plan → List Event
  | _, [] => []
  | size, (parent, cuts) :: rest =>
    let edits := cuts.map Cut.edit
    (cuts.zipIdx size).map (fun (c, id) => .placed id (c.landing edits) parent) ++
      placements (size + cuts.length) rest

end Plan

namespace Tree

/-- Carries out a plan. -/
def applyPlan (t : Tree) (plan : Plan) : Tree :=
  plan.foldl (fun t (parent, cuts) => if cuts.isEmpty then t else t.splice parent cuts) t

/-- The outcome of carrying out a plan of fresh nodes with a name; the result is their number. -/
def carryOut (t : Tree) (name : Text) (plan : Plan) : Outcome HideError Nat :=
  .done (t.applyPlan plan) plan.regions
    (plan.placements t.size ++ [.hid plan.regions name plan.parents])

/-- The cuts of a node that keep its unfolded children together. -/
def wholeCuts (t : Tree) (parent : NodeId) (cuts : List Cut) : List Cut :=
  cuts.filter (t.isWhole parent)

/-- What is reported about the cuts that do not. -/
def splitCuts (t : Tree) (parent : NodeId) (cuts : List Cut) : List Event :=
  (cuts.filter fun c => !t.isWhole parent c).map fun c => .regionSkipped c.range parent

/-! ## Hiding matches -/

/-- The program of a pattern with its labels expanded. -/
def compile (t : Tree) (pattern : Text) : Except HideError Program :=
  match t.labels.expand pattern with
  | .error e => .error e
  | .ok expanded =>
    match Program.compile expanded with
    | .ok program => .ok program
    | .error _ => .error (.patternInvalid expanded)

/-- The group table of a match, its spans counted from the start of the match. -/
def groupTable (m : Match) : Groups :=
  if m.groups.isEmpty then none
  else some (m.groups.map (Option.map (·.shiftDown m.span.start)))

/-- The cut that hides a match. -/
def matchCut (name : Text) (glyph : Char) (m : Match) : Cut :=
  ⟨m.span, glyph, .fresh name (groupTable m)⟩

/-- The cuts that hide all matches in a node's text. -/
def matchCuts (t : Tree) (name : Text) (glyph : Char) (p : Program) (id : NodeId) : List Cut :=
  (p.matchesIn (t.node id).text).map (matchCut name glyph)

/-- Hides every match of a pattern in the targets, and gives the number of regions hidden. -/
def hideMatches (t : Tree) (name pattern label target : Text) : Outcome HideError Nat :=
  match t.labels.glyph label, t.compile pattern with
  | .error e, _ => .failed t e
  | .ok _, .error e => .failed t e
  | .ok glyph, .ok program =>
    let cuts := (t.targets target).map fun id => (id, t.matchCuts name glyph program id)
    let plan := cuts.map fun (id, cuts) => (id, t.wholeCuts id cuts)
    let skipped := cuts.flatMap fun (id, cuts) => t.splitCuts id cuts
    let o := t.carryOut name plan
    { o with events := skipped ++ o.events }

/-- Hides every match of a pattern in the targets. -/
def hideAll (t : Tree) (name pattern label target : Text) : Outcome HideError Unit :=
  (t.hideMatches name pattern label target).map fun _ => ()

/-- Hides every match of a pattern in the targets, and tells whether there was one. -/
def hideAny (t : Tree) (name pattern label target : Text) : Outcome HideError Bool :=
  (t.hideMatches name pattern label target).map (0 < ·)

/-! ## Hiding a capture group -/

/-- The live nodes with a name that are in a scope. -/
def groupSources (t : Tree) (scope source : Text) : List NodeId :=
  (t.named source).filter fun id => t.isLive id && t.inScope scope id

/-- Plans to hide one capture group of each source. Sources that are unfolded are left out, and so
are groups that took no part or lie outside the text; a source without such a group is an error.
What was left out is reported in either case. -/
def planGroup (t : Tree) (name : Text) (glyph : Char) (group : Nat) :
    List NodeId → Except HideError Plan × List Event
  | [] => (.ok [], [])
  | id :: ids =>
    let n := t.node id
    let available := (n.groups.getD []).length
    if group = 0 ∨ available < group then (.error (.groupOutOfRange id group available), [])
    else
      let (rest, events) := t.planGroup name glyph group ids
      if n.isUnfolded then (rest, .unfoldedSkipped id :: events)
      else match n.groupSpan? group with
        | none => (rest, events)
        | some range =>
          if (n.text.slice? range).isNone then (rest, .groupSkipped group id range :: events)
          else
            let cuts := [⟨range, glyph, .fresh name none⟩]
            (rest.map ((id, t.wholeCuts id cuts) :: ·), t.splitCuts id cuts ++ events)

/-- Hides one capture group, counted from one, of every live node in scope with a name. -/
def hideGroup (t : Tree) (name label : Text) (group : Nat) (scope source : Text) :
    Outcome HideError Unit :=
  match t.labels.glyph label with
  | .error e => .failed t e
  | .ok glyph =>
    match t.planGroup name glyph group (t.groupSources scope source) with
    | (.error e, events) => .failed t e events
    | (.ok plan, events) =>
      let o := (t.carryOut name plan).map fun _ => ()
      { o with events := events ++ o.events }

/-! ## Hiding what is left -/

/-- The cuts that hide every literal run of a node's text. -/
def restCuts (t : Tree) (name : Text) (glyph : Char) (id : NodeId) : List Cut :=
  (t.literalRuns id).map fun run => ⟨run, glyph, .fresh name none⟩

/-- Hides every literal run of the targets that have children. -/
def hideRest (t : Tree) (name label target : Text) : Outcome HideError Unit :=
  match t.labels.glyph label with
  | .error e => .failed t e
  | .ok glyph =>
    let ids := (t.targets target).filter fun id => !(t.children id).isEmpty
    (t.carryOut name (ids.map fun id => (id, t.restCuts name glyph id))).map fun _ => ()

end Tree

end GlyphTree
