import GlyphTree.Outcome
import GlyphTree.Tree.Splice

/-!
# Unfolding and folding back

Unfolding a node puts its body into the parent's text, between two markers, and its children into
the parent's list; until it is folded back the body is ordinary text of the parent, and edited as
such. Folding back takes whatever is then between the markers as the node's text.

`unhideAll` folds everything back and then expands all children for good, deepest first.
-/

namespace GlyphTree.Tree

/-! ## Unfolding -/

/-- Puts the body of a node into the text it stands in, between markers. -/
def unfoldAt (t : Tree) (id : NodeId) (p : Place) (f : Fold) : Tree :=
  let n := t.node id
  let region : Text := f.opening :: n.text ++ [f.closing]
  let start := p.span.start
  let offset := start + f.opening.utf8Size
  let t := t.setChildren p.parent ((t.children p.parent).filter (· != id))
  let t := t.rewrite p.parent [⟨p.span, region⟩]
  let t := t.modify id fun n => { n with text := [], children := [] }
  let t := n.children.foldl (fun t c => t.moveChild p.parent 0 offset c) t
  let t := t.modify id fun n => moveGroups 0 offset { n with fold := some f }
  let t := t.putChild p.parent id ⟨start, start + region.byteSize⟩
  { t with folds := id :: t.folds }

/-- Unfolds a node between the glyphs of two labels. Nothing happens, and the result is false, for
the root and for nodes that are not live or already unfolded. -/
def unfold (t : Tree) (id : NodeId) (openLabel closeLabel : Text) : Outcome HideError Bool :=
  match t.node? id, t.labels.glyph openLabel, t.labels.glyph closeLabel with
  | none, _, _ => .failed t (.unknownNode id)
  | some _, .error e, _ => .failed t e
  | some _, .ok _, .error e => .failed t e
  | some n, .ok opening, .ok closing =>
    match n.place with
    | none => .done t false
    | some p =>
      match ((t.node p.parent).text.slice p.span).head? with
      | none => .done t false
      | some glyph =>
        if id = root ∨ !t.isLive id ∨ n.isUnfolded then .done t false
        else .done (t.unfoldAt id p ⟨glyph, opening, closing⟩) true [.unfolded id p.parent]

/-! ## Folding back -/

/-- The cut that collapses the region of an unfolded node. -/
def foldCut (id : NodeId) (p : Place) (f : Fold) : Cut :=
  ⟨p.span, f.glyph,
    .back id ⟨p.span.start + f.opening.utf8Size, p.span.stop - f.closing.utf8Size⟩⟩

/-- Folds a node back, if it is unfolded and listed at its parent, and reports where it stands. -/
def foldBack (t : Tree) (id : NodeId) : Option (Tree × List Event) :=
  match (t.node id).fold, (t.node id).place with
  | some f, some p =>
    if (t.children p.parent).contains id then
      let cut := foldCut id p f
      let t := t.setChildren p.parent ((t.children p.parent).filter (· != id))
      some (t.splice p.parent [cut],
        [.placed id (cut.landing [cut.edit]) p.parent, .foldedBack id p.parent])
    else none
  | _, _ => none

/-- Folds back nodes in the given order. Gives the number folded. -/
def foldEach : List NodeId → Tree → Outcome HideError Nat
  | [], t => .done t 0
  | id :: ids, t =>
    match t.foldBack id with
    | none => foldEach ids t
    | some (t, events) =>
      let o := (foldEach ids t).map (· + 1)
      { o with events := events ++ o.events }

/-- Folds back every unfolded node, the latest first. Gives the number folded. -/
def foldAll (t : Tree) : Outcome HideError Nat := foldEach t.folds { t with folds := [] }

/-! ## Expanding for good -/

/-- Puts the texts of a node's children in place of their glyphs and counts the children among the
expanded ones. -/
def expandChildren (t : Tree) (id : NodeId) : Tree :=
  let kids := t.children id
  let edits := kids.filterMap fun c => (t.node c).span.map (⟨·, (t.node c).text⟩)
  let t := (t.setChildren id []).rewrite id edits
  t.modify id fun n => { n with expanded := n.expanded ++ kids }

/-- Folds everything back and expands all children into their parents, deepest first. -/
def unhideAll (t : Tree) : Outcome HideError Unit :=
  t.foldAll.andThen fun t _ => .done (t.liveOrder.reverse.foldl expandChildren t) () [.flattened]

end GlyphTree.Tree
