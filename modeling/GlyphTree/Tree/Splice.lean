import GlyphTree.Tree.Content

/-!
# Collapsing regions

A cut is a region of a node's text that is to become one glyph. `Tree.splice` collapses the sorted
cuts of one text in a single pass: a fresh node, or an unfolded one that is folded back, comes to
stand on each glyph and takes over the children inside its region.
-/

namespace GlyphTree

/-- Which node comes to stand for a cut: a fresh one with a name and a group table, or an unfolded
one whose body is `inner`. -/
inductive Origin where
  | fresh (name : Text) (groups : Groups)
  | back (node : NodeId) (inner : Span)
deriving DecidableEq, Repr, Inhabited

/-- A region of a text to collapse into a glyph. -/
structure Cut where
  range : Span
  glyph : Char
  origin : Origin
deriving DecidableEq, Repr, Inhabited

namespace Cut

/-- The edit that collapses the region. -/
def edit (c : Cut) : Edit := ⟨c.range, [c.glyph]⟩

/-- Where the new node is to stand once all `edits` of its text are made. -/
def landing (edits : List Edit) (c : Cut) : Span :=
  let start := remapStart c.range.start edits
  ⟨start, start + c.glyph.utf8Size⟩

/-- The part of the region that becomes the node's text. -/
def body (c : Cut) : Span :=
  match c.origin with
  | .fresh _ _ => c.range
  | .back _ inner => inner

/-- Whether a cut takes both atoms of a child or none, and none of them in part. -/
def respects (c : Cut) (atoms : List Span) : Bool :=
  let inside := (atoms.filter c.range.encloses).length
  let touched := (atoms.filter c.range.overlaps).length
  touched = inside && (inside = 0 || inside = atoms.length)

end Cut

namespace Tree

/-- Whether a cut of a node's text keeps the markers of each unfolded child together. -/
def isWhole (t : Tree) (parent : NodeId) (c : Cut) : Bool :=
  (t.children parent).all fun child => c.respects (t.node child).atoms

/-- The tree with the node of a cut in it, not yet standing anywhere new, and its number. `text` is
the text cut, as it was before. -/
def prepare (t : Tree) (text : Text) (c : Cut) : Tree × NodeId :=
  match c.origin with
  | .fresh name groups =>
    (t.alloc ⟨name, text.slice c.range, none, groups, none, [], []⟩, t.size)
  | .back node inner =>
    (t.modify node fun n =>
      moveGroups inner.start 0 { n with text := text.slice inner, fold := none }, node)

/-- Makes the node of a cut stand on its glyph, with the children `moved` out of the region. -/
def settle (t : Tree) (parent : NodeId) (text : Text) (edits : List Edit) (c : Cut)
    (moved : List NodeId) : Tree :=
  let (t, id) := t.prepare text c
  let t := moved.foldl (fun t child => t.moveChild id c.body.start 0 child) t
  t.putChild parent id (c.landing edits)

/-- Settles cuts one after the other. `kids` are the children not yet taken over, with their spans
in the text cut; each goes with the first cut that encloses it. -/
def settleAll (parent : NodeId) (text : Text) (edits : List Edit) :
    List Cut → List (NodeId × Span) → Tree → Tree
  | [], _, t => t
  | c :: cs, kids, t =>
    let inside := kids.filter fun k => c.range.encloses k.2
    let outside := kids.filter fun k => !c.range.encloses k.2
    settleAll parent text edits cs outside (t.settle parent text edits c (inside.map Prod.fst))

/-- Collapses sorted regions of a node's text that do not overlap into glyphs. -/
def splice (t : Tree) (parent : NodeId) (cuts : List Cut) : Tree :=
  let text := (t.node parent).text
  let edits := cuts.map Cut.edit
  let kids := (t.children parent).map fun c => (c, (t.node c).span.getD ⟨0, 0⟩)
  let stays := fun (k : NodeId × Span) => !cuts.any fun c => c.range.encloses k.2
  let t := t.setChildren parent ((kids.filter stays).map Prod.fst)
  settleAll parent text edits cuts kids (t.rewrite parent edits)

end Tree

end GlyphTree
