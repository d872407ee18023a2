import GlyphTree.Proofs.Checked.Texts
import GlyphTree.Proofs.RoundTrip
import GlyphTree.View.Snapshot

/-!
# Snapshots resolved

A snapshot is cut off from its tree, yet what a node stands for can be rebuilt from it alone
(`Reachable.resolve?_snapshot`). The snapshot of an unfolded child does not say how wide its markers
are: they are the first and the last character of the child's span, and the text of the parent has
both.
-/

namespace GlyphTree

/-- The ranges of the first and the last character of a range of a text. -/
def Text.outermost? (t : Text) (s : Span) : Option (List Span) := do
  let inside ← t.slice? s
  let first ← inside.head?
  let last ← inside.getLast?
  return [⟨s.start, s.start + first.utf8Size⟩, ⟨s.stop - last.utf8Size, s.stop⟩]

namespace Snapshot

/-- What a child with a span and a resolved text of its own calls for in the text of its parent: the
first and the last character of an unfolded one go, a hidden one gives way to its resolved text. -/
def childEdits? (text : Text) (span : Option Span) (folded : Bool) (resolved : Option Text) :
    Option (List Edit) :=
  span.bind fun s =>
    if folded then (text.outermost? s).map (·.map (⟨·, []⟩))
    else resolved.map fun new => [⟨s, new⟩]

mutual

/-- The text that a snapshot stands for. There is none if a child stands nowhere, or if what is to be
replaced cannot be cut out of the text. -/
def resolve? : Snapshot → Option Text
  | ⟨_, _, text, _, _, _, _, _, children⟩ =>
    (resolvingEdits? text children).bind fun edits =>
      applyEdits? text (sortByKey (·.range.start) edits)

/-- The edits that the children of a snapshot call for in its text. -/
def resolvingEdits? (text : Text) : List Snapshot → Option (List Edit)
  | [] => some []
  | child :: rest => do
    let own ← childEdits? text child.span child.folded (resolve? child)
    let others ← resolvingEdits? text rest
    return own ++ others

end

theorem resolvingEdits?_map {text : Text} {shot : NodeId → Snapshot} {edits : NodeId → List Edit}
    {ids : List NodeId}
    (h : ∀ c ∈ ids, childEdits? text (shot c).span (shot c).folded (shot c).resolve? =
      some (edits c)) :
    resolvingEdits? text (ids.map shot) = some (ids.flatMap edits) := by
  induction ids with
  | nil => rfl
  | cons c ids ih =>
    obtain ⟨hc, hids⟩ := List.forall_mem_cons.1 h
    rw [List.map_cons, resolvingEdits?, hc, ih hids]
    rfl

end Snapshot

namespace Tree

open Cells

variable {t : Tree} {p id x : NodeId} {d depth : Nat} {F : Fold} {a b c cs : Cells}

/-- The markers of an unfolded child are what is outermost in its span. -/
theorem Layout.outermost?_unfolded (h : Layout t p (unfoldedCells id F a b c))
    (hf : (t.node id).fold = some F) :
    (t.node id).span.bind (t.node p).text.outermost? = some (t.node id).atoms := by
  have hslice := Text.slice?_append a.text (F.opening :: b.text ++ [F.closing]) c.text
  have hlast : (F.opening :: b.text ++ [F.closing]).getLast? = some F.closing :=
    List.getLast?_concat
  have htext : (t.node p).text = a.text ++ (F.opening :: b.text ++ [F.closing]) ++ c.text := by
    rw [h.text]
    simp [unfoldedCells]
  have hstop : a.size + F.opening.utf8Size + b.size + F.closing.utf8Size =
      a.text.byteSize + Text.byteSize (F.opening :: b.text ++ [F.closing]) := by
    simp [Cells.size, Nat.add_assoc]
  rw [Node.span, Node.atoms, h.place_of_unfolded, hf, Option.map_some, Option.bind_some, htext,
    Text.outermost?, hstop, Cells.size, hslice, Option.bind_eq_bind, Option.bind_some, hlast]
  rfl

/-- A child calls for the edits that resolve it in the text of its node. -/
theorem Layout.childEdits?_eq (h : Layout t p cs) (hid : id ∈ t.children p) (resolved : Text) :
    Snapshot.childEdits? (t.node p).text (t.node id).span (t.node id).isUnfolded (some resolved) =
      some (if (t.node id).isUnfolded then (t.node id).atoms.map (⟨·, []⟩)
        else (t.node id).atoms.map (⟨·, resolved⟩)) := by
  obtain ⟨⟨_, s⟩, hplace, -⟩ := Option.map_eq_some_iff.1 (h.parent hid)
  have hspan : (t.node id).span = some s := by rw [Node.span, hplace]; rfl
  rw [Snapshot.childEdits?, hspan, Option.bind_some]
  cases hf : (t.node id).fold with
  | none =>
    rw [Node.isUnfolded_of_none hf, Node.atoms, hplace, hf]
    rfl
  | some F =>
    obtain ⟨a, b, c, rfl⟩ := h.exists_unfolded hid hf
    have houter := h.outermost?_unfolded hf
    rw [hspan, Option.bind_some] at houter
    rw [Node.isUnfolded_of_some hf, if_pos rfl, if_pos rfl, houter]
    rfl

/-- Resolving a snapshot that goes as deep as the tree gives what its node stands for. -/
theorem Shaped.resolve?_snapshotWithin (hs : Shaped t) (hx : x < t.size) (h : Ends t.children d x)
    (hd : d ≤ depth) : (t.snapshotWithin depth x).resolve? = some (t.reading x) := by
  induction d generalizing x depth with
  | zero => exact h.elim
  | succ d ih =>
    obtain ⟨depth, rfl⟩ : ∃ n, depth = n + 1 := ⟨depth - 1, by omega⟩
    obtain ⟨cs, hl⟩ := hs.layout x hx
    have hfields : ∀ c ∈ t.children x, (t.snapshotWithin depth c).span = (t.node c).span ∧
        (t.snapshotWithin depth c).folded = (t.node c).isUnfolded := by
      intro c hc
      have hpos : d ≠ 0 := by
        rintro rfl
        exact h c hc
      obtain ⟨depth, rfl⟩ : ∃ n, depth = n + 1 := ⟨depth - 1, by omega⟩
      exact ⟨rfl, rfl⟩
    have hedits : Snapshot.resolvingEdits? (t.node x).text
        ((t.children x).map (t.snapshotWithin depth)) = _ :=
      Snapshot.resolvingEdits?_map fun c hc => by
        rw [(hfields c hc).1, (hfields c hc).2,
          ih (hl.lt_size hc) (h c hc) (Nat.le_of_succ_le_succ hd)]
        exact hl.childEdits?_eq hc (t.reading c)
    have hpieces : Pieces 0 (t.node x).text ((t.resolvingEdits t.reading x).map Edit.range) := by
      rw [hl.text, hl.resolvingEdits, List.map_map]
      exact pieces_marks 0 cs
    calc (t.snapshotWithin (depth + 1) x).resolve?
        = applyEdits? (t.node x).text (t.resolvingEdits t.reading x) := by
          rw [snapshotWithin, Snapshot.resolve?, show (t.node x).children = t.children x from rfl,
            hedits, Option.bind_some, resolvingEdits]
      _ = some (applyEdits (t.node x).text (t.resolvingEdits t.reading x)) :=
          applyEdits?_eq hpieces
      _ = some (t.reading x) := by
          rw [hl.applyEdits_resolvingEdits, hs.reading_eq hl]

/-- What the document and every live node of it stand for can be rebuilt from their snapshots. -/
theorem Reachable.resolve?_snapshot (h : Reachable t) :
    t.snapshot.resolve? = t.expandedText root ∧
      ∀ id, t.isLive id = true → (t.snapshotOf id).resolve? = t.expandedText id := by
  have hs := h.wellFormed.shaped
  have hall : ∀ id < t.size, (t.snapshotOf id).resolve? = t.expandedText id := by
    intro id hid
    rw [expandedText_eq hid]
    exact hs.resolve?_snapshotWithin hid (hs.ends_children hid) (Nat.le_succ _)
  exact ⟨hall root hs.root, fun id hid =>
    hall id (hs.lt_of_mem_documentOrder (hs.live_subset (hs.mem_liveOrder_of_isLive hid)))⟩

theorem resolve?_snapshot_unfoldedTwice :
    Reachable unfoldedTwice ∧ unfoldedTwice.unfolded = [1, 3] ∧
      unfoldedTwice.snapshot.resolve? = unfoldedTwice.expandedText root ∧
      ∀ id, unfoldedTwice.isLive id = true →
        (unfoldedTwice.snapshotOf id).resolve? = unfoldedTwice.expandedText id :=
  ⟨reachable_unfoldedTwice, by cbv, Reachable.resolve?_snapshot reachable_unfoldedTwice⟩

end Tree

end GlyphTree
