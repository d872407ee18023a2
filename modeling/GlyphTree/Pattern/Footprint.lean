import GlyphTree.Pattern.ByteRows
import GlyphTree.Pattern.Syntax
import Std.Data.HashMap

/-!
# The size of a pattern

A pattern is refused if the automata over bytes that recognise it, one that reads forward and one
that reads backward, take too much memory. This module lays the two out as far as needed to know
their sizes. A state takes 32 bytes, a state that chooses between several byte ranges 8 more for
each, one that branches 4 more for each branch.
-/

namespace GlyphTree

open Unicode

/-- The size of an automaton: the number of its states, and the bytes that their lists take. -/
structure Footprint where
  states : Nat
  lists : Nat
deriving DecidableEq, Repr, Inhabited

namespace Footprint

/-- The most bytes an automaton may take. -/
def limit : Nat := 10 <<< 20

/-- The bytes an automaton takes. -/
def bytes (s : Footprint) : Nat := 32 * s.states + s.lists

/-- Whether an automaton is too large. -/
def exceeds (s : Footprint) : Bool := limit < s.bytes

/-- With more states. -/
def add (s : Footprint) (n : Nat) : Footprint := { s with states := s.states + n }

/-- With more branches out of its branching states. -/
def branch (s : Footprint) (n : Nat) : Footprint := { s with lists := s.lists + 4 * n }

/-- With a state that chooses between byte ranges. -/
def addChoice (s : Footprint) (ranges : Nat) : Footprint := ⟨s.states + 1, s.lists + 8 * ranges⟩

/-- With the last state of a piece linked to what follows: one more branch if it branches. -/
def link (s : Footprint) (branches : Bool) : Footprint := if branches then s.branch 1 else s

/-! ## Sets of characters -/

/-- States laid out before, by what leads out of them. There is a limited number of places for
them, and a state that comes to a taken place takes it over. -/
structure KnownStates where
  places : Nat
  entries : Std.HashMap Nat (List Nat × Nat)

namespace KnownStates

/-- No states, with room for some. -/
def none (places : Nat) : KnownStates := ⟨places, ∅⟩

/-- The place of a state with the given description. -/
def place (k : KnownStates) (key : List Nat) : Nat :=
  (key.foldl (fun h n => (h ^^^ n.toUInt64) * 1099511628211)
    (14695981039346656037 : UInt64)).toNat % k.places

/-- The state with a description, if it is known. -/
def find? (k : KnownStates) (key : List Nat) : Option Nat :=
  match k.entries[k.place key]? with
  | some (key', state) => if key = key' then some state else Option.none
  | Option.none => Option.none

/-- Takes note of a state. -/
def insert (k : KnownStates) (key : List Nat) (state : Nat) : KnownStates :=
  { k with entries := k.entries.insert (k.place key) (key, state) }

end KnownStates

/-- An automaton that is being laid out, with the states of a set of characters it knows. -/
structure SetLayout where
  size : Footprint
  known : KnownStates

namespace SetLayout

/-- The state with the given ranges of bytes out of it, each with the state it leads to: a known
one, or a new one. -/
def node (l : SetLayout) (steps : List (ByteRange × Nat)) : Nat × SetLayout :=
  let key := steps.flatMap fun ((a, b), next) => [a, b, next]
  match l.known.find? key with
  | some state => (state, l)
  | none =>
    (l.size.states, ⟨l.size.addChoice steps.length, l.known.insert key l.size.states⟩)

/-- A state that is not complete: the steps out of it that are, and the range of the next one. -/
structure Growing where
  steps : List (ByteRange × Nat)
  next : ByteRange

/-- The growing states along a row that is new. -/
def grow (row : List ByteRange) : List Growing := row.map fun range => ⟨[], range⟩

/-- Completes growing states, each of which the one before leads to. Gives the first state, or
`target` if there is none. -/
def complete (target : Nat) : List Growing → SetLayout → Nat × SetLayout
  | [], l => (target, l)
  | g :: gs, l =>
    let (next, l) := complete target gs l
    l.node (g.steps ++ [(g.next, next)])

/-- Adds a row to growing states; those that the row does not share are completed. -/
def addRow (target : Nat) : List Growing → List ByteRange → SetLayout → List Growing × SetLayout
  | [], row, l => (grow row, l)
  | gs, [], l => (gs, l)
  | g :: gs, range :: row, l =>
    if g.next = range then
      let (gs, l) := addRow target gs row l
      (g :: gs, l)
    else
      let (next, l) := complete target gs l
      (⟨g.steps ++ [(g.next, next)], range⟩ :: grow row, l)

end SetLayout

/-- The rows of bytes of a set of characters. -/
def rows (set : CharSet) : List (List ByteRange) := set.ranges.flatMap fun (a, b) => byteRows a b

/-- Lays out a set to be read forward: states that end alike are the same state. -/
def addForward (s : Footprint) (rows : List (List ByteRange)) : Footprint :=
  let target := s.states
  let (growing, l) := rows.foldl (fun (gs, l) row => SetLayout.addRow target gs row l)
    ([], ⟨s.add 1, .none 10000⟩)
  (SetLayout.complete target growing l).2.size

/-- Lays out a row to be read backward, from its end at `next`. -/
def addBackwardRow (next : Nat) : List ByteRange → SetLayout → SetLayout
  | [], l => { l with size := l.size.branch 1 }
  | (a, b) :: row, l =>
    match l.known.find? [next, a, b] with
    | some state => addBackwardRow state row l
    | none =>
      addBackwardRow l.size.states row
        ⟨l.size.add 1, l.known.insert [next, a, b] l.size.states⟩

/-- Lays out a set to be read backward: a branch for each row; rows that start alike share their
states. -/
def addBackward (s : Footprint) (rows : List (List ByteRange)) : Footprint :=
  (rows.foldl (fun l row => addBackwardRow (s.states + 1) row l) ⟨s.add 2, .none 1000⟩).size

/-- Lays out a set of characters. -/
def addSet (backward : Bool) (set : CharSet) (s : Footprint) : Footprint :=
  if set.isAscii then (s.add 1).addChoice set.ranges.length
  else if backward then s.addBackward (rows set)
  else s.addForward (rows set)

/-! ## Alternatives of texts -/

/-- The bytes of a text. -/
def textBytes (t : Text) : List Nat := t.flatMap fun c => utf8Bytes c.toNat

/-- The rests of the texts that go on with a byte, for each byte in the order of its first text. -/
def byFirstByte : List (List Nat) → List (Nat × List (List Nat))
  | [] => []
  | [] :: texts => byFirstByte texts
  | (b :: bs) :: texts =>
    let groups := byFirstByte texts
    match groups.lookup b with
    | some rests => (b, bs :: rests) :: groups.filter fun (c, _) => c != b
    | none => (b, [bs]) :: groups

/-- The texts between those that are empty. -/
def betweenEmpty : List (List Nat) → List (List (List Nat))
  | [] => [[]]
  | [] :: texts => [] :: betweenEmpty texts
  | text :: texts =>
    match betweenEmpty texts with
    | run :: runs => (text :: run) :: runs
    | [] => [[text]]

/-- Lays out the branching states for texts that begin alike, read so far up to where they differ.
Texts may end here: what stands before such an end in the list is preferred to it and what stands
behind it is not, so each end splits the choice of the next byte in two. -/
def addTexts : Nat → List (List Nat) → Footprint → Footprint
  | 0, _, s => s
  | fuel + 1, texts, s =>
    let leading := (texts.takeWhile List.isEmpty).length
    let texts := texts.drop (leading - 1)
    let choices := (betweenEmpty texts).filter (!·.isEmpty) |>.map byFirstByte
    let ends := (texts.filter List.isEmpty).length
    let s := choices.foldl (fun s choice =>
      let s := choice.foldl (fun s (_, rests) =>
        if rests.all List.isEmpty then s else addTexts fuel rests s) s
      if choice.length = 1 then s.add 1 else s.addChoice choice.length) s
    (s.add 1).branch (choices.length + ends)

/-! ## Patterns -/

/-- Lays out a piece `n` times in a row, unless the automaton has become too large. Each copy is
linked to the one before; the flag tells whether the last state branches. -/
def copies (piece : Footprint → Footprint × Bool) : Nat → Footprint × Bool → Footprint × Bool
  | 0, s => s
  | n + 1, (s, branches) =>
    if s.exceeds then (s, branches)
    else
      let (s, last) := piece s
      copies piece n (s.link branches, last)

/-- Lays out a piece up to `n` times in a row, where each time may be the last. -/
def upTo (piece : Footprint → Footprint × Bool) : Nat → Footprint × Bool → Footprint × Bool
  | 0, s => s
  | n + 1, (s, branches) =>
    if s.exceeds then (s, branches)
    else
      let (s, last) := piece (s.add 1)
      upTo piece n ((s.link branches).branch 2, last)

/-- Lays out a piece exactly `n` times. -/
def exactly (piece : Footprint → Footprint × Bool) (n : Nat) (s : Footprint) : Footprint × Bool :=
  match n with
  | 0 => (s.add 1, false)
  | n + 1 => copies piece n (piece s)

/-- Where a pattern stands in a row of alternatives: apart from any, behind the first one, or
further on. -/
inductive AlternativePlace where
  | whole
  | second
  | later
deriving DecidableEq

/-- The texts of alternatives that are all texts. -/
def allTexts? (p : Pattern) : Option (List (List Nat)) :=
  p.alternatives.mapM fun
    | .text t => some (textBytes t)
    | _ => none

/-- Lays out a pattern. The flag tells whether its last state branches. -/
def layOut (backward : Bool) :
    AlternativePlace → Pattern → Footprint → Footprint × Bool
  | .whole, .empty, s | .whole, .look _, s => (s.add 1, false)
  | .whole, .text t, s => (s.add (textBytes t).length, false)
  | .whole, .one set _, s => (s.addSet backward set, false)
  | .whole, .group _ p, s =>
    if backward then layOut backward .whole p s
    else
      let (s, branches) := layOut backward .whole p (s.add 1)
      ((s.add 1).link branches, false)
  | .whole, .seq p q, s =>
    if backward then
      let (s, first) := layOut backward .whole q s
      let (s, last) := layOut backward .whole p s
      (s.link first, last)
    else
      let (s, first) := layOut backward .whole p s
      let (s, last) := layOut backward .whole q s
      (s.link first, last)
  | .whole, .alt p q, s =>
    match allTexts? (.alt p q) with
    | some texts =>
      let texts := if backward then texts.map List.reverse else texts
      (addTexts (texts.foldr (fun t n => t.length + n) 1) texts (s.add 1), false)
    | none =>
      let (s, first) := layOut backward .whole p s
      let (s, _) := layOut backward .second q s
      ((s.branch 1).link first, false)
  | .whole, .rep p min max _, s =>
    let piece := layOut backward .whole p
    match max with
    | none =>
      if min = 0 then
        if p.consumes then
          let (s, branches) := piece (s.add 1)
          ((s.branch 1).link branches, true)
        else
          let (s, branches) := piece s
          (((s.add 3).branch 4).link branches, false)
      else
        let (s, branches) := exactly piece min s
        (((s.add 1).branch 1).link branches, true)
    | some max =>
      if min = 0 ∧ max = 1 then
        let (s, branches) := piece (s.add 1)
        (((s.add 1).branch 2).link branches, false)
      else
        let (s, branches) := exactly piece min s
        if min = max then (s, branches)
        else
          let (s, branches) := upTo piece (max - min) (s.add 1, branches)
          (s.link branches, false)
  | .second, .alt p q, s =>
    let (s, last) := layOut backward .whole p s
    let (s, _) := layOut backward .later q ((s.add 2).link last)
    (s.branch 1, false)
  | .second, p, s =>
    let (s, last) := layOut backward .whole p s
    (((s.add 2).branch 1).link last, false)
  | .later, .alt p q, s =>
    let (s, last) := layOut backward .whole p s
    let (s, _) := layOut backward .later q (s.link last)
    (s.branch 1, false)
  | .later, p, s =>
    let (s, last) := layOut backward .whole p s
    ((s.branch 1).link last, false)
termination_by place p => (p, if place = .whole then 0 else 1)

/-- The automaton of a whole pattern. It skips what comes before a match, unless the form of the
pattern tells that matches start at the edge of the text. -/
def ofPattern (backward : Bool) (p : Pattern) : Footprint :=
  let atEdge := if backward then p.endsAtTextEnd else p.startsAtTextStart
  let start : Footprint := if atEdge then ⟨1, 0⟩ else (Footprint.mk 2 0 |>.addChoice 1).branch 2
  let (s, branches) := layOut backward .whole (if backward then p else .group 0 p) start
  (s.add 1).link branches

/-- At least the bytes that a pattern adds to an automaton, without laying anything out. -/
def roughBytes : Pattern → Nat
  | .empty | .look _ => 40
  | .text t => 80 * t.byteSize + 40
  | .one set _ => 160 * (rows set).length + 80
  | .group _ p => roughBytes p + 80
  | .seq p q => roughBytes p + roughBytes q
  | .alt p q => roughBytes p + roughBytes q + 80
  | .rep p min max _ => (max.getD (Nat.max min 1)) * (roughBytes p + 50) + 160

end Footprint

/-- Whether both automata of a pattern are small enough. Most patterns are so by a rough count. -/
def Pattern.fits (p : Pattern) : Bool :=
  Footprint.roughBytes p + 400 ≤ Footprint.limit ||
    (!(Footprint.ofPattern false p).exceeds && !(Footprint.ofPattern true p).exceeds)

end GlyphTree
