import GlyphTree.Pattern.Footprint
import GlyphTree.Pattern.Parser

/-!
# Programs

A pattern is run as a program: an array of instructions that name the ones to go on with. A
pattern is laid out from its end to its start, so that the instruction to go on with is known
before the one that goes there, loops apart.
-/

namespace GlyphTree

open Unicode

/-- One instruction. `split` tries `first` before `second`; `opens` and `closes` mark where a
capture group starts and ends. -/
inductive Instr where
  | one (set : CharSet) (next : Nat)
  | look (l : Look) (next : Nat)
  | split (first second : Nat)
  | opens (group next : Nat)
  | closes (group next : Nat)
  | accept
deriving DecidableEq, Repr, Inhabited

/-- The instructions laid out so far. -/
abbrev Code := Array Instr

namespace Code

/-- Lays out one more instruction and gives its number. -/
def add (code : Code) (i : Instr) : Nat × Code := (code.size, code.push i)

/-- A choice between going through a loop body at `body` and leaving to `next`. -/
def choice (greedy : Bool) (body next : Nat) : Instr :=
  if greedy then .split body next else .split next body

/-- Lays out the characters of a text, one after the other. -/
def addText (t : Text) (next : Nat) (code : Code) : Nat × Code :=
  t.foldr (fun c (next, code) => code.add (.one (.single c) next)) (next, code)

/-- Lays out `n` copies of a piece, one after the other. -/
def copies (piece : Nat → Code → Nat × Code) : Nat → Nat → Code → Nat × Code
  | 0, next, code => (next, code)
  | n + 1, next, code =>
    let (entry, code) := piece next code
    copies piece n entry code

/-- Lays out up to `n` copies of a piece that start with `inner`; after each one the rest may be
left out. -/
def upTo (piece : Nat → Code → Nat × Code) (greedy : Bool) (next : Nat) :
    Nat → Nat → Code → Nat × Code
  | 0, inner, code => (inner, code)
  | n + 1, inner, code =>
    let (body, code) := piece inner code
    let (entry, code) := code.add (choice greedy body next)
    upTo piece greedy next n entry code

/-- Lays out a piece that is run again and again: the number of the choice after it, the entry of
the piece, and the code. -/
def loop (piece : Nat → Code → Nat × Code) (greedy : Bool) (next : Nat) (code : Code) :
    Nat × Nat × Code :=
  let at_ := code.size
  let (body, code) := piece at_ (code.push .accept)
  (at_, body, code.setIfInBounds at_ (choice greedy body next))

end Code

namespace Pattern

/-- Lays out a pattern that goes on with `next`, and gives the number of its first instruction.

A loop over what may be empty is laid out as an optional loop of at least one pass: a pass that
consumes nothing then leaves the loop instead of failing. -/
def layOut : Pattern → Nat → Code → Nat × Code
  | empty, next, code => (next, code)
  | text t, next, code => code.addText t next
  | one set _, next, code => code.add (.one set next)
  | look l, next, code => code.add (.look l next)
  | group i p, next, code =>
    let (close, code) := code.add (.closes i next)
    let (body, code) := p.layOut close code
    code.add (.opens i body)
  | seq p q, next, code =>
    let (entry, code) := q.layOut next code
    p.layOut entry code
  | alt p q, next, code =>
    let (first, code) := p.layOut next code
    let (second, code) := q.layOut next code
    code.add (.split first second)
  | rep p min max greedy, next, code =>
    match max with
    | some max =>
      let (rest, code) := Code.upTo p.layOut greedy next (max - min) next code
      Code.copies p.layOut min rest code
    | none =>
      let (again, body, code) := Code.loop p.layOut greedy next code
      if min = 0 then
        if p.consumes then (again, code) else code.add (Code.choice greedy body next)
      else Code.copies p.layOut (min - 1) body code

end Pattern

/-- A pattern ready to run: its code, where it starts, and how many groups it has. -/
structure Program where
  code : Code
  entry : Nat
  groupCount : Nat

/-- The program of a pattern. -/
def Pattern.program (p : Pattern) : Program :=
  let (entry, code) := p.layOut 0 #[.accept]
  ⟨code, entry, p.groupCount⟩

/-- The program that a text stands for: a pattern that is not too large. -/
def Program.compile (t : Text) : Except PatternError Program :=
  match Pattern.parse t with
  | .error e => .error e
  | .ok p => if p.fits then .ok p.program else .error .tooLarge

end GlyphTree
