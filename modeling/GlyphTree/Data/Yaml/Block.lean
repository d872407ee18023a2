import GlyphTree.Data.Yaml.Place

/-!
# Block scalars of YAML

Scalars that are written as a block of indented lines, with or without folding. The header says
what becomes of the line breaks at the end, and may say how deep the block is indented.
-/

namespace GlyphTree.Yaml

/-- What becomes of the line breaks at the end of a block: one is kept, none, or all. -/
inductive Chomping where
  | clip
  | strip
  | keep
deriving DecidableEq

/-- The header of a block scalar. -/
structure BlockHeader where
  chomping : Chomping
  /-- How much deeper than its surroundings the block is indented, if it is said. -/
  increment : Option Nat

/-- The chomping that a sign stands for. -/
def chomping? : Text → Option Chomping
  | '+' :: _ => some .keep
  | '-' :: _ => some .strip
  | _ => none

/-- The increment at the front, if there is a digit; zero is refused. -/
def increment? : Text → Option (Option Nat)
  | c :: _ =>
    if c = '0' then none
    else if c.isDigit then some (some (c.toNat - '0'.toNat)) else some none
  | [] => some none

/-- The header of a block scalar after its sign, up to the end of the line. -/
def Place.blockHeader? (p : Place) : Option (BlockHeader × Place) := do
  match chomping? p.rest with
  | some chomping =>
    let p := p.skip 1
    let increment ← increment? p.rest
    let p ← (p.skip (if increment.isSome then 1 else 0)).endOfLine?
    return (⟨chomping, increment⟩, p)
  | none =>
    let increment ← increment? p.rest
    let p := p.skip (if increment.isSome then 1 else 0)
    let chomping := if increment.isSome then chomping? p.rest else none
    let p ← (p.skip (if chomping.isSome then 1 else 0)).endOfLine?
    return (⟨chomping.getD .clip, increment⟩, p)

/-- Skips indentation and empty lines. `indent` is the indentation of the block, if it is known:
spaces beyond it belong to the text. `breaks` are the line breaks read, last first, and `widest` the
greatest column come to. Gives the line breaks, the greatest column and the place. -/
def skipEmptyLines (indent : Option Nat) : Nat → Text → Nat → Place → Option (Text × Nat × Place)
  | 0, _, _, _ => none
  | fuel + 1, breaks, widest, p =>
    let inside := fun (p : Place) => indent.all (p.column < ·)
    match p.rest with
    | ' ' :: _ =>
      if inside p then skipEmptyLines indent fuel breaks (max widest (p.column + 1)) (p.skip 1)
      else some (breaks.reverse, widest, p)
    | '\t' :: _ => if inside p then none else some (breaks.reverse, widest, p)
    | _ =>
      match p.lineBreak? with
      | some (c, next) => skipEmptyLines indent fuel (c :: breaks) widest next
      | none => some (breaks.reverse, widest, p)

/-- The lines of a block from the start of one on, where `last` is the break of the line before,
`breaks` those of the empty lines after it, and `deeper` tells whether that line started with a
blank. `acc` is what was read, last character first. -/
def readLines (folded : Bool) (chomping : Chomping) (indent : Nat) :
    Nat → Text → Text → Text → Bool → Place → Option (Text × Place)
  | 0, _, _, _, _, _ => none
  | fuel + 1, acc, last, breaks, deeper, p =>
    if p.column = indent && !p.rest.isEmpty then
      let startsBlank := (p.rest.head?.map isBlank).getD false
      let joined := folded && last = ['\n'] && !deeper && !startsBlank
      let before := if joined then (if breaks.isEmpty then [' '] else []) else last
      let line := p.rest.takeWhile (!isBreak ·)
      let acc := line.reverse ++ breaks.reverse ++ before.reverse ++ acc
      let p := p.skip line.length
      let last := (p.lineBreak?.map fun (c, _) => [c]).getD []
      match skipEmptyLines (some indent) (p.rest.length + 1) [] 0 p.skipBreak with
      | none => none
      | some (breaks, _, p) => readLines folded chomping indent fuel acc last breaks startsBlank p
    else
      let tail := match chomping with
        | .strip => []
        | .clip => last
        | .keep => last ++ breaks
      some (acc.reverse ++ tail, p)

/-- The block scalar at a place, which starts with its sign, in surroundings that are indented to
the column `outer`, or not at all. -/
def Place.block? (p : Place) (folded : Bool) (outer : Option Nat) : Option (Text × Place) := do
  let (header, p) ← (p.skip 1).blockHeader?
  let said := header.increment.map (outer.getD 0 + ·)
  let (breaks, widest, p) ← skipEmptyLines said (p.rest.length + 1) [] 0 p
  let least := max 1 ((outer.map (· + 1)).getD 0)
  let indent := said.getD (max widest least)
  readLines folded header.chomping indent (p.rest.length + 1) [] [] breaks false p

end GlyphTree.Yaml
