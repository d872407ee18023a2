import GlyphTree.Pattern.Flags

/-!
# Repetition counts

The numbers between braces that say how often a piece of a pattern is repeated.
-/

namespace GlyphTree.PatternReader

open Unicode

/-- Drops white space, which may stand around the numbers of a count. -/
def dropSpace (t : Text) : Text := t.dropWhile isWhiteSpace

/-- The decimal digits at the front; blanks between them are dropped where they do not count. -/
def readDecimalDigits (f : PatternFlags) : Nat → Text → Text × Text
  | 0, t => ([], t)
  | _, [] => ([], [])
  | n + 1, c :: cs =>
    if c.isDigit then
      let (digits, rest) := readDecimalDigits f n (f.skipBlank cs)
      (c :: digits, rest)
    else ([], c :: cs)

/-- The number at the front, if there are digits; it must fit 32 bits. -/
def readCountNumber (f : PatternFlags) (t : Text) : Except PatternError ((Option Nat) × Text) :=
  let (digits, rest) := readDecimalDigits f t.length (dropSpace t)
  let rest := f.skipBlank (dropSpace rest)
  if digits.isEmpty then .ok (none, rest)
  else
    let n := digits.foldl (fun n c => 10 * n + (c.toNat - '0'.toNat)) 0
    if n < 1 <<< 32 then .ok (some n, rest) else .error .badCount

/-- A repetition count after its opening brace: a number, a lower bound, or two bounds. -/
def readCount (f : PatternFlags) (t : Text) : Except PatternError ((Nat × Option Nat) × Text) := do
  let (low?, rest) ← readCountNumber f (f.skipBlank t)
  let some low := low? | .error .badCount
  let (count, rest) ← match rest with
    | ',' :: cs =>
      match f.skipBlank cs with
      | '\x7d' :: _ => Except.ok ((low, none), f.skipBlank cs)
      | t => do
        let (high?, rest) ← readCountNumber f t
        let some high := high? | .error .badCount
        if low ≤ high then .ok ((low, some high), rest) else .error .badCount
    | _ => .ok ((low, some low), rest)
  match rest with
  | '\x7d' :: rest => return (count, f.skipBlank rest)
  | _ => .error .unclosedCount

end GlyphTree.PatternReader
