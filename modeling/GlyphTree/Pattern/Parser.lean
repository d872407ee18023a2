import GlyphTree.Pattern.Bracket
import GlyphTree.Pattern.Build
import GlyphTree.Pattern.Count
import GlyphTree.Pattern.GroupOpening

/-!
# Parsing patterns

From pattern text to abstract syntax. Flags apply from where they are set to the end of the group
they are set in, alternatives included; groups are numbered by their opening parentheses. How deep
the writing may be nested is limited.
-/

namespace GlyphTree

open Unicode

/-- A pattern as it is written, and how deep groups, repetitions, brackets and rows are nested in
it. -/
structure WrittenPattern where
  pattern : Pattern
  depth : Nat

/-- What stands in a row of a pattern: a piece, or a directive, which is no piece and cannot be
repeated. -/
inductive RowItem where
  | piece (p : WrittenPattern)
  | directive

namespace RowItem

/-- The pattern of a piece. -/
def pattern? : RowItem → Option Pattern
  | piece p => some p.pattern
  | directive => none

/-- How deep an item is nested. -/
def depth : RowItem → Nat
  | piece p => p.depth
  | directive => 0

end RowItem

namespace WrittenPattern

/-- The deepest that a pattern may be nested. -/
def depthLimit : Nat := 250

/-- A row of items, the last one first. A row of several is one level deeper than its items. -/
def ofItems (items : List RowItem) : WrittenPattern :=
  let depth := (items.map RowItem.depth).foldl max 0
  ⟨.concat (items.reverse.filterMap RowItem.pattern?),
    if 2 ≤ items.length then depth + 1 else depth⟩

/-- A row of alternatives, the last one first. Several are one level deeper than the deepest. -/
def ofAlternatives (last : WrittenPattern) (earlier : List WrittenPattern) : WrittenPattern :=
  match earlier with
  | [] => last
  | _ =>
    let all := (last :: earlier).reverse
    ⟨.alternation (all.map WrittenPattern.pattern),
      (all.map WrittenPattern.depth).foldl max 0 + 1⟩

end WrittenPattern

namespace PatternReader

/-- A place in pattern text, with what the text before it has set. -/
structure State where
  rest : Text
  flags : PatternFlags
  /-- The number of capture groups opened so far. -/
  groups : Nat
  /-- The names of the capture groups opened so far. -/
  names : List Text

/-- A character as a pattern. -/
def charPattern (f : PatternFlags) (c : Char) (asByte : Bool) : Except PatternError Pattern :=
  if !f.unicode && asByte && 0x80 ≤ c.toNat then .error .notText
  else .ok (.ofSet (foldSet f (.single c)) (!f.unicode))

/-- The pattern of any character, line ends left out unless the flags let them in. -/
def dotPattern (f : PatternFlags) : Except PatternError Pattern :=
  if !f.unicode then .error .notText
  else if f.dotAll then .ok (.one .all false)
  else if f.crlf then .ok (.one (CharSet.compl (.ofCodes ['\n'.toNat, '\r'.toNat])) false)
  else .ok (.one (CharSet.single '\n').compl false)

/-- The condition a caret stands for. -/
def caretLook (f : PatternFlags) : Look :=
  if f.multiLine then (if f.crlf then .lineStartCrlf else .lineStart) else .textStart

/-- The condition a dollar sign stands for. -/
def dollarLook (f : PatternFlags) : Look :=
  if f.multiLine then (if f.crlf then .lineEndCrlf else .lineEnd) else .textEnd

/-- A pattern of one character or one place: what is no group, bracketed set or operator. -/
def readPrimitive (f : PatternFlags) (c : Char) (cs : Text) :
    Except PatternError (Pattern × Text) := do
  match c with
  | '.' => return (← dotPattern f, cs)
  | '^' => return (.look (caretLook f), cs)
  | '$' => return (.look (dollarLook f), cs)
  | '\\' =>
    let (atom, rest) ← readEscape f cs
    match atom with
    | .char c asByte => return (← charPattern f c asByte, rest)
    | .set s => return (.ofSet s (!f.unicode), rest)
    | .look l => return (.look l, rest)
  | c => return (← charPattern f c false, cs)

/-- Repeats the last item read; a flag directive is no item. A question mark makes it lazy. -/
def repeatLast (f : PatternFlags) (min : Nat) (max : Option Nat) (rest : Text) :
    List RowItem → Except PatternError (List RowItem × Text)
  | .piece p :: items =>
    let (lazy, rest) := match rest with
      | '?' :: rest => (true, rest)
      | _ => (false, rest)
    let repeated := p.pattern.repeated min max (lazy == f.swapGreed)
    .ok (.piece ⟨repeated, p.depth + 1⟩ :: items, rest)
  | _ => .error .nothingToRepeat

/-- Reads alternatives up to the end of the text or a closing parenthesis, `level` groups deep.
`alts` are the alternatives before the current one and `items` the items of that one, last
first. -/
def readAlternatives : Nat → Nat → State → List WrittenPattern → List RowItem →
    Except PatternError (WrittenPattern × State)
  | 0, _, _, _, _ => .error .unexpectedEnd
  | fuel + 1, level, st, alts, items =>
    let continueWith := fun (read : Except PatternError (List RowItem × Text)) =>
      match read with
      | .error e => .error e
      | .ok (items, rest) => readAlternatives fuel level { st with rest } alts items
    match st.flags.skipBlank st.rest with
    | [] => .ok (.ofAlternatives (.ofItems items) alts, { st with rest := [] })
    | c :: cs =>
      match c with
      | ')' => .ok (.ofAlternatives (.ofItems items) alts, { st with rest := c :: cs })
      | '|' => readAlternatives fuel level { st with rest := cs } (.ofItems items :: alts) []
      | '(' =>
        match readGroupOpening st.flags cs with
        | .error e => .error e
        | .ok (.directive flags, rest) =>
          readAlternatives fuel level { st with rest, flags } alts (.directive :: items)
        | .ok (opening, rest) =>
          let index := st.groups + 1
          let inside : Except PatternError (State × (Pattern → Pattern)) :=
            match opening with
            | .capture (some name) =>
              if st.names.contains name then .error .duplicateGroupName
              else .ok ({ st with rest, groups := index, names := name :: st.names },
                .group index)
            | .capture none => .ok ({ st with rest, groups := index }, .group index)
            | .plain flags | .directive flags => .ok ({ st with rest, flags }, id)
          match inside with
          | .error e => .error e
          | .ok (inner, wrap) =>
            if WrittenPattern.depthLimit ≤ level then .error .tooDeep
            else match readAlternatives fuel (level + 1) inner [] [] with
              | .error e => .error e
              | .ok (p, after) =>
                match after.rest with
                | ')' :: rest =>
                  readAlternatives fuel level { after with rest, flags := st.flags } alts
                    (.piece ⟨wrap p.pattern, p.depth + 1⟩ :: items)
                | _ => .error .unclosedGroup
      | '[' =>
        match readSet st.flags cs with
        | .error e => .error e
        | .ok (s, rest) =>
          readAlternatives fuel level { st with rest } alts
            (.piece ⟨.ofSet s.set (!st.flags.unicode), s.depth⟩ :: items)
      | '?' => continueWith (repeatLast st.flags 0 (some 1) cs items)
      | '*' => continueWith (repeatLast st.flags 0 none cs items)
      | '+' => continueWith (repeatLast st.flags 1 none cs items)
      | '\x7b' =>
        match readCount st.flags cs with
        | .error e => .error e
        | .ok ((min, max), rest) => continueWith (repeatLast st.flags min max rest items)
      | c =>
        match readPrimitive st.flags c cs with
        | .error e => .error e
        | .ok (p, rest) =>
          readAlternatives fuel level { st with rest } alts (.piece ⟨p, 0⟩ :: items)

end PatternReader

/-- The pattern that a text stands for. -/
def Pattern.parse (t : Text) : Except PatternError Pattern :=
  match PatternReader.readAlternatives (t.length + 1) 0 ⟨t, {}, 0, []⟩ [] [] with
  | .error e => .error e
  | .ok (p, st) =>
    if !st.rest.isEmpty then .error .unopenedGroup
    else if WrittenPattern.depthLimit < p.depth then .error .tooDeep
    else .ok p.pattern

end GlyphTree
