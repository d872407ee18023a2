import GlyphTree.Pattern.Program
import GlyphTree.Text

/-!
# Matching

Runs a program on a text, character by character, with all attempts at a match side by side in the
order in which the program prefers them. At each offset of the text a place of the program is
entered at most once: an attempt that comes there later could only repeat what a preferred one does.
The first way to succeed, in the order in which the program lists its choices, is the match.

`Program.scan` lists the matches in a text from left to right. They do not overlap, and an empty
match directly behind another match is skipped.
-/

namespace GlyphTree

/-- A place in a text: the character before it, the characters after it, and its byte offset. -/
structure Cursor where
  before : Option Char
  after : Text
  offset : Nat
deriving DecidableEq, Repr, Inhabited

namespace Cursor

/-- The start of a text. -/
def start (t : Text) : Cursor := ⟨none, t, 0⟩

/-- The place after the next character, which is `c` and followed by `rest`. -/
def step (k : Cursor) (c : Char) (rest : Text) : Cursor :=
  ⟨some c, rest, k.offset + c.utf8Size⟩

end Cursor

/-- Where groups were entered, and what they covered; the latest first. -/
structure Marks where
  opened : List (Nat × Nat)
  closed : List (Nat × Span)
deriving DecidableEq, Repr, Inhabited

namespace Marks

/-- No group has been entered. -/
def none : Marks := ⟨[], []⟩

/-- A group is entered at an offset. -/
def openAt (m : Marks) (group offset : Nat) : Marks :=
  { m with opened := (group, offset) :: m.opened }

/-- A group is left at an offset. -/
def closeAt (m : Marks) (group offset : Nat) : Marks :=
  match m.opened.lookup group with
  | some start => { m with closed := (group, ⟨start, offset⟩) :: m.closed }
  | Option.none => m

/-- What a group covered last. -/
def groupSpan (m : Marks) (group : Nat) : Option Span := m.closed.lookup group

end Marks

/-- The places of a program already entered: a set of numbers as a bit mask. -/
abbrev Visited := Nat

namespace Visited

/-- Whether a number is in the set. -/
def has (v : Visited) (n : Nat) : Bool := v.testBit n

/-- The set with one more number. -/
def insert (v : Visited) (n : Nat) : Visited := v ||| (1 <<< n)

end Visited

/-- An attempt at a match: the place of the program it has come to, the offset it started from, and
the groups it went through. -/
structure Attempt where
  place : Nat
  start : Nat
  marks : Marks
deriving DecidableEq, Repr, Inhabited

/-- A match: where it starts, the place where it ends, and its groups. -/
structure Found where
  start : Nat
  stop : Cursor
  marks : Marks
deriving DecidableEq, Repr, Inhabited

namespace Found

/-- The stretch of text a match covers. -/
def span (m : Found) : Span := ⟨m.start, m.stop.offset⟩

end Found

namespace Program

/-! ## Attempts side by side -/

/-- Follows the instructions that take no character, for all attempts at one place of the text, the
preferred attempt first. No instruction is entered twice: the attempt that came first is preferred.
Gives the attempts that wait for a character, and the one that has matched; attempts after it are
given up. `waiting` are those seen so far, last first. -/
def follow (code : Code) (k : Cursor) : Nat → List Attempt → Visited → List Attempt →
    List Attempt × Option Attempt
  | 0, _, _, waiting | _, [], _, waiting => (waiting.reverse, none)
  | fuel + 1, a :: rest, visited, waiting =>
    if visited.has a.place then follow code k fuel rest visited waiting
    else
      let visited := visited.insert a.place
      match code[a.place]? with
      | none => follow code k fuel rest visited waiting
      | some .accept => (waiting.reverse, some a)
      | some (.one _ _) => follow code k fuel rest visited (a :: waiting)
      | some (.look l next) =>
        if l.holds k.before k.after.head? then
          follow code k fuel ({ a with place := next } :: rest) visited waiting
        else follow code k fuel rest visited waiting
      | some (.split first second) =>
        follow code k fuel ({ a with place := first } :: { a with place := second } :: rest)
          visited waiting
      | some (.opens group next) =>
        let a := { a with place := next, marks := a.marks.openAt group k.offset }
        follow code k fuel (a :: rest) visited waiting
      | some (.closes group next) =>
        let a := { a with place := next, marks := a.marks.closeAt group k.offset }
        follow code k fuel (a :: rest) visited waiting

/-- The attempts that a character carries on. -/
def step (code : Code) (c : Char) (attempts : List Attempt) : List Attempt :=
  attempts.filterMap fun (a : Attempt) =>
    match code[a.place]? with
    | some (.one set next) => if set.contains c then some { a with place := next } else none
    | _ => none

/-- What attempts come to at a place of the text, a new attempt from there after all others as long
as there is no match: those that wait for a character, and the best match so far. -/
def arrive (p : Program) (k : Cursor) (attempts : List Attempt) (found : Option Found) :
    List Attempt × Option Found :=
  let attempts := if found.isNone then attempts ++ [⟨p.entry, k.offset, .none⟩] else attempts
  match follow p.code k (attempts.length + 2 * p.code.size) attempts 0 [] with
  | (waiting, some a) => (waiting, some ⟨a.start, k, a.marks⟩)
  | (waiting, none) => (waiting, found)

/-- Runs attempts from a place of the text on, where the place is given by its parts. Only attempts
that are preferred to the best match so far are left, so the run ends when there are none. -/
def runParts (p : Program) (before : Option Char) (offset : Nat) (attempts : List Attempt)
    (found : Option Found) : Text → Option Found
  | [] => (p.arrive ⟨before, [], offset⟩ attempts found).2
  | c :: rest =>
    match p.arrive ⟨before, c :: rest, offset⟩ attempts found with
    | (waiting, found) =>
      let attempts := step p.code c waiting
      if attempts.isEmpty && found.isSome then found
      else p.runParts (some c) (offset + c.utf8Size) attempts found rest

/-- The first match that starts at a place or later. -/
def searchFrom (p : Program) (k : Cursor) : Option Found :=
  p.runParts k.before k.offset [] none k.after

/-! ## All matches -/

/-- The first match that starts at a place or later, but is not empty at `lastStop`. -/
def searchAfter (p : Program) (k : Cursor) (lastStop : Option Nat) : Option Found :=
  match p.searchFrom k with
  | none => none
  | some m =>
    if m.span.isEmpty ∧ some m.stop.offset = lastStop then
      match k.after with
      | [] => none
      | c :: rest => p.searchFrom (k.step c rest)
    else some m

/-- Up to `fuel` matches from a place on. -/
def scanFrom (p : Program) : Nat → Cursor → Option Nat → List Found
  | 0, _, _ => []
  | fuel + 1, k, lastStop =>
    match p.searchAfter k lastStop with
    | none => []
    | some m => m :: scanFrom p fuel m.stop (some m.stop.offset)

/-- The matches in a text, left to right. -/
def scan (p : Program) (t : Text) : List Found :=
  p.scanFrom (t.length + 2) (.start t) none

end Program

/-- A match of a pattern: the region it covers and what its capture groups cover, first group
first; a group that took no part has no span. -/
structure Match where
  span : Span
  groups : List (Option Span)
deriving DecidableEq, Repr, Inhabited

/-- The matches of a program in a text, left to right. -/
def Program.matchesIn (p : Program) (t : Text) : List Match :=
  (p.scan t).map fun m =>
    ⟨m.span, (List.range p.groupCount).map fun i => m.marks.groupSpan (i + 1)⟩

end GlyphTree
