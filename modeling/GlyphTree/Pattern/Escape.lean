import GlyphTree.Pattern.Flags
import GlyphTree.Pattern.Syntax
import GlyphTree.Text.Search
import GlyphTree.Unicode.CaseFold
import GlyphTree.Unicode.PropertyName

/-!
# Escapes in patterns

What a backslash and the text after it stand for: a character, a set of characters or a condition.
Each reader takes the text and gives back what it read and the rest.
-/

namespace GlyphTree

/-- What an escape, or a plain character, stands for. A character written as a byte is marked. -/
inductive PatternAtom where
  | char (c : Char) (asByte : Bool)
  | set (s : Unicode.CharSet)
  | look (l : Look)

namespace PatternReader

open Unicode

/-! ## Code points -/

/-- The value of a hexadecimal digit. -/
def hexDigit? (c : Char) : Option Nat :=
  if '0' ≤ c ∧ c ≤ '9' then some (c.toNat - '0'.toNat)
  else if 'a' ≤ c ∧ c ≤ 'f' then some (c.toNat - 'a'.toNat + 10)
  else if 'A' ≤ c ∧ c ≤ 'F' then some (c.toNat - 'A'.toNat + 10)
  else none

/-- The character with a code point, if there is one. -/
def charOfCode (n : Nat) : Except PatternError Char :=
  if h : n.isValidChar then .ok (Char.ofNatAux n h) else .error .badCodePoint

/-- Exactly `n` hexadecimal digits after those that `acc` stands for. -/
def readDigits (f : PatternFlags) : Nat → Nat → Text → Except PatternError (Nat × Text)
  | 0, acc, t => .ok (acc, t)
  | n + 1, acc, t =>
    match t with
    | [] => .error .unexpectedEnd
    | c :: cs =>
      match hexDigit? c with
      | none => .error .badCodePoint
      | some d => readDigits f n (16 * acc + d) (f.skipBlank cs)

/-- The digits between braces, one at least. -/
def readBracedDigits (f : PatternFlags) (t : Text) : Except PatternError (Nat × Text) :=
  match f.untilBrace false t with
  | none => .error .unexpectedEnd
  | some ([], _) => .error .badCodePoint
  | some (digits, rest) =>
    match digits.mapM hexDigit? with
    | none => .error .badCodePoint
    | some ds => .ok (ds.foldl (fun n d => 16 * n + d) 0, f.skipBlank rest)

/-- A code point written with `n` digits or in braces. It is written as a byte if it has two digits
without braces. -/
def readCodePoint (f : PatternFlags) (n : Nat) (t : Text) :
    Except PatternError (PatternAtom × Text) := do
  match f.skipBlank t with
  | [] => .error .unexpectedEnd
  | c :: cs =>
    let braced := c = '\x7b'
    let (code, rest) ← if braced then readBracedDigits f cs else readDigits f n 0 (c :: cs)
    return (.char (← charOfCode code) (n = 2 && !braced), rest)

/-! ## Sets -/

/-- A set with both cases of its letters, where case is ignored. -/
def foldSet (f : PatternFlags) (s : CharSet) : CharSet :=
  if f.ignoreCase then (if f.unicode then s.foldCase else s.foldAsciiCase) else s

/-- A set complemented if `negated`, among the characters or, where patterns are about bytes, among
the bytes. -/
def negateSet (f : PatternFlags) (negated : Bool) (s : CharSet) : CharSet :=
  if negated then (if f.unicode then s.compl else s.complBelow 0xFF) else s

/-- A set that a pattern over text can hold: where patterns are about bytes, only ASCII is text. -/
def textSet (f : PatternFlags) (s : CharSet) : Except PatternError CharSet :=
  if f.unicode || s.isAscii then .ok s else .error .notText

/-- Splits at the first place where an unequal sign made of two characters stands. -/
def splitUnequal : Text → Option (Text × Text)
  | '!' :: '=' :: rest => some ([], rest)
  | [] => none
  | c :: cs => (splitUnequal cs).map fun (a, b) => (c :: a, b)

/-- The set that a property escape names, and whether the name itself negates it. -/
def namedSet? (name : Text) : Option (CharSet × Bool) :=
  match splitUnequal name with
  | some (property, value) => (propertyValueSet? property value).map (·, true)
  | none =>
    match Text.splitOnce ':' name, Text.splitOnce '=' name with
    | some (property, value), _ => (propertyValueSet? property value).map (·, false)
    | none, some (property, value) => (propertyValueSet? property value).map (·, false)
    | none, none => (propertySet? name).map (·, false)

/-- A property escape after its letter: one letter, or a name in braces. -/
def readProperty (f : PatternFlags) (negated : Bool) (t : Text) :
    Except PatternError (CharSet × Text) := do
  let (name, rest) ← match f.skipBlank t with
    | [] => Except.error PatternError.unexpectedEnd
    | c :: cs =>
      if c = '\x7b' then
        match f.untilBrace false cs with
        | none => .error .unexpectedEnd
        | some found => .ok found
      else if c = '\\' then .error .unknownProperty
      else .ok ([c], f.skipBlank cs)
  if !f.unicode then .error .unicodeDisabled
  else
    let found := match name with
      | [c] => (propertySet? [c]).map (·, false)
      | name => namedSet? name
    match found with
    | none => .error .unknownProperty
    | some (set, flipped) => return (negateSet f (negated != flipped) (foldSet f set), rest)

/-- The ASCII sets that can be named inside brackets. -/
def asciiSet? : String → Option CharSet
  | "alnum" => some (.ofTable ["30-39 41-5A 61-7A"])
  | "alpha" => some (.ofTable ["41-5A 61-7A"])
  | "ascii" => some (.range '\x00' '\x7f')
  | "blank" => some (.ofTable ["9 20"])
  | "cntrl" => some (.ofTable ["0-1F 7F"])
  | "digit" => some (.range '0' '9')
  | "graph" => some (.range '!' '~')
  | "lower" => some (.range 'a' 'z')
  | "print" => some (.range ' ' '~')
  | "punct" => some (.ofTable ["21-2F 3A-40 5B-60 7B-7E"])
  | "space" => some (.ofTable ["9-D 20"])
  | "upper" => some (.range 'A' 'Z')
  | "word" => some (.ofTable ["30-39 41-5A 5F 61-7A"])
  | "xdigit" => some (.ofTable ["30-39 41-46 61-66"])
  | _ => none

/-- A shorthand set: the given set of characters, or the ASCII set with a name. -/
def shorthand (f : PatternFlags) (set : CharSet) (asciiName : String) (negated : Bool) :
    Except PatternError CharSet :=
  textSet f (negateSet f negated
    (if f.unicode then set else (asciiSet? asciiName).getD .none))

/-! ## Word boundaries -/

/-- The characters of a word-boundary name, and the rest. -/
def readBoundaryName (f : PatternFlags) : Nat → Text → Text × Text
  | 0, t => ([], t)
  | _, [] => ([], [])
  | n + 1, c :: cs =>
    if c.isAlpha || c = '-' then
      let (name, rest) := readBoundaryName f n (f.skipBlank cs)
      (c :: name, rest)
    else ([], c :: cs)

/-- What follows the letter of a word-boundary escape: a name in braces, or nothing. -/
def readBoundary (f : PatternFlags) (t : Text) : Except PatternError (Look × Text) :=
  let ascii := !f.unicode
  match t with
  | '\x7b' :: cs =>
    match f.skipBlank cs with
    | [] => .error .unexpectedEnd
    | d :: ds =>
      if !(d.isAlpha || d = '-') then .ok (.wordBoundary ascii, t)
      else match readBoundaryName f (ds.length + 1) (d :: ds) with
        | (name, '\x7d' :: rest) =>
          if name = "start" then .ok (.wordStart ascii, rest)
          else if name = "end" then .ok (.wordEnd ascii, rest)
          else if name = "start-half" then .ok (.wordStartHalf ascii, rest)
          else if name = "end-half" then .ok (.wordEndHalf ascii, rest)
          else .error .unknownWordBoundary
        | _ => .error .unknownWordBoundary
  | _ => .ok (.wordBoundary ascii, t)

/-! ## Escapes -/

/-- Characters that a backslash may stand before without changing what they are. -/
def isEscapable (c : Char) : Bool :=
  Pattern.isMeta c || (c.toNat < 0x80 && !c.isAlphanum && c != '<' && c != '>')

/-- An escape, from the character after the backslash on. -/
def readEscape (f : PatternFlags) (t : Text) : Except PatternError (PatternAtom × Text) := do
  match t with
  | [] => .error .unexpectedEnd
  | c :: cs =>
    let set := fun s name negated => do
      return (PatternAtom.set (← shorthand f s name negated), cs)
    if c.isDigit then .error .backreference
    else if isEscapable c then return (.char c false, cs)
    else match c with
      | 'x' => readCodePoint f 2 cs
      | 'u' => readCodePoint f 4 cs
      | 'U' => readCodePoint f 8 cs
      | 'p' | 'P' =>
        let (s, rest) ← readProperty f (c = 'P') cs
        return (.set s, rest)
      | 'd' => set Category.nd.set "digit" false
      | 'D' => set Category.nd.set "digit" true
      | 's' => set whiteSpace "space" false
      | 'S' => set whiteSpace "space" true
      | 'w' => set wordSet "word" false
      | 'W' => set wordSet "word" true
      | 'a' => return (.char '\x07' false, cs)
      | 'f' => return (.char '\x0c' false, cs)
      | 't' => return (.char '\t' false, cs)
      | 'n' => return (.char '\n' false, cs)
      | 'r' => return (.char '\r' false, cs)
      | 'v' => return (.char '\x0b' false, cs)
      | 'A' => return (.look .textStart, cs)
      | 'z' => return (.look .textEnd, cs)
      | 'b' =>
        let (l, rest) ← readBoundary f cs
        return (.look l, rest)
      | 'B' => return (.look (.notWordBoundary (!f.unicode)), cs)
      | '<' => return (.look (.wordStart (!f.unicode)), cs)
      | '>' => return (.look (.wordEnd (!f.unicode)), cs)
      | _ => .error .unknownEscape

end PatternReader

end GlyphTree
