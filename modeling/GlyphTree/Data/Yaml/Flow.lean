import GlyphTree.Data.Yaml.Place

/-!
# Flow scalars of YAML

Plain scalars and those in quotes. They may run over several lines: the blanks around a line break
do not count, a single line break is a space, and of several the first is dropped.
-/

namespace GlyphTree.Yaml

/-! ## Gaps -/

/-- What stands between two words of a scalar: blanks, or line breaks. -/
structure Gap where
  blanks : Text
  breaks : Text

namespace Gap

/-- No gap. -/
def none : Gap := ⟨[], []⟩

/-- Whether the gap holds a line break. -/
def broken (g : Gap) : Bool := !g.breaks.isEmpty

/-- What a gap adds to a scalar. -/
def text (g : Gap) : Text :=
  match g.breaks with
  | [] => g.blanks
  | ['\n'] => [' ']
  | '\n' :: more => more
  | breaks => breaks

end Gap

/-- Reads a gap. Tabs behind a line break are refused before the column `least`. `g` is what was
read, last characters first. -/
def readGap (least : Nat) : Nat → Gap → Place → Option (Gap × Place)
  | 0, _, _ => none
  | fuel + 1, g, p =>
    match p.lineBreak? with
    | some (c, next) => readGap least fuel { g with breaks := c :: g.breaks } next
    | none =>
      match p.rest with
      | ' ' :: _ =>
        readGap least fuel (if g.broken then g else { g with blanks := ' ' :: g.blanks }) (p.skip 1)
      | '\t' :: _ =>
        if g.broken then
          if p.column < least then none else readGap least fuel g (p.skip 1)
        else readGap least fuel { g with blanks := '\t' :: g.blanks } (p.skip 1)
      | _ => some (⟨g.blanks.reverse, g.breaks.reverse⟩, p)

/-- The gap at a place, and the place behind it. -/
def Place.gap? (p : Place) (least : Nat) : Option (Gap × Place) :=
  readGap least (p.rest.length + 1) .none p

/-! ## Plain scalars -/

/-- Characters that delimit flow collections. -/
def isFlowSign (c : Char) : Bool := ",[]\x7b\x7d".toList.contains c

/-- The leading characters that belong to a word of a plain scalar; nothing if a colon in a flow
collection stands where it may not. -/
def plainWord? (inFlow : Bool) : Text → Option Text
  | [] => some []
  | c :: cs =>
    if isBlank c || isBreak c then some []
    else if inFlow && c = ':' && (cs.head?.any fun d => d = '?' || isFlowSign d) then none
    else if (c = ':' && atGap cs) || (inFlow && isFlowSign c) then some []
    else (plainWord? inFlow cs).map (c :: ·)

/-- The rest of a plain scalar, the lines of which start at the column `least` or later. `acc` is
what was read, last character first, and `gap` the gap behind it. Gives the scalar, the gap behind
it and the place behind that. -/
def readPlain (inFlow : Bool) (least : Nat) : Nat → Text → Gap → Place →
    Option (Text × Gap × Place)
  | 0, _, _, _ => none
  | fuel + 1, acc, gap, p =>
    if p.atMarker || p.rest.head? = some '#' then some (acc.reverse, gap, p)
    else match plainWord? inFlow p.rest with
      | none => none
      | some [] => some (acc.reverse, gap, p)
      | some word =>
        let acc := word.reverse ++ gap.text.reverse ++ acc
        let p := p.skip word.length
        if p.rest.isEmpty || !atGap p.rest then some (acc.reverse, .none, p)
        else match p.gap? least with
          | none => none
          | some (gap, p) =>
            if !inFlow && p.column < least then some (acc.reverse, gap, p)
            else readPlain inFlow least fuel acc gap p

/-- The plain scalar at a place. -/
def Place.plain? (p : Place) (inFlow : Bool) (least : Nat) : Option (Text × Gap × Place) :=
  readPlain inFlow least (p.rest.length + 1) [] .none p

/-! ## Quoted scalars -/

/-- The character that an escape letter stands for. -/
def unescape? : Char → Option Char
  | '0' => some '\x00'
  | 'a' => some '\x07'
  | 'b' => some '\x08'
  | 't' | '\t' => some '\t'
  | 'n' => some '\n'
  | 'v' => some '\x0b'
  | 'f' => some '\x0c'
  | 'r' => some '\r'
  | 'e' => some '\x1b'
  | ' ' => some ' '
  | '"' => some '"'
  | '/' => some '/'
  | '\\' => some '\\'
  | 'N' => some '\u0085'
  | '_' => some '\u00a0'
  | 'L' => some '\u2028'
  | 'P' => some '\u2029'
  | _ => none

/-- The number of digits of an escape by code point. -/
def escapeWidth? : Char → Option Nat
  | 'x' => some 2
  | 'u' => some 4
  | 'U' => some 8
  | _ => none

/-- The value of a hexadecimal digit. -/
def hexDigit? (c : Char) : Option Nat :=
  if '0' ≤ c ∧ c ≤ '9' then some (c.toNat - '0'.toNat)
  else if 'a' ≤ c ∧ c ≤ 'f' then some (c.toNat - 'a'.toNat + 10)
  else if 'A' ≤ c ∧ c ≤ 'F' then some (c.toNat - 'A'.toNat + 10)
  else none

/-- The number that hexadecimal digits stand for. -/
def hexValue? (digits : Text) : Option Nat :=
  digits.foldlM (fun n c => (hexDigit? c).map (16 * n + ·)) 0

/-- The character with a code point, if there is one. -/
def charOfCode? (n : Nat) : Option Char :=
  if h : n.isValidChar then some (Char.ofNatAux n h) else none

/-- What an escape stands for, from the character after the backslash on, and the number of its
characters after the backslash. -/
def escape? : Text → Option (Char × Nat)
  | [] => none
  | c :: cs =>
    match unescape? c, escapeWidth? c with
    | some d, _ => some (d, 1)
    | none, some width =>
      if cs.length < width then none
      else ((hexValue? (cs.take width)).bind charOfCode?).map (·, width + 1)
    | none, none => none

/-- The rest of a quoted scalar. `acc` is what was read, last character first. -/
def readQuoted (quote : Char) : Nat → Text → Place → Option (Text × Place)
  | 0, _, _ => none
  | fuel + 1, acc, p =>
    if p.atMarker then none
    else match p.rest with
      | [] => none
      | c :: cs =>
        if isBlank c || isBreak c then
          (p.gap? 0).bind fun (gap, p) => readQuoted quote fuel (gap.text.reverse ++ acc) p
        else if c = quote then
          if quote = '\x27' && cs.head? = some quote then
            readQuoted quote fuel (quote :: acc) (p.skip 2)
          else some (acc.reverse, p.skip 1)
        else if c = '\\' && quote = '"' then
          match (p.skip 1).lineBreak? with
          | some (_, next) =>
            (next.gap? 0).bind fun (gap, p) => readQuoted quote fuel (gap.breaks.reverse ++ acc) p
          | none =>
            match escape? cs with
            | some (d, width) => readQuoted quote fuel (d :: acc) (p.skip (width + 1))
            | none => none
        else readQuoted quote fuel (c :: acc) (p.skip 1)

/-- The quoted scalar at a place, which starts with its quote. -/
def Place.quoted? (p : Place) (quote : Char) : Option (Text × Place) :=
  readQuoted quote (p.rest.length + 1) [] (p.skip 1)

end GlyphTree.Yaml
