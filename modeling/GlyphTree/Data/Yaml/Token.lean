import GlyphTree.Data.Yaml.Block
import GlyphTree.Data.Yaml.Property

/-!
# Tokens of YAML

What a text consists of before it is known how its parts belong together. Indentation becomes tokens
of its own: one where a block collection starts, one where it ends. That something was a key shows
only at the colon behind it, so every place where a key may have started is kept in mind.
-/

namespace GlyphTree.Yaml

/-- A token. The end of the text is the end of the list of tokens. -/
inductive Token where
  | directive (d : Directive)
  | documentStart
  | documentEnd
  | blockSeqStart
  | blockMapStart
  | blockEnd
  | flowSeqStart
  | flowSeqEnd
  | flowMapStart
  | flowMapEnd
  | item
  | comma
  | key
  | value
  | alias (name : Text)
  | anchor (name : Text)
  | tag (t : WrittenTag)
  | scalar (plain : Bool) (text : Text)

/-- A place where the key of a map may have started: the number of the tokens before it. A key that
starts a line of a block map is required to be one. -/
structure KeyStart where
  place : Place
  tokens : Nat
  required : Bool

/-- How far a text has been cut into tokens. -/
structure Scan where
  place : Place
  /-- The tokens so far, last first. -/
  tokens : List Token
  /-- The columns of the open block collections, the innermost first. -/
  columns : List Nat
  /-- Where the key of each open flow collection, and of the block around them, may have started;
  the innermost first. -/
  keys : List (Option KeyStart)
  /-- Whether a key may start here. -/
  keyAllowed : Bool

namespace Scan

/-- The start of a text. -/
def start (t : Text) : Scan := ⟨.start t, [], [], [none], true⟩

/-- Whether the place is inside a flow collection. -/
def inFlow (s : Scan) : Bool := 1 < s.keys.length

/-- The least column of the lines that go on a scalar. -/
def least (s : Scan) : Nat := (s.columns.head?.map (· + 1)).getD 0

/-- With one more token. -/
def push (s : Scan) (t : Token) : Scan := { s with tokens := t :: s.tokens }

/-- With one more token behind the first `count`. -/
def insert (s : Scan) (count : Nat) (t : Token) : Scan :=
  let behind := s.tokens.length - count
  { s with tokens := s.tokens.take behind ++ t :: s.tokens.drop behind }

/-- At another place. -/
def moveTo (s : Scan) (p : Place) : Scan := { s with place := p }

/-- With a token for the next characters. -/
def take (s : Scan) (n : Nat) (t : Token) : Scan := (s.moveTo (s.place.skip n)).push t

/-- Where it is settled whether a key may start. -/
def allowKey (s : Scan) (allowed : Bool) : Scan := { s with keyAllowed := allowed }

/-! ## Gaps between tokens -/

/-- Skips blanks, comments and line breaks. In block context tabs do not count as blanks where a key
may start, and a byte-order mark at the start of a line takes a column like any character. -/
def skipGap (inFlow : Bool) : Nat → Bool → Place → Bool × Place
  | 0, keyAllowed, p => (keyAllowed, p)
  | fuel + 1, keyAllowed, p =>
    let p := if p.column = 0 && p.rest.head? = some '\ufeff' then p.skip 1 else p
    let p := p.skipWhile fun c => c = ' ' || (c = '\t' && (inFlow || !keyAllowed))
    let p := if p.rest.head? = some '#' then p.skipWhile (!isBreak ·) else p
    match p.lineBreak? with
    | some (_, next) => skipGap inFlow fuel (keyAllowed || !inFlow) next
    | none => (keyAllowed, p)

/-- At the next token. -/
def toToken (s : Scan) : Scan :=
  let (keyAllowed, p) := skipGap s.inFlow (s.place.rest.length + 1) s.keyAllowed s.place
  { s with place := p, keyAllowed := keyAllowed }

/-! ## Keys -/

/-- Whether a place is too far from the start of a key: on another line, or more than 1024
characters behind. -/
def isPast (p : Place) (k : KeyStart) : Bool :=
  k.place.line < p.line || k.place.index + 1024 < p.index

/-- The starts of keys that are not too far; nothing if one of the others was required. -/
def dropPastKeys (s : Scan) : Option Scan := do
  let keys ← s.keys.mapM fun
    | some k =>
      if isPast s.place k then (if k.required then none else some none) else some (some k)
    | none => some none
  return { s with keys }

/-- Without a start of a key in the innermost collection; nothing if it was required. -/
def dropKey (s : Scan) : Option Scan :=
  match s.keys with
  | some k :: keys => if k.required then none else some { s with keys := none :: keys }
  | _ => some s

/-- With a key that may start here. -/
def saveKey (s : Scan) : Option Scan :=
  if s.keyAllowed then do
    let s ← s.dropKey
    let required := !s.inFlow && s.columns.head? = some s.place.column
    return { s with keys := some ⟨s.place, s.tokens.length, required⟩ :: s.keys.drop 1 }
  else some s

/-! ## Indentation -/

/-- Ends the block collections that start right of a column. -/
def closeTo (s : Scan) (column : Nat) : Scan :=
  if s.inFlow then s
  else
    let closed := (s.columns.takeWhile (column < ·)).length
    { s with
      columns := s.columns.drop closed
      tokens := List.replicate closed .blockEnd ++ s.tokens }

/-- Ends all block collections. -/
def closeAll (s : Scan) : Scan :=
  if s.inFlow then s
  else { s with columns := [], tokens := s.columns.map (fun _ => .blockEnd) ++ s.tokens }

/-- Starts a block collection in a column, behind the first `count` tokens, unless the innermost one
is in that column already or further right. -/
def openAt (s : Scan) (column count : Nat) (t : Token) : Scan :=
  if s.inFlow || !s.columns.head?.all (· < column) then s
  else { s.insert count t with columns := column :: s.columns }

/-- Starts a block collection here. -/
def openHere (s : Scan) (t : Token) : Scan := s.openAt s.place.column s.tokens.length t

/-! ## Tokens -/

/-- A directive or a document marker: all block collections end, and no key may start behind it. -/
def atDocument (s : Scan) : Option Scan := do return (← s.closeAll.dropKey).allowKey false

/-- The start of a flow collection. -/
def openFlow (s : Scan) (t : Token) : Option Scan := do
  let s ← s.saveKey
  return ({ s with keys := none :: s.keys }.allowKey true).take 1 t

/-- The end of a flow collection. -/
def closeFlow (s : Scan) (t : Token) : Option Scan := do
  let s ← s.dropKey
  return ({ s with keys := if s.inFlow then s.keys.drop 1 else s.keys }.allowKey false).take 1 t

/-- The sign of an item of a block sequence. -/
def item (s : Scan) : Option Scan :=
  if s.inFlow then do return ((← s.dropKey).allowKey true).take 1 .item
  else if s.keyAllowed then do
    return ((← (s.openHere .blockSeqStart).dropKey).allowKey true).take 1 .item
  else none

/-- The sign of a key. -/
def key (s : Scan) : Option Scan :=
  if s.inFlow then do return ((← s.dropKey).allowKey false).take 1 .key
  else if s.keyAllowed then do
    return ((← (s.openHere .blockMapStart).dropKey).allowKey true).take 1 .key
  else none

/-- The colon before a value: what came before it was the key, if one may have started. -/
def value (s : Scan) : Option Scan :=
  match s.keys with
  | some k :: keys =>
    let s := (s.insert k.tokens .key).openAt k.place.column k.tokens .blockMapStart
    some (({ s with keys := none :: keys }.allowKey false).take 1 .value)
  | _ =>
    if s.inFlow then some ((s.allowKey false).take 1 .value)
    else if s.keyAllowed then some (((s.openHere .blockMapStart).allowKey true).take 1 .value)
    else none

/-- Something that may be a key or start one; no other may start behind it. -/
def keyPart (s : Scan) (read : Place → Option (Token × Place)) : Option Scan := do
  let s ← s.saveKey
  let (t, p) ← read s.place
  return ((s.allowKey false).moveTo p).push t

/-- A plain scalar. A key may start behind it if it is followed by a line break. -/
def plain (s : Scan) : Option Scan := do
  let s ← s.saveKey
  let (t, gap, p) ← s.place.plain? s.inFlow s.least
  return ((s.allowKey gap.broken).moveTo p).push (.scalar true t)

/-- A block scalar. -/
def block (s : Scan) (folded : Bool) : Option Scan := do
  let s ← s.dropKey
  let (t, p) ← s.place.block? folded s.columns.head?
  return ((s.allowKey true).moveTo p).push (.scalar false t)

/-- Whether a plain scalar may start with a text. -/
def startsPlain (inFlow : Bool) : Text → Bool
  | [] => false
  | c :: cs =>
    if c = '-' then !(cs.head?.any isBlank)
    else if c = '?' || c = ':' then !inFlow && !atGap cs
    else !(isBlank c || isBreak c || isFlowSign c || "#&*!|>'\"%@\x60".toList.contains c)

/-- One more token; nothing if no token starts here. -/
def next (s : Scan) (c : Char) (rest : Text) : Option Scan :=
  let p := s.place
  if p.column = 0 && c = '%' then do
    let s ← s.atDocument
    let (d, p) ← (p.skip 1).directive?
    return (s.moveTo p).push (.directive d)
  else if p.atMarker then do
    return (← s.atDocument).take 3 (if c = '-' then .documentStart else .documentEnd)
  else if c = '[' then s.openFlow .flowSeqStart
  else if c = '\x7b' then s.openFlow .flowMapStart
  else if c = ']' then s.closeFlow .flowSeqEnd
  else if c = '\x7d' then s.closeFlow .flowMapEnd
  else if c = ',' then do return ((← s.dropKey).allowKey true).take 1 .comma
  else if c = '-' && atGap rest then s.item
  else if c = '?' && (s.inFlow || atGap rest) then s.key
  else if c = ':' && (s.inFlow || atGap rest) then s.value
  else if c = '*' then s.keyPart fun p => do
    let (name, p) ← (p.skip 1).anchorName?
    return (.alias name, p)
  else if c = '&' then s.keyPart fun p => do
    let (name, p) ← (p.skip 1).anchorName?
    return (.anchor name, p)
  else if c = '!' then s.keyPart fun p => do
    let (tag, p) ← p.tag? s.inFlow
    return (.tag tag, p)
  else if c = '|' && !s.inFlow then s.block false
  else if c = '>' && !s.inFlow then s.block true
  else if c = '\x27' || c = '"' then s.keyPart fun p => do
    let (t, p) ← p.quoted? c
    return (.scalar false t, p)
  else if startsPlain s.inFlow (c :: rest) then s.plain
  else none

/-- The tokens up to the end of the text. -/
def finish : Nat → Scan → Option (List Token)
  | 0, _ => none
  | fuel + 1, s =>
    match s.toToken.dropPastKeys with
    | none => none
    | some s =>
      let s := s.closeTo s.place.column
      match s.place.rest with
      | [] => s.closeAll.dropKey.map fun s => s.tokens.reverse
      | c :: rest => (s.next c rest).bind (finish fuel)

end Scan

/-- Whether a character may stand in a text at all. -/
def isAllowed (c : Char) : Bool :=
  c = '\t' || c = '\n' || c = '\r' || (0x20 ≤ c.toNat && c.toNat ≤ 0x7E) || c.toNat = 0x85 ||
    (0xA0 ≤ c.toNat && c.toNat ≤ 0xFFFD) || 0x10000 ≤ c.toNat

/-- The tokens of a text. -/
def tokens? (t : Text) : Option (List Token) :=
  if t.all isAllowed then Scan.finish (t.length + 1) (.start t) else none

end GlyphTree.Yaml
