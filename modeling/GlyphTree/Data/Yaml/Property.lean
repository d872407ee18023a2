import GlyphTree.Data.Yaml.Flow

/-!
# Tags, anchors and directives of YAML

The names that are written before a node or before a document. A tag is a handle and a suffix; what
a handle stands for is said by directives.
-/

namespace GlyphTree.Yaml

/-! ## Anchors -/

/-- The name of an anchor or an alias after its sign, and the place behind it. -/
def Place.anchorName? (p : Place) : Option (Text × Place) :=
  let name := p.rest.takeWhile isNameChar
  let p := p.skip name.length
  let ends := atGap p.rest || p.rest.head?.any fun c => "?:,]\x7d%@\x60".toList.contains c
  if name.isEmpty || !ends then none else some (name, p)

/-! ## Tags -/

/-- Characters that may stand in a tag; those that delimit flow sequences only in some places. -/
def isTagChar (flowSigns : Bool) (c : Char) : Bool :=
  isNameChar c || ";/?:@&=+$.%!~*'()".toList.contains c ||
    (flowSigns && (c = ',' || c = '[' || c = ']'))

/-- The byte that a percent sign and two hexadecimal digits stand for. -/
def escapedByte? : Text → Option Nat
  | '%' :: a :: b :: _ => do return 16 * (← hexDigit? a) + (← hexDigit? b)
  | _ => none

/-- The values that further bytes of a character add, six bits each. -/
def furtherBytes? : Nat → Nat → Text → Option Nat
  | 0, code, _ => some code
  | n + 1, code, t =>
    match escapedByte? t with
    | some b => if b / 0x40 = 2 then furtherBytes? n (0x40 * code + b % 0x40) (t.drop 3) else none
    | none => none

/-- The character that is written by its escaped bytes, and their number. -/
def escapedChar? (t : Text) : Option (Char × Nat) := do
  let b ← escapedByte? t
  let (width, code) ←
    if b < 0x80 then some (1, b)
    else if b / 0x20 = 6 then some (2, b % 0x20)
    else if b / 0x10 = 14 then some (3, b % 0x10)
    else if b / 8 = 30 then some (4, b % 8)
    else none
  let code ← furtherBytes? (width - 1) code (t.drop 3)
  return ((charOfCode? code).getD '\ufffd', width)

/-- The characters of a tag at a place, bytes unescaped, and the place behind them. -/
def readTagText (flowSigns : Bool) : Nat → Place → Option (Text × Place)
  | 0, _ => none
  | fuel + 1, p =>
    match p.rest with
    | [] => some ([], p)
    | c :: _ =>
      if c = '%' then do
        let (d, width) ← escapedChar? p.rest
        let (t, p) ← readTagText flowSigns fuel (p.skip (3 * width))
        return (d :: t, p)
      else if isTagChar flowSigns c then
        (readTagText flowSigns fuel (p.skip 1)).map fun (t, p) => (c :: t, p)
      else some ([], p)

/-- The characters of a tag at a place. -/
def Place.tagText? (p : Place) (flowSigns : Bool) : Option (Text × Place) :=
  readTagText flowSigns (p.rest.length + 1) p

/-- The same where there must be one. -/
def Place.someTagText? (p : Place) (flowSigns : Bool) : Option (Text × Place) :=
  match p.tagText? flowSigns with
  | some ([], _) => none
  | found => found

/-- A tag as it is written. Without a handle the suffix is the whole tag. -/
structure WrittenTag where
  handle : Text
  suffix : Text

/-- The handle after an exclamation mark: the name and the second mark, if there is one. -/
def handleName (t : Text) : Text × Bool :=
  let name := t.takeWhile isNameChar
  (name, (t.drop name.length).head? = some '!')

/-- The tag at a place, which starts with its exclamation mark. -/
def Place.writtenTag? (p : Place) : Option (WrittenTag × Place) :=
  if (p.rest.drop 1).head? = some '<' then do
    let (suffix, p) ← (p.skip 2).someTagText? true
    if p.rest.head? = some '>' then return (⟨[], suffix⟩, p.skip 1) else none
  else
    match handleName (p.rest.drop 1) with
    | (name, true) => do
      let (suffix, p) ← (p.skip (name.length + 2)).someTagText? false
      return (⟨'!' :: name ++ ['!'], suffix⟩, p)
    | (name, false) => do
      let (suffix, p) ← (p.skip (name.length + 1)).tagText? false
      match name ++ suffix with
      | [] => return (⟨[], ['!']⟩, p)
      | suffix => return (⟨['!'], suffix⟩, p)

/-- The tag at a place, where what follows must be a gap or, in flow collections, a comma. -/
def Place.tag? (p : Place) (inFlow : Bool) : Option (WrittenTag × Place) :=
  match p.writtenTag? with
  | some (tag, p) =>
    if atGap p.rest || (inFlow && p.rest.head? = some ',') then some (tag, p) else none
  | none => none

/-! ## Directives -/

/-- A directive: the version of the language, or what a handle of tags stands for. -/
inductive Directive where
  | version (major minor : Nat)
  | tag (handle expansion : Text)

/-- A decimal number of up to nine digits. -/
def Place.number? (p : Place) : Option (Nat × Place) :=
  let digits := p.rest.takeWhile Char.isDigit
  if digits.isEmpty || 9 < digits.length then none
  else some (digits.foldl (fun n c => 10 * n + (c.toNat - '0'.toNat)) 0, p.skip digits.length)

/-- A handle of tags where it is declared: one exclamation mark, or a name between two. -/
def Place.handle? (p : Place) : Option (Text × Place) :=
  if p.rest.head? = some '!' then
    match handleName (p.rest.drop 1) with
    | (name, true) => some ('!' :: name ++ ['!'], p.skip (name.length + 2))
    | ([], false) => some (['!'], p.skip 1)
    | _ => none
  else none

/-- The directive after its percent sign, up to the end of the line. -/
def Place.directive? (p : Place) : Option (Directive × Place) := do
  let name := p.rest.takeWhile isNameChar
  let p := p.skip name.length
  if !atGap p.rest then none
  else if name = "YAML" then
    let (major, p) ← (p.skipWhile isBlank).number?
    if p.rest.head? != some '.' then none
    else
      let (minor, p) ← (p.skip 1).number?
      return (.version major minor, ← p.endOfLine?)
  else if name = "TAG" then
    let (handle, p) ← (p.skipWhile isBlank).handle?
    if !(p.rest.head?.any isBlank) then none
    else
      let (expansion, p) ← (p.skipWhile isBlank).someTagText? true
      if atGap p.rest then return (.tag handle expansion, ← p.endOfLine?) else none
  else none

end GlyphTree.Yaml
