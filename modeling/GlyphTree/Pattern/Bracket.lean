import GlyphTree.Pattern.Escape

/-!
# Bracketed sets

Sets of characters written between square brackets: characters, ranges, escapes, named ASCII sets
and further bracketed sets, joined by operators. Beside the set the readers give how deep the
writing is nested.
-/

namespace GlyphTree

/-- A set as it is written, and how deep brackets, operators and rows of items are nested in it. -/
structure WrittenSet where
  set : Unicode.CharSet
  depth : Nat

/-- The operators between the items of a bracketed set, written with one character twice. -/
inductive SetOp where
  | inter
  | diff
  | symmDiff

/-- The set that an operator makes of its two sides. -/
def SetOp.apply : SetOp → Unicode.CharSet → Unicode.CharSet → Unicode.CharSet
  | inter => .inter
  | diff => .diff
  | symmDiff => .symmDiff

/-- The items of a bracketed set that stand in a row: their union, their number, and how deep the
deepest of them is nested. -/
structure SetItems where
  set : Unicode.CharSet
  count : Nat
  depth : Nat

namespace SetItems

/-- No items. -/
def none : SetItems := ⟨.none, 0, 0⟩

/-- The row with one more item. -/
def add (items : SetItems) (item : WrittenSet) : SetItems :=
  ⟨items.set.union item.set, items.count + 1, max items.depth item.depth⟩

/-- The row as one set; several items are one level deeper than the deepest. -/
def written (items : SetItems) : WrittenSet :=
  ⟨items.set, if 2 ≤ items.count then items.depth + 1 else items.depth⟩

end SetItems

namespace PatternReader

open Unicode

/-! ## Items -/

/-- The operator that stands at the front, and the text after it. -/
def setOp? : Text → Option (SetOp × Text)
  | '&' :: '&' :: rest => some (.inter, rest)
  | '-' :: '-' :: rest => some (.diff, rest)
  | '~' :: '~' :: rest => some (.symmDiff, rest)
  | _ => none

/-- A named ASCII set after its opening bracket, if there is one: its name, whether it is negated,
and the rest. -/
def asciiName? (t : Text) : Option (CharSet × Bool × Text) :=
  match t with
  | ':' :: cs =>
    let (negated, cs) := match cs with
      | '^' :: rest => (true, rest)
      | _ => (false, cs)
    match Text.splitOnce ':' cs with
    | some (name, ']' :: rest) => (asciiSet? (String.ofList name)).map (·, negated, rest)
    | _ => none
  | _ => none

/-- One end of a range, or a whole item: an escape or a plain character. -/
def readSetAtom (f : PatternFlags) (t : Text) : Except PatternError (PatternAtom × Text) :=
  match t with
  | [] => .error .unclosedClass
  | '\\' :: cs => readEscape f cs
  | c :: cs => .ok (.char c false, cs)

/-- The character an item stands for, if it is a single one that the set can hold. -/
def atomChar (f : PatternFlags) : PatternAtom → Except PatternError Char
  | .char c _ => if f.unicode || c.toNat < 0x80 then .ok c else .error .unicodeDisabled
  | _ => .error .badRange

/-- The set an item stands for. -/
def atomSet (f : PatternFlags) : PatternAtom → Except PatternError CharSet
  | .set s => .ok s
  | .look _ => .error .badClassItem
  | a => do return .single (← atomChar f a)

/-- The first character that is neither blank nor the first number sign. -/
def peekPast (inComment : Bool) : Text → Option Char
  | [] => none
  | c :: cs =>
    if isWhiteSpace c then peekPast inComment cs
    else if !inComment && c = '#' then peekPast true cs
    else some c

/-- Whether a hyphen with the given text after it is a plain character: what comes next, where
blanks do not count, closes the brackets or is another hyphen. -/
def isPlainHyphen (f : PatternFlags) (after : Text) : Bool :=
  let next := if f.ignoreBlank then peekPast false after else after.head?
  next = some ']' || next = some '-'

/-- An item of a set: a character, an escape, or a range. -/
def readSetItem (f : PatternFlags) (t : Text) : Except PatternError (CharSet × Text) := do
  let (first, rest) ← readSetAtom f t
  match f.skipBlank rest with
  | [] => .error .unclosedClass
  | '-' :: after =>
    if isPlainHyphen f after then return (← atomSet f first, '-' :: after)
    else
      let (last, rest) ← readSetAtom f (f.skipBlank after)
      let lo ← atomChar f first
      let hi ← atomChar f last
      if lo ≤ hi then return (.range lo hi, rest) else .error .badRange
  | rest => return (← atomSet f first, rest)

/-! ## Sets -/

/-- The number of hyphens at the front, up to a bound, and the rest. -/
def leadingHyphens (f : PatternFlags) : Nat → Text → Nat × Text
  | n + 1, '-' :: cs =>
    let (count, rest) := leadingHyphens f n (f.skipBlank cs)
    (count + 1, rest)
  | _, t => (0, t)

/-- The start of a set after its bracket: whether it is negated, the characters that are plain only
there, and the rest. -/
def readSetOpening (f : PatternFlags) (t : Text) : Bool × SetItems × Text :=
  let t := f.skipBlank t
  let (negated, t) := match t with
    | '^' :: cs => (true, f.skipBlank cs)
    | _ => (false, t)
  match leadingHyphens f t.length t with
  | (0, ']' :: cs) => (negated, SetItems.none.add ⟨.single ']', 0⟩, f.skipBlank cs)
  | (0, t) => (negated, .none, t)
  | (n, t) => (negated, ⟨.single '-', n, 0⟩, t)

/-- What the items of a set and the operator that waits for them, with its left side, amount to. -/
def joinSides (f : PatternFlags) (left : Option (SetOp × WrittenSet)) (items : SetItems) :
    WrittenSet :=
  let right := items.written
  match left with
  | none => right
  | some (op, a) =>
    ⟨op.apply (foldSet f a.set) (foldSet f right.set), max a.depth right.depth + 1⟩

/-- The items of a set up to its closing bracket, after `items` and the operator and left side that
wait for them. -/
def readSetItems : Nat → PatternFlags → Bool → Option (SetOp × WrittenSet) → SetItems → Text →
    Except PatternError (WrittenSet × Text)
  | 0, _, _, _, _, _ => .error .unclosedClass
  | fuel + 1, f, negated, left, items, t =>
    let whole := joinSides f left items
    match f.skipBlank t with
    | [] => .error .unclosedClass
    | ']' :: rest =>
      match textSet f (negateSet f negated (foldSet f whole.set)) with
      | .error e => .error e
      | .ok set => .ok (⟨set, whole.depth + 1⟩, rest)
    | '[' :: rest =>
      match asciiName? rest with
      | some (set, inverted, rest) =>
        match textSet f (negateSet f inverted (foldSet f set)) with
        | .error e => .error e
        | .ok set => readSetItems fuel f negated left (items.add ⟨set, 0⟩) rest
      | none =>
        let (innerNegated, first, rest) := readSetOpening f rest
        match readSetItems fuel f innerNegated none first rest with
        | .error e => .error e
        | .ok (inner, rest) => readSetItems fuel f negated left (items.add inner) rest
    | t =>
      match setOp? t with
      | some (op, rest) => readSetItems fuel f negated (some (op, whole)) .none rest
      | none =>
        match readSetItem f t with
        | .error e => .error e
        | .ok (set, rest) => readSetItems fuel f negated left (items.add ⟨set, 0⟩) rest

/-- A bracketed set after its opening bracket. -/
def readSet (f : PatternFlags) (t : Text) : Except PatternError (WrittenSet × Text) :=
  let (negated, first, rest) := readSetOpening f t
  readSetItems (t.length + 1) f negated none first rest

end PatternReader

end GlyphTree
