import GlyphTree.Data.Basic
import GlyphTree.Data.JsonReader
import GlyphTree.Data.Yaml.Node

/-!
# Values of YAML

What nodes stand for. A plain scalar is null, a truth value or a number if it is written like one,
and a text otherwise; a tag may say which it has to be. Aliases are replaced by what they refer to,
within limits on depth and number.
-/

namespace GlyphTree.Yaml

/-! ## Plain scalars -/

/-- Whether a text is one of the given words. -/
def isWord (words : List String) (t : Text) : Bool := words.any (·.toList = t)

/-- Whether a text is a null. -/
def isNull (t : Text) : Bool := isWord ["~", "null", "Null", "NULL"] t

/-- The truth value that a text is written like. -/
def truth? (t : Text) : Option Bool :=
  if isWord ["true", "True", "TRUE"] t then some true
  else if isWord ["false", "False", "FALSE"] t then some false
  else none

/-- The number that digits of a base stand for; there must be one at least. -/
def digitsIn? (base : Nat) (t : Text) : Option Nat :=
  if t.isEmpty then none
  else t.foldlM (fun n c => (hexDigit? c).bind fun d =>
    if d < base then some (base * n + d) else none) 0

/-- Whether a text is a number with a superfluous zero in front, which makes it a text. -/
def hasLeadingZero : Text → Bool
  | '0' :: c :: cs => (c :: cs).all Char.isDigit
  | _ => false

/-- The size of an integer without its sign: in base 16, 8, 2 or 10. -/
def magnitude? (t : Text) : Option Nat :=
  let inBase := match t with
    | '0' :: 'x' :: rest => digitsIn? 16 rest
    | '0' :: 'o' :: rest => digitsIn? 8 rest
    | '0' :: 'b' :: rest => digitsIn? 2 rest
    | _ => none
  match inBase with
  | some n => some n
  | none => if hasLeadingZero t then none else digitsIn? 10 t

/-- The sign of a number, negative or not, and what follows it. -/
def splitSign (t : Text) : Bool × Text :=
  match t with
  | '-' :: rest => (true, rest)
  | '+' :: rest => (false, rest)
  | _ => (false, t)

/-- The integer that a text is written like. Beyond 64 bits, but not beyond 128, it is broken: a
number that nothing can hold; further beyond it is no integer. -/
def integer? (t : Text) : Option Scalar :=
  let (negative, unsigned) := splitSign t
  (magnitude? unsigned).bind fun n =>
    if negative then
      if n = 0 then some .minusZero else if n ≤ 1 <<< 63 then some .number
      else if n ≤ 1 <<< 127 then some (.broken t) else none
    else if n < 1 <<< 64 then some (.nat n)
    else if n < 1 <<< 128 then some (.broken t) else none

/-- Whether `mantissa * 10 ^ exponent` is out of the range of double precision. -/
def isHuge (mantissa : Nat) (exponent : Int) : Bool :=
  let size : Int := (Nat.toDigits 10 mantissa).length + exponent
  if mantissa = 0 || size ≤ 308 then false
  else if 310 ≤ size then true
  else if 0 ≤ exponent then Json.floatLimit ≤ mantissa * Nat.pow 10 exponent.toNat
  else Json.floatLimit * Nat.pow 10 (-exponent).toNat ≤ mantissa

/-- Whether a text without sign is a decimal fraction that fits double precision. -/
def isFraction (t : Text) : Bool :=
  let (whole, rest) := Json.digits t
  let (fraction, rest) := match rest with
    | '.' :: rest => Json.digits rest
    | _ => ([], rest)
  let exponent : Option Int := match rest with
    | [] => some 0
    | e :: rest =>
      let (negative, rest) := splitSign rest
      let (ds, after) := Json.digits rest
      let x : Int := Json.digitsValue ds
      if (e = 'e' || e = 'E') && !ds.isEmpty && after.isEmpty then
        some (if negative then -x else x)
      else none
  match exponent with
  | none => false
  | some x =>
    !(whole ++ fraction).isEmpty &&
      !isHuge (Json.digitsValue (whole ++ fraction)) (x - fraction.length)

/-- Whether a text is written like a number that need not be an integer. -/
def isFloat (t : Text) : Bool :=
  let unsigned := (splitSign t).2
  isFraction unsigned || isWord [".inf", ".Inf", ".INF"] unsigned ||
    isWord [".nan", ".NaN", ".NAN"] t

/-- The value of a plain scalar. -/
def plainValue (t : Text) : Scalar :=
  if t.isEmpty || isNull t then .null
  else match truth? t, integer? t with
    | some b, _ => .bool b
    | none, some s => s
    | none, none =>
      if !hasLeadingZero (splitSign t).2 && isFloat t then .number else .text t

/-! ## Tags -/

/-- Whether a tag belongs to the document alone, so that nothing here knows it. -/
def Tag.isLocal (t : Tag) : Bool := t.head? = some '!'

/-- The value of a scalar. A local tag and one that the text does not suit break it; the other
unknown tags make it a text. -/
def scalarValue (tag : Option Tag) (plain : Bool) (t : Text) : Scalar :=
  match tag with
  | none => if plain then plainValue t else .text t
  | some tag =>
    if tag.isLocal then .broken t
    else if tag = "tag:yaml.org,2002:bool" then ((truth? t).map .bool).getD (.broken t)
    else if tag = "tag:yaml.org,2002:int" then (integer? t).getD (.broken t)
    else if tag = "tag:yaml.org,2002:float" then if isFloat t then .number else .broken t
    else if tag = "tag:yaml.org,2002:null" then if isNull t then .null else .broken t
    else .text t

/-! ## Aliases -/

namespace Node

mutual

/-- The nodes with an anchor inside a node, itself included, in the order of their starts. -/
def anchored : Node → List (Nat × Node)
  | .alias _ => []
  | scalar anchor tag plain t => (anchor.map (·, scalar anchor tag plain t)).toList
  | seq anchor tag items => (anchor.map (·, seq anchor tag items)).toList ++ anchoredItems items
  | map anchor tag entries =>
    (anchor.map (·, map anchor tag entries)).toList ++ anchoredEntries entries

/-- The nodes with an anchor inside the given nodes. -/
def anchoredItems : List Node → List (Nat × Node)
  | [] => []
  | n :: ns => anchored n ++ anchoredItems ns

/-- The nodes with an anchor inside the given entries. -/
def anchoredEntries : List (Node × Node) → List (Nat × Node)
  | [] => []
  | e :: es => anchoredEntry e ++ anchoredEntries es

/-- The nodes with an anchor inside an entry. -/
def anchoredEntry : Node × Node → List (Nat × Node)
  | (k, v) => anchored k ++ anchored v

end

mutual

/-- The length of a node: one for a scalar or an alias, two and the parts for a collection. -/
def length : Node → Nat
  | .alias _ | scalar .. => 1
  | seq _ _ items => lengthItems items + 2
  | map _ _ entries => lengthEntries entries + 2

/-- The length of the given nodes together. -/
def lengthItems : List Node → Nat
  | [] => 0
  | n :: ns => length n + lengthItems ns

/-- The length of the given entries together. -/
def lengthEntries : List (Node × Node) → Nat
  | [] => 0
  | e :: es => lengthEntry e + lengthEntries es

/-- The length of an entry. -/
def lengthEntry : Node × Node → Nat
  | (k, v) => length k + length v

end

end Node

mutual

/-- The value of a node with `depth` collections at most around its innermost scalar. `anchors` are
the anchored nodes, and `jumps` is the number of aliases that may still be followed; gives what is
left of it. -/
def valueOf (anchors : List (Nat × Node)) : Nat → Nat → Node → Nat → Option (Data × Nat)
  | 0, _, _, _ => none
  | fuel + 1, depth, n, jumps =>
    match n with
    | .alias number =>
      match jumps, anchors.lookup number with
      | jumps + 1, some n => valueOf anchors fuel depth n jumps
      | _, _ => none
    | .scalar _ tag plain t => some (.scalar (scalarValue tag plain t), jumps)
    | .seq _ tag items =>
      if tag.any Tag.isLocal then some (.scalar (.broken []), jumps)
      else match depth with
        | 0 => none
        | depth + 1 =>
          (itemValues anchors fuel depth items jumps).map fun (ds, jumps) => (.seq ds, jumps)
    | .map _ tag entries =>
      if tag.any Tag.isLocal then some (.scalar (.broken []), jumps)
      else match depth with
        | 0 => none
        | depth + 1 =>
          (entryValues anchors fuel depth entries jumps).map fun (es, jumps) => (.map es, jumps)

/-- The values of items. -/
def itemValues (anchors : List (Nat × Node)) :
    Nat → Nat → List Node → Nat → Option (List Data × Nat)
  | 0, _, _, _ => none
  | _ + 1, _, [], jumps => some ([], jumps)
  | fuel + 1, depth, n :: ns, jumps =>
    match valueOf anchors fuel depth n jumps with
    | none => none
    | some (d, jumps) =>
      (itemValues anchors fuel depth ns jumps).map fun (ds, jumps) => (d :: ds, jumps)

/-- The keys and values of entries. -/
def entryValues (anchors : List (Nat × Node)) :
    Nat → Nat → List (Node × Node) → Nat → Option (List (Data × Data) × Nat)
  | 0, _, _, _ => none
  | _ + 1, _, [], jumps => some ([], jumps)
  | fuel + 1, depth, (k, v) :: es, jumps =>
    match valueOf anchors fuel depth k jumps with
    | none => none
    | some (k, jumps) =>
      match valueOf anchors fuel depth v jumps with
      | none => none
      | some (v, jumps) =>
        (entryValues anchors fuel depth es jumps).map fun (es, jumps) => ((k, v) :: es, jumps)

end

/-- The deepest that collections may be nested. -/
def depthLimit : Nat := 128

/-- The value of the node of a document. An empty scalar is an empty sequence, and a tag of the
whole does not matter. -/
def rootValue? (n : Node) : Option Data :=
  let n := match n with
    | .scalar _ _ _ [] => .seq none none []
    | .seq anchor _ items => .seq anchor none items
    | n => n
  let length := n.length
  let fuel := (depthLimit + 1) * (length + 2)
  (valueOf n.anchored.reverse fuel depthLimit n (100 * length)).map (·.1)

/-- The value that a text writes in YAML; an empty document is an empty sequence. -/
def read? (t : Text) : Option Data :=
  match (tokens? t).bind document? with
  | none => none
  | some none => some (.seq [])
  | some (some n) => rootValue? n

end GlyphTree.Yaml
