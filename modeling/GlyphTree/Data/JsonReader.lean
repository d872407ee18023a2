import GlyphTree.Data.Basic
import GlyphTree.Text.Search

/-!
# Reading JSON

Strict JSON: no comments, no trailing commas, no leading zeros, nothing but white space after the
value. A map may hold a key twice; whoever reads a record from it decides.
-/

namespace GlyphTree.Json

/-- Drops the white space of JSON. -/
def skipSpace (t : Text) : Text :=
  t.dropWhile fun c => c = ' ' || c = '\t' || c = '\n' || c = '\r'

/-! ## Strings -/

/-- The value of a hexadecimal digit. -/
def hexDigit? (c : Char) : Option Nat :=
  if '0' ≤ c ∧ c ≤ '9' then some (c.toNat - '0'.toNat)
  else if 'a' ≤ c ∧ c ≤ 'f' then some (c.toNat - 'a'.toNat + 10)
  else if 'A' ≤ c ∧ c ≤ 'F' then some (c.toNat - 'A'.toNat + 10)
  else none

/-- The value of four hexadecimal digits. -/
def hexUnit? (a b c d : Char) : Option Nat := do
  return (((← hexDigit? a) * 16 + (← hexDigit? b)) * 16 + (← hexDigit? c)) * 16 + (← hexDigit? d)

/-- A piece of a string: a character, or one half of a surrogate pair. -/
inductive Piece where
  | char (c : Char)
  | half (unit : Nat)

/-- The piece that a 16-bit unit stands for. -/
def Piece.ofUnit (n : Nat) : Piece :=
  if h : n.isValidChar then .char (Char.ofNatAux n h) else .half n

/-- The character that an escape letter stands for. -/
def unescape? : Char → Option Char
  | '"' => some '"'
  | '\\' => some '\\'
  | '/' => some '/'
  | 'b' => some '\x08'
  | 'f' => some '\x0c'
  | 'n' => some '\n'
  | 'r' => some '\r'
  | 't' => some '\t'
  | _ => none

/-- The pieces of a string up to its closing quote, and the text after it. -/
def readPieces : Text → Option (List Piece × Text)
  | [] => none
  | '"' :: rest => some ([], rest)
  | '\\' :: 'u' :: a :: b :: c :: d :: rest => do
    let n ← hexUnit? a b c d
    let (pieces, rest) ← readPieces rest
    return (.ofUnit n :: pieces, rest)
  | '\\' :: e :: rest => do
    let c ← unescape? e
    let (pieces, rest) ← readPieces rest
    return (.char c :: pieces, rest)
  | c :: rest =>
    if c.toNat < 0x20 then none
    else do
      let (pieces, rest) ← readPieces rest
      return (.char c :: pieces, rest)

/-- The text that pieces make up; surrogate halves must come in pairs, high before low. -/
def joinPieces : List Piece → Option Text
  | [] => some []
  | .char c :: ps => (joinPieces ps).map (c :: ·)
  | .half hi :: .half lo :: ps =>
    if hi < 0xDC00 ∧ 0xDC00 ≤ lo then
      (joinPieces ps).map (Char.ofNat (0x10000 + (hi - 0xD800) * 0x400 + (lo - 0xDC00)) :: ·)
    else none
  | .half _ :: _ => none

/-- A string after its opening quote. -/
def readString (t : Text) : Option (Scalar × Text) := do
  let (pieces, rest) ← readPieces t
  match joinPieces pieces with
  | some s => return (.text s, rest)
  | none => return (.broken [], rest)

/-! ## Numbers -/

/-- The digits at the front, and the rest. -/
def digits (t : Text) : Text × Text := (t.takeWhile Char.isDigit, t.dropWhile Char.isDigit)

/-- The number that decimal digits stand for. -/
def digitsValue (ds : Text) : Nat := ds.foldl (fun n c => 10 * n + (c.toNat - '0'.toNat)) 0

/-- A number rounded to 53 binary digits; of two that are equally near, the even one. -/
def round53 (n : Nat) : Nat :=
  if n < 1 <<< 53 then n
  else
    let unit := 1 <<< (n.log2 - 52)
    let down := n / unit
    let rest := 2 * (n % unit)
    (if unit < rest ∨ (rest = unit ∧ down % 2 = 1) then down + 1 else down) * unit

/-- The least number that rounds to none of double precision, which has 53 digits and 11 bits for
the exponent. -/
def floatLimit : Nat := (1 <<< 1024) - (1 <<< 970)

/-- Takes digits into a number as long as it fits 64 bits. Gives the number and how many digits
were taken. -/
def takeDigits (n : Nat) : Text → Nat × Nat
  | [] => (n, 0)
  | c :: cs =>
    let next := 10 * n + (c.toNat - '0'.toNat)
    if next < 1 <<< 64 then
      let (value, count) := takeDigits next cs
      (value, count + 1)
    else (n, 0)

/-- Whether the number with the given whole part, fraction and exponent is out of the range of
double precision. As many digits count as fit 64 bits, and that number and the power of ten it is
multiplied by are rounded before. -/
def outOfRange (whole fraction : Text) (exponent : Int) : Bool :=
  let (n, wholeTaken) := takeDigits 0 whole
  let (n, fractionTaken) := takeDigits n fraction
  let exponent := exponent + (whole.length - wholeTaken : Nat) - fractionTaken
  n != 0 && (308 < exponent ||
    (0 ≤ exponent && floatLimit ≤ round53 n * round53 (Nat.pow 10 exponent.toNat)))

/-- The part of a number after the integer digits: fraction digits and exponent, if written. -/
def readTail (t : Text) : Option (Option (Text × Int) × Text) := do
  let (fraction, t) ← match t with
    | '.' :: rest =>
      match digits rest with
      | ([], _) => none
      | (ds, rest) => some (some ds, rest)
    | _ => some (none, t)
  let exponentOf := fun (sign : Int) (t : Text) =>
    match digits t with
    | ([], _) => none
    | (ds, rest) => some (some (sign * (digitsValue ds : Int)), rest)
  let (exponent, t) ← match t with
    | e :: rest =>
      if e = 'e' || e = 'E' then
        match rest with
        | '+' :: rest => exponentOf 1 rest
        | '-' :: rest => exponentOf (-1) rest
        | _ => exponentOf 1 rest
      else some (none, t)
    | [] => some (none, t)
  match fraction, exponent with
  | none, none => return (none, t)
  | _, _ => return (some (fraction.getD [], exponent.getD 0), t)

/-- A number. Natural numbers below `2 ^ 64` are kept, of others only that they are numbers. -/
def readNumber (t : Text) : Option (Scalar × Text) := do
  let (negative, t) := match t with
    | '-' :: rest => (true, rest)
    | _ => (false, t)
  let (whole, t) ← match t with
    | '0' :: rest => if (digits rest).1.isEmpty then some (['0'], rest) else none
    | _ => match digits t with
      | ([], _) => none
      | (ds, rest) => some (ds, rest)
  let (tail, t) ← readTail t
  let (fraction, exponent) := tail.getD ([], 0)
  let n := digitsValue whole
  if !negative && tail.isNone && n < 1 <<< 64 then return (.nat n, t)
  else if outOfRange whole fraction exponent then return (.broken [], t)
  else return (.number, t)

/-! ## Values -/

/-- A scalar that is no string. -/
def readPlain (t : Text) : Option (Scalar × Text) :=
  match Text.dropPrefix? "null" t, Text.dropPrefix? "true" t, Text.dropPrefix? "false" t with
  | some rest, _, _ => some (.null, rest)
  | _, some rest, _ => some (.bool true, rest)
  | _, _, some rest => some (.bool false, rest)
  | none, none, none => readNumber t

mutual

/-- A value that starts at the front of the text. -/
def readValue : Nat → Text → Option (Data × Text)
  | 0, _ => none
  | fuel + 1, t =>
    match t with
    | '"' :: rest => (readString rest).map fun (s, rest) => (.scalar s, rest)
    | '[' :: rest =>
      match skipSpace rest with
      | ']' :: rest => some (.seq [], rest)
      | rest => (readItems fuel rest).map fun (items, rest) => (.seq items, rest)
    | '\x7b' :: rest =>
      match skipSpace rest with
      | '\x7d' :: rest => some (.map [], rest)
      | rest => (readEntries fuel rest).map fun (entries, rest) => (.map entries, rest)
    | t => (readPlain t).map fun (s, rest) => (.scalar s, rest)

/-- The items of a sequence up to its closing bracket; at least one. -/
def readItems : Nat → Text → Option (List Data × Text)
  | 0, _ => none
  | fuel + 1, t =>
    match readValue fuel t with
    | none => none
    | some (d, rest) =>
      match skipSpace rest with
      | ']' :: rest => some ([d], rest)
      | ',' :: rest => (readItems fuel (skipSpace rest)).map fun (ds, rest) => (d :: ds, rest)
      | _ => none

/-- The entries of a map up to its closing brace; at least one. -/
def readEntries : Nat → Text → Option (List (Data × Data) × Text)
  | 0, _ => none
  | fuel + 1, t =>
    match t with
    | '"' :: rest =>
      match readString rest with
      | none => none
      | some (key, rest) =>
        match skipSpace rest with
        | ':' :: rest =>
          match readValue fuel (skipSpace rest) with
          | none => none
          | some (d, rest) =>
            match skipSpace rest with
            | '\x7d' :: rest => some ([(.scalar key, d)], rest)
            | ',' :: rest =>
              (readEntries fuel (skipSpace rest)).map fun (es, rest) =>
                ((.scalar key, d) :: es, rest)
            | _ => none
        | _ => none
    | _ => none

end

/-- The value that a text writes in JSON. -/
def read? (t : Text) : Option Data :=
  match readValue (2 * t.length + 2) (skipSpace t) with
  | some (d, rest) => if (skipSpace rest).isEmpty then some d else none
  | none => none

end GlyphTree.Json
