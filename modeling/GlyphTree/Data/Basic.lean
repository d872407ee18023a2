import GlyphTree.Text

/-!
# Structured data

What a written definition holds before anyone knows what it defines: scalars, sequences and maps.
Both text formats read into `Data`; records are then taken from it by `Data.fields?`.
-/

namespace GlyphTree

/-- A single value. `number` is any number that is no natural number of 64 bits, and `minusZero` the
integer zero with a minus, which is a natural number but no place of a field. `broken` is a scalar
that is well formed but stands for nothing, such as half a surrogate pair; if it could still serve
as a name it keeps what was written. -/
inductive Scalar where
  | null
  | bool (b : Bool)
  | nat (n : Nat)
  | minusZero
  | number
  | text (t : Text)
  | broken (written : Text)
deriving DecidableEq, Repr, Inhabited

/-- Scalars, sequences and maps; a map keeps its entries in the order they were written. Any value
may be a key. -/
inductive Data where
  | scalar (s : Scalar)
  | seq (items : List Data)
  | map (entries : List (Data × Data))
deriving Repr, Inhabited

namespace Data

/-- The null value. -/
def null : Data := scalar .null

/-- A natural number. -/
def ofNat (n : Nat) : Data := scalar (.nat n)

/-- A text. -/
def ofText (t : Text) : Data := scalar (.text t)

/-- A truth value. -/
def ofBool (b : Bool) : Data := scalar (.bool b)

/-- A value that may be absent; null if it is. -/
def ofOption {α : Type} (write : α → Data) : Option α → Data
  | none => null
  | some a => write a

/-- A record: a map with texts as keys. -/
def record (fields : List (Text × Data)) : Data :=
  map (fields.map fun (k, d) => (ofText k, d))

/-! ## Reading values -/

/-- The text, if the value is one. -/
def text? : Data → Option Text
  | scalar (.text t) => some t
  | _ => none

/-- The natural number, if the value is one. -/
def nat? : Data → Option Nat
  | scalar (.nat n) => some n
  | scalar .minusZero => some 0
  | _ => none

/-- The 64-bit word, if the value is a natural number that fits. -/
def word? (d : Data) : Option UInt64 :=
  d.nat?.bind fun n => if n < 1 <<< 64 then some (.ofNat n) else none

/-- The truth value, if the value is one. -/
def bool? : Data → Option Bool
  | scalar (.bool b) => some b
  | _ => none

/-- The character, if the value is a text of one. -/
def char? : Data → Option Char
  | scalar (.text [c]) => some c
  | _ => none

/-- The items, if the value is a sequence. -/
def seq? : Data → Option (List Data)
  | seq items => some items
  | _ => none

/-- The name, if the value is a text or what was written of a broken scalar. -/
def name? : Data → Option Text
  | scalar (.text t) => some t
  | scalar (.broken t) => some t
  | _ => none

/-- A value that may be null. -/
def nullable? {α : Type} (read : Data → Option α) : Data → Option (Option α)
  | scalar .null => some none
  | d => (read d).map some

/-! ## Records -/

/-- The number of the field that a key names: by its name, or by its place. `none` within for an
unknown field; no result for what is no key. -/
def fieldIndex? (names : List Text) : Data → Option (Option Nat)
  | scalar (.text t) => some (names.findIdx? (· = t))
  | scalar (.nat n) => some (if n < names.length then some n else none)
  | _ => none

/-- The entries of a map put in their places among `found`; no place may be taken twice. -/
def placeEntries (names : List Text) (found : List (Option Data)) :
    List (Data × Data) → Option (List (Option Data))
  | [] => some found
  | (key, d) :: rest =>
    match fieldIndex? names key with
    | none => none
    | some none => placeEntries names found rest
    | some (some i) =>
      match found[i]? with
      | some none => placeEntries names (found.set i (some d)) rest
      | _ => none

/-- The fields of a record, by the given names. A map may leave fields out and hold others; a
sequence gives the fields in order and may stop early. -/
def fields? (names : List Text) : Data → Option (List (Option Data))
  | scalar _ => none
  | seq items =>
    if items.length ≤ names.length then
      some (items.map some ++ List.replicate (names.length - items.length) none)
    else none
  | map entries => placeEntries names (List.replicate names.length none) entries

/-- A field that must be there. -/
def required? {α : Type} (read : Data → Option α) : Option Data → Option α
  | some d => read d
  | none => none

/-- A field with a default. -/
def default? {α : Type} (read : Data → Option α) (whenMissing : α) : Option Data → Option α
  | some d => read d
  | none => some whenMissing

/-! ## Checks on the whole value -/

mutual

/-- How many sequences and maps lie around the innermost value, itself included. -/
def depth : Data → Nat
  | scalar _ => 0
  | seq items => depthItems items + 1
  | map entries => depthEntries entries + 1

/-- The greatest depth of the given values. -/
def depthItems : List Data → Nat
  | [] => 0
  | d :: ds => max (depth d) (depthItems ds)

/-- The greatest depth of the keys and values of the given entries. -/
def depthEntries : List (Data × Data) → Nat
  | [] => 0
  | e :: es => max (depthEntry e) (depthEntries es)

/-- The depth of an entry. -/
def depthEntry : Data × Data → Nat
  | (k, d) => max (depth k) (depth d)

end

mutual

/-- Whether no scalar of the value is broken. -/
def sound : Data → Bool
  | scalar (.broken _) => false
  | scalar _ => true
  | seq items => soundItems items
  | map entries => soundEntries entries

/-- Whether no scalar of the given values is broken. -/
def soundItems : List Data → Bool
  | [] => true
  | d :: ds => sound d && soundItems ds

/-- Whether no scalar of the given entries is broken. -/
def soundEntries : List (Data × Data) → Bool
  | [] => true
  | e :: es => soundEntry e && soundEntries es

/-- Whether no scalar of an entry is broken. -/
def soundEntry : Data × Data → Bool
  | (k, d) => sound k && sound d

end

end Data

end GlyphTree
