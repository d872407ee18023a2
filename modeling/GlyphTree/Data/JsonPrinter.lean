import GlyphTree.Data.Basic

/-!
# Printing JSON

Two layouts of the same value: compact, without any white space, and pretty, with an entry a line
and two blanks for each level. Strings are escaped only where JSON demands it.
-/

namespace GlyphTree.Json

/-- A lower-case hexadecimal digit. -/
def hexDigitChar (n : Nat) : Char := "0123456789abcdef".toList.getD n '0'

/-- A character inside a string. -/
def escapeChar (c : Char) : Text :=
  if c = '"' then "\\\"" else
  if c = '\\' then "\\\\" else
  if c = '\x08' then "\\b" else
  if c = '\x0c' then "\\f" else
  if c = '\n' then "\\n" else
  if c = '\r' then "\\r" else
  if c = '\t' then "\\t" else
  if c.toNat < 0x20 then
    ['\\', 'u', '0', '0', hexDigitChar (c.toNat / 16), hexDigitChar (c.toNat % 16)]
  else [c]

/-- A text as a string. -/
def quoted (t : Text) : Text := '"' :: t.flatMap escapeChar ++ ['"']

/-- A number in decimal digits. -/
def decimal (n : Nat) : Text := Nat.toDigits 10 n

/-- A scalar. Numbers of which only their kind is known, and broken scalars, are written null. -/
def scalarText : Scalar → Text
  | .null | .number | .broken _ => "null"
  | .bool true => "true"
  | .bool false => "false"
  | .nat n => decimal n
  | .minusZero => "-0"
  | .text t => quoted t

mutual

/-- A value without white space. -/
def compact : Data → Text
  | .scalar s => scalarText s
  | .seq items => '[' :: compactItems items ++ [']']
  | .map entries => '\x7b' :: compactEntries entries ++ ['\x7d']

/-- Values with commas between them. -/
def compactItems : List Data → Text
  | [] => []
  | [d] => compact d
  | d :: ds => compact d ++ ',' :: compactItems ds

/-- Entries with commas between them. -/
def compactEntries : List (Data × Data) → Text
  | [] => []
  | [e] => compactEntry e
  | e :: es => compactEntry e ++ ',' :: compactEntries es

/-- A key, a colon and a value. -/
def compactEntry : Data × Data → Text
  | (k, d) => compact k ++ ':' :: compact d

end

/-- The start of a line at some level. -/
def newLine (level : Nat) : Text := '\n' :: List.replicate (2 * level) ' '

mutual

/-- A value laid out over lines, its own first line at `level`. -/
def pretty (level : Nat) : Data → Text
  | .scalar s => scalarText s
  | .seq [] => "[]"
  | .seq (d :: ds) => '[' :: prettyItems (level + 1) (d :: ds) ++ newLine level ++ [']']
  | .map [] => "\x7b\x7d"
  | .map (e :: es) => '\x7b' :: prettyEntries (level + 1) (e :: es) ++ newLine level ++ ['\x7d']

/-- Values on lines of their own. -/
def prettyItems (level : Nat) : List Data → Text
  | [] => []
  | [d] => newLine level ++ pretty level d
  | d :: ds => newLine level ++ pretty level d ++ ',' :: prettyItems level ds

/-- Entries on lines of their own. -/
def prettyEntries (level : Nat) : List (Data × Data) → Text
  | [] => []
  | [e] => newLine level ++ prettyEntry level e
  | e :: es => newLine level ++ prettyEntry level e ++ ',' :: prettyEntries level es

/-- A key, a colon and a value that starts on the same line. -/
def prettyEntry (level : Nat) : Data × Data → Text
  | (k, d) => pretty level k ++ ": " ++ pretty level d

end

end GlyphTree.Json
