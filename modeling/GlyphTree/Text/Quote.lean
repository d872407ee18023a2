import GlyphTree.Text
import GlyphTree.Unicode.Property

/-!
# Quoted forms

How single characters and texts are shown in messages and listings: a character between single
quotes with everything invisible spelled out, and a text with its line breaks, tabs, quotes and
backslashes escaped.
-/

namespace GlyphTree

/-- A number in decimal digits. -/
def Text.ofNat (n : Nat) : Text := Nat.toDigits 10 n

/-- A character by its code point, in lower-case hexadecimal between braces. -/
def codePointEscape (c : Char) : Text :=
  "\\u\x7b" ++ Nat.toDigits 16 c.toNat ++ "\x7d"

/-- A character as it is shown between single quotes. -/
def shownChar (c : Char) : Text :=
  if c = '\x00' then "\\0" else
  if c = '\t' then "\\t" else
  if c = '\r' then "\\r" else
  if c = '\n' then "\\n" else
  if c = '\x27' then "\\'" else
  if c = '\\' then "\\\\" else
  if Unicode.isPrintable c && !Unicode.isExtending c then [c] else codePointEscape c

/-- A character between single quotes. -/
def quotedChar (c : Char) : Text := '\x27' :: shownChar c ++ ['\x27']

/-- A character as it is shown in a listing. -/
def escapedChar (c : Char) : Text :=
  if c = '\n' then "\\n" else
  if c = '\r' then "\\r" else
  if c = '\t' then "\\t" else
  if c = '"' then "\\\"" else
  if c = '\\' then "\\\\" else [c]

/-- A text as it is shown in a listing, character by character. -/
def escaped (t : Text) : Text := t.flatMap escapedChar

/-- Escaping goes character by character, so it respects cutting a text in two. -/
theorem escaped_append (s t : Text) : escaped (s ++ t) = escaped s ++ escaped t :=
  List.flatMap_append

end GlyphTree
