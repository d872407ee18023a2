import GlyphTree.Unicode.Binary

/-!
# Classes of single characters

The classes that patterns, quoted text and group names speak of, as tests of one character. On
ASCII they are plain comparisons. Patterns follow one edition of the character tables; quoted text
and group names follow the next one, which only adds characters.
-/

namespace GlyphTree.Unicode

/-! ## Characters added by the later edition -/

/-- Added characters with a visible form. -/
def addedPrintable : CharSet := .ofTable [
  "88F C5C CDC 1ACF-1ADD 1AE0-1AEB 20C1 2B96 A7CE-A7CF A7D2 A7D4 A7F1 FBC3-FBD2 FD90-FD91",
  "FDC8-FDCE 10940-10959 10EC5-10EC7 10ED0-10ED8 10EFA-10EFB 11B60-11B67 11DB0-11DDB 11DE0-11DE9",
  "16EA0-16EB8 16EBB-16ED3 16FF2-16FF6 187F8-187FF 18D09-18D1E 18D80-18DF2 1CCFA-1CCFC",
  "1CEBA-1CED0 1CEE0-1CEF0 1E6C0-1E6DE 1E6E0-1E6F5 1E6FE-1E6FF 1F6D8 1F777-1F77A 1F8D0-1F8D8",
  "1FA54-1FA57 1FA8A 1FA8E 1FAC8 1FACD 1FAEA 1FAEF 1FBFA 2B73A-2B73F 2CEA2-2CEAD 323B0-33479"]

/-- Added alphabetic characters. -/
def addedAlphabetic : CharSet := .ofTable [
  "88F C5C CDC A7CE-A7CF A7D2 A7D4 A7F1 10940-10959 10EC5-10EC7 10EFA-10EFB 11B60-11B67",
  "11DB0-11DDB 16EA0-16EB8 16EBB-16ED3 16FF2-16FF6 187F8-187FF 18D09-18D1E 18D80-18DF2",
  "1E6C0-1E6DE 1E6E0-1E6F5 1E6FE-1E6FF 2B73A-2B73F 2CEA2-2CEAD 323B0-33479"]

/-- Added numbers. -/
def addedNumbers : CharSet := .ofTable ["11DE0-11DE9 16FF4-16FF6"]

/-- Added characters that attach to the one before them. -/
def addedExtending : CharSet := .ofTable [
  "1ACF-1ADD 1AE0-1AEB 10EFA-10EFB 11B60 11B62-11B64 11B66 1E6E3 1E6E6 1E6EE-1E6EF 1E6F5"]

/-! ## Sets -/

/-- Word characters: alphabetic ones, marks, decimal digits, connectors and the two joiners. -/
def wordSet : CharSet :=
  .unionAll [alphabetic, categories [.mn, .mc, .me, .nd, .pc], joinControl]

/-- Characters with a visible form, spaces left out. -/
def printableSet : CharSet :=
  ((CharSet.union CategoryGroup.separator.set CategoryGroup.other.set).compl).union addedPrintable

/-- Alphabetic characters of the later edition. -/
def alphabeticSet : CharSet := alphabetic.union addedAlphabetic

/-- Numbers of the later edition. -/
def numberSet : CharSet := CategoryGroup.number.set.union addedNumbers

/-- Characters of the later edition that attach to the one before them. -/
def extendingSet : CharSet := graphemeExtend.union addedExtending

/-! ## Tests -/

/-- ASCII letters, digits and the underscore. -/
def isAsciiWord (c : Char) : Bool :=
  c.isAlpha || c.isDigit || c = '_'

/-- Blank ASCII characters: space, tab, line feed, vertical tab, form feed, carriage return. -/
def isAsciiSpace (c : Char) : Bool :=
  c = ' ' || (9 ≤ c.toNat && c.toNat ≤ 13)

/-- White space: the blank ASCII characters, the next-line control and the separators. -/
def isWhiteSpace (c : Char) : Bool :=
  if c.toNat < 0x80 then isAsciiSpace c else whiteSpace.contains c

/-- Word characters of any script. -/
def isWord (c : Char) : Bool :=
  if c.toNat < 0x80 then isAsciiWord c else wordSet.contains c

/-- Letters, letter numbers, and the marks and symbols that count as letters. -/
def isAlphabetic (c : Char) : Bool :=
  if c.toNat < 0x80 then c.isAlpha else alphabeticSet.contains c

/-- Alphabetic characters and numbers of any kind. -/
def isAlphanumeric (c : Char) : Bool :=
  if c.toNat < 0x80 then c.isAlphanum else alphabeticSet.contains c || numberSet.contains c

/-- Characters that are drawn attached to the one before them. -/
def isExtending (c : Char) : Bool :=
  if c.toNat < 0x80 then false else extendingSet.contains c

/-- Characters with a visible form, and the space. -/
def isPrintable (c : Char) : Bool :=
  if c.toNat < 0x80 then 0x20 ≤ c.toNat && c.toNat < 0x7F else printableSet.contains c

end GlyphTree.Unicode
