import GlyphTree.Unicode.Binary
import GlyphTree.Unicode.Script

/-!
# Break properties

The roles that characters play where a text is broken into user-perceived characters, words and
sentences.
-/

namespace GlyphTree.Unicode

/-- The marks that follow the letter they belong to in place of lying over it, of some scripts
where they do not attach. -/
def detachedMarks : CharSet := .ofTable [
  "102B-102C 1038 1062-1064 1067-106D 1083 1087-108C 108F 109A-109C 1A61 1A63-1A64 AA7B AA7D",
  "11720-11721"]

/-- The signs that attach to the letter after them. -/
def prependedSigns : CharSet :=
  prependedConcatenationMark.union
    (.ofTable ["D4E 111C2-111C3 113D1 1193F 11941 11A3A 11A84-11A89 11D46 11F02"])

/-- The characters that attach to the one before them. -/
def attachedExtend : CharSet := graphemeExtend.union emojiModifier

/-- Invisible controls of the text. -/
def textControls : CharSet :=
  ((categories [.zl, .zp, .cc, .cf]).union
    ((categories [.cn]).inter defaultIgnorableCodePoint)).diff
    (.union (.ofTable ["A D 200C 200D E0020-E007F"]) prependedConcatenationMark)

/-- The syllables without a final consonant. -/
def openSyllables : CharSet := .ofCodes ((List.range 399).map fun i => 0xAC00 + 28 * i)

/-- The roles in user-perceived characters, by their names between blanks. -/
def graphemeBreaks : List (String × CharSet) := [
  ("control cn", textControls),
  ("cr", .ofTable ["D"]),
  ("extend ex", attachedExtend),
  ("l", .ofTable ["1100-115F A960-A97C"]),
  ("lf", .ofTable ["A"]),
  ("lv", openSyllables),
  ("lvt", (CharSet.ofTable ["AC00-D7A3"]).diff openSyllables),
  ("prepend pp", prependedSigns),
  ("regionalindicator ri", regionalIndicator),
  ("spacingmark sm",
    ((categories [.mc]).union (.ofTable ["E33 EB3"])).diff (attachedExtend.union detachedMarks)),
  ("t", .ofTable ["11A8-11FF D7CB-D7FB"]),
  ("v", .ofTable ["1160-11A7 D7B0-D7C6 16D63 16D67-16D6A"]),
  ("zwj", .ofTable ["200D"])]

/-- The characters that words carry along: marks of every kind. -/
def wordExtend : CharSet := .unionAll [graphemeExtend, categories [.mc], emojiModifier]

/-- The invisible controls that words carry along. -/
def wordFormat : CharSet :=
  (categories [.cf]).diff (.ofTable [
    "600-605 6DD 70F 890-891 8E2 200B-200D 110BD 110CD E0020-E007F"])

/-- Digits of words. -/
def wordNumeric : CharSet :=
  (categories [.nd]).union (.ofTable ["600-605 66B 6DD 890-891 8E2 19DA 110BD 110CD"])

/-- The letters that are written without blanks between words. -/
def unspacedLetters : CharSet := .ofTable [
  "E01-E30 E32-E33 E40-E46 E81-E82 E84 E86-E8A E8C-EA3 EA5 EA7-EB0 EB2-EB3 EBD EC0-EC4 EC6",
  "EDC-EDF 1000-102A 103F 1050-1055 105A-105D 1061 1065-1066 106E-1070 1075-1081 108E 1780-17B3",
  "17D7 17DC 1950-196D 1970-1974 1980-19AB 19B0-19C9 1A20-1A54 1AA7 A9E0-A9E4 A9E6-A9EF",
  "A9FA-A9FE AA60-AA76 AA7A AA7E-AAAF AAB1 AAB5-AAB6 AAB9-AABD AAC0 AAC2 AADB-AADD 11700-1171A",
  "11740-11746"]

/-- The code points of a script named here, as a part of a word. -/
def scriptLetters (name : String) : CharSet := (script? name).getD .none

/-- The letters of the Katakana script and the marks used with them. -/
def katakana : CharSet :=
  (scriptLetters "katakana").union (.ofTable ["3031-3035 309B-309C 30A0 30FC FF70"])

/-- The letters of the Hebrew script. -/
def hebrewLetters : CharSet := (scriptLetters "hebrew").inter (categories [.lo])

/-- The letters of scripts that put blanks between words. -/
def spacedLetters : CharSet :=
  (alphabetic.union (.ofTable [
    "2C2-2C5 2D2-2D7 2DE-2DF 2E5-2EB 2ED 2EF-2FF 55A-55C 55E 58A 5F3 70F A708-A716 A720-A721",
    "A789-A78A AB5B"])).diff
    (.unionAll [ideographic, scriptLetters "hiragana", katakana, hebrewLetters, wordExtend,
      unspacedLetters])

/-- The roles in words, by their names between blanks. -/
def wordBreaks : List (String × CharSet) := [
  ("aletter le", spacedLetters),
  ("cr", .ofTable ["D"]),
  ("doublequote dq", .ofTable ["22"]),
  ("extend", wordExtend),
  ("extendnumlet ex", .ofTable ["5F 202F 203F-2040 2054 FE33-FE34 FE4D-FE4F FF3F"]),
  ("format fo", wordFormat),
  ("hebrewletter hl", hebrewLetters),
  ("katakana ka", katakana),
  ("lf", .ofTable ["A"]),
  ("midletter ml", .ofTable ["3A B7 387 55F 5F4 2027 FE13 FE55 FF1A"]),
  ("midnum mn", .ofTable ["2C 3B 37E 589 60C-60D 66C 7F8 2044 FE50 FE54 FF0C FF1B"]),
  ("midnumlet mb", .ofTable ["2E 2018-2019 2024 FE52 FF07 FF0E"]),
  ("newline nl", .ofTable ["B-C 85 2028-2029"]),
  ("numeric nu", wordNumeric),
  ("regionalindicator ri", regionalIndicator),
  ("singlequote sq", .ofTable ["27"]),
  ("wsegspace", .ofTable ["20 1680 2000-2006 2008-200A 205F 3000"]),
  ("zwj", .ofTable ["200D"])]

/-- The marks that end a sentence, unless the text goes on in small letters. -/
def doubtfulTerminals : CharSet := .ofTable ["2E 2024 FE52 FF0E"]

/-- The characters that sentences carry along. -/
def sentenceExtend : CharSet :=
  .unionAll [graphemeExtend, categories [.mc], joinControl]

/-- Small letters of sentences; a script without capitals for names has none. -/
def sentenceLower : CharSet :=
  lowercase.diff (sentenceExtend.union (.ofTable ["10D0-10FA 10FD-10FF"]))

/-- Capitals of sentences. -/
def sentenceUpper : CharSet :=
  (uppercase.union (categories [.lt])).diff (.ofTable ["1C90-1CBA 1CBD-1CBF"])

/-- The roles in sentences, by their names between blanks. -/
def sentenceBreaks : List (String × CharSet) := [
  ("aterm at", doubtfulTerminals),
  ("close cl",
    (CharSet.union (.union (categories [.ps, .pe, .pi, .pf]) quotationMark)
      (.ofTable ["275B-2760 2E00-2E01 2E06-2E08 2E0B 1F676-1F678"])).diff (.ofTable ["FF02 FF07"])),
  ("cr", .ofTable ["D"]),
  ("extend ex", sentenceExtend),
  ("format fo", wordFormat.union (.ofTable ["70F 200B"])),
  ("lf", .ofTable ["A"]),
  ("lower lo", sentenceLower),
  ("numeric nu", wordNumeric.union (.ofTable ["66C"])),
  ("oletter le",
    (alphabetic.union (.ofTable ["5F3"])).diff
      (.unionAll [sentenceLower, sentenceUpper, sentenceExtend])),
  ("scontinue sc", .ofTable [
    "2C-2D 3A-3B 37E 55D 60C-60D 7F8 1802 1808 2013-2014 3001 FE10-FE11 FE13-FE14 FE31-FE32",
    "FE50-FE51 FE54-FE55 FE58 FE63 FF0C-FF0D FF1A-FF1B FF64"]),
  ("sep se", .ofTable ["85 2028-2029"]),
  ("sp", whiteSpace.diff (.ofTable ["A D 85 2028-2029"])),
  ("sterm st", sentenceTerminal.diff doubtfulTerminals),
  ("upper up", sentenceUpper)]

end GlyphTree.Unicode
