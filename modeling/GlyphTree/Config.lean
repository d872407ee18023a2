import GlyphTree.Data.JsonPrinter
import GlyphTree.Data.JsonReader
import GlyphTree.Label.Pool
import GlyphTree.Text.Quote

/-!
# Configuration

What a document fixes at its start: the characters reserved as glyphs, the filter that means every
node, and how many rounds a nested hide may run. A configuration is written in JSON; fields left
out take their defaults.
-/

namespace GlyphTree

/-- The settings of one document. -/
structure Config where
  glyphPool : GlyphPool := default
  wildcard : Text := "*"
  maxRounds : UInt64 := 10000
deriving DecidableEq

instance : Inhabited Config := ⟨{}⟩

/-- Why a text is no configuration. -/
inductive ConfigError where
  | unreadable
  | reversedPool (first last : Char)
deriving DecidableEq, Repr, Inhabited

/-- The wording of a configuration error that has one. -/
def ConfigError.message? : ConfigError → Option Text
  | unreadable => none
  | reversedPool first last =>
    some ("Invalid configuration: glyph pool starts after it ends (" ++ quotedChar first ++ " > " ++
      quotedChar last ++ ")")

namespace GlyphPool

/-- A pool as a record. -/
def toData (p : GlyphPool) : Data :=
  .record [("first", .ofText [p.first]), ("last", .ofText [p.last])]

/-- The pool that a record describes. -/
def ofData? (d : Data) : Option GlyphPool := do
  match ← d.fields? ["first", "last"] with
  | [first, last] =>
    return ⟨← Data.required? Data.char? first, ← Data.required? Data.char? last⟩
  | _ => none

end GlyphPool

namespace Config

/-- Whether a filter is the wildcard. -/
def isWildcard (c : Config) (filter : Text) : Bool := filter = c.wildcard

/-- A configuration as a record. -/
def toData (c : Config) : Data :=
  .record [("glyph_pool", c.glyphPool.toData), ("wildcard", .ofText c.wildcard),
    ("max_rounds", .ofNat c.maxRounds.toNat)]

/-- The configuration that a record describes. -/
def ofData? (d : Data) : Option Config := do
  match ← d.fields? ["glyph_pool", "wildcard", "max_rounds"] with
  | [pool, wildcard, rounds] =>
    let base : Config := {}
    return {
      glyphPool := ← Data.default? GlyphPool.ofData? base.glyphPool pool
      wildcard := ← Data.default? Data.text? base.wildcard wildcard
      maxRounds := ← Data.default? Data.word? base.maxRounds rounds }
  | _ => none

/-- A configuration in JSON. -/
def toJson (c : Config) : Text := Json.compact c.toData

/-- The configuration written in JSON; its pool must not be in reverse. -/
def ofJson (t : Text) : Except ConfigError Config :=
  match (Json.read? t).bind ofData? with
  | none => .error .unreadable
  | some c =>
    if c.glyphPool.last < c.glyphPool.first then
      .error (.reversedPool c.glyphPool.first c.glyphPool.last)
    else .ok c

end Config

end GlyphTree
