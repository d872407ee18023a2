import GlyphTree.Data.JsonPrinter
import GlyphTree.Data.JsonReader
import GlyphTree.Data.Yaml.Value
import GlyphTree.Pipeline.Pass

/-!
# Written pipelines

Pipelines are written in JSON or in YAML, and printed in JSON.
-/

namespace GlyphTree.Pipeline

/-- How deep the JSON of a pipeline may be nested to be read. -/
def maxDepth : Nat := 127

/-- A pipeline in JSON. -/
def toJson (p : Pipeline) : Text := Json.compact (toData p)

/-- The pipeline written in JSON. -/
def ofJson? (t : Text) : Option Pipeline :=
  match Json.read? t with
  | some d => if d.depth ≤ maxDepth then ofData? d else none
  | none => none

/-- The pipeline written in YAML. -/
def ofYaml? (t : Text) : Option Pipeline := (Yaml.read? t).bind ofData?

end GlyphTree.Pipeline
