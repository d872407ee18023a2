import GlyphTree.Config
import GlyphTree.Pipeline.Definition
import GlyphTree.Proofs.Json.Records

/-!
# Definitions in JSON

A pipeline written in JSON is read back as it was, and so is a configuration, unless its pool of
glyphs is in reverse, for which it is refused (`definitions_round_trip`).
-/

namespace GlyphTree

open Data

/-! ## Pipelines -/

namespace Promotion

theorem ofData?_toData (p : Promotion) : ofData? p.toData = some p := by
  rw [ofData?, toData, fields?_record]
  · simp [required?]
  · rfl
  · decide

theorem plain_toData (p : Promotion) : p.toData.Plain := by
  simp [toData, plain_record_iff]

theorem depth_toData (p : Promotion) : p.toData.depth = 1 := rfl

theorem nullable?_toData (o : Option Promotion) :
    nullable? ofData? (.ofOption toData o) = some o :=
  nullable?_ofOption fun p _ => ⟨(fun h => by cases h), p.ofData?_toData⟩

end Promotion

namespace Pass

theorem optionalField_ofOption (o : Option Text) :
    optionalField (some (.ofOption .ofText o)) = some o :=
  nullable?_ofOption fun _ _ => ⟨(fun h => by cases h), rfl⟩

/-- The fields of a pass are read back as the pass. -/
theorem ofFields?_fields (p : Pass) : ofFields? p.op (.record p.fields) = some p := by
  cases p with
  | define label pattern =>
    calc ofFields? _ (.record (define label pattern).fields)
        = (optionalField (some (.ofOption .ofText pattern))).bind fun pattern =>
            some (define label pattern) := rfl
      _ = some (define label pattern) := by rw [optionalField_ofOption]; rfl
  | hideAll name pattern label target => rfl
  | hideNested name pattern label target content newName =>
    calc ofFields? _ (.record (hideNested name pattern label target content newName).fields)
        = (nullable? Promotion.ofData? (.ofOption Promotion.toData content)).bind fun content =>
            (optionalField (some (.ofOption .ofText newName))).bind fun newName =>
              some (hideNested name pattern label target content newName) := rfl
      _ = some (hideNested name pattern label target content newName) := by
          rw [Promotion.nullable?_toData, optionalField_ofOption]; rfl
  | hideGroup name label group target source =>
    calc ofFields? _ (.record (hideGroup name label group target source).fields)
        = (word? (.ofNat group.toNat)).bind fun group =>
            some (hideGroup name label group target source) := rfl
      _ = some (hideGroup name label group target source) := by rw [word?_ofNat]; rfl
  | hideRest name label target => rfl
  | ignore name => rfl
  | unignore => rfl
  | rename name target source => rfl
  | replaceAll old new target => rfl

theorem plain_fields (p : Pass) : (record p.fields).Plain := by
  cases p <;> simp [fields, plain_record_iff, plain_ofOption_iff, Promotion.plain_toData]

/-- A pass is read back from its record. -/
theorem ofData?_toData (p : Pass) : ofData? p.toData = some p := by
  have hop : ofData? p.toData = ofSound? (.ofText p.op) (.record p.fields) := by
    cases p <;> rfl
  rw [hop, ofSound?, if_pos p.plain_fields.sound]
  exact p.ofFields?_fields

theorem plain_toData (p : Pass) : p.toData.Plain := by
  have := p.plain_fields
  rw [plain_record_iff] at this
  simpa [toData, plain_record_iff] using this

theorem depth_toData (p : Pass) : p.toData.depth ≤ 2 := by
  rw [toData, depth_record_le]
  cases p <;> simp [fields, depth_ofOption_le, Promotion.depth_toData]

end Pass

namespace Pipeline

theorem ofData?_toData (p : Pipeline) : ofData? p.toData = some p :=
  mapM_write fun pass _ => pass.ofData?_toData

theorem plain_toData (p : Pipeline) : p.toData.Plain := by
  simp [toData, Plain, plainItems_iff, Pass.plain_toData]

theorem depth_toData (p : Pipeline) : p.toData.depth ≤ 3 := by
  simp [toData, depth_seq_le, Pass.depth_toData]

end Pipeline

/-! ## Configurations -/

theorem GlyphPool.ofData?_toData (p : GlyphPool) : ofData? p.toData = some p := by
  rw [ofData?, toData, fields?_record]
  · simp [required?]
  · rfl
  · decide

theorem Config.ofData?_toData (c : Config) : ofData? c.toData = some c := by
  rw [ofData?, toData, fields?_record]
  · simp [default?, GlyphPool.ofData?_toData]
  · rfl
  · decide

theorem Config.plain_toData (c : Config) : c.toData.Plain := by
  simp [toData, GlyphPool.toData, plain_record_iff]

/-- Every pipeline is read back from its JSON, and every configuration whose pool is not in reverse
from its own; one whose pool is in reverse is refused. -/
theorem definitions_round_trip (p : Pipeline) (c : Config) :
    Pipeline.ofJson? p.toJson = some p ∧
      Config.ofJson c.toJson =
        if c.glyphPool.last < c.glyphPool.first then
          .error (.reversedPool c.glyphPool.first c.glyphPool.last)
        else .ok c := by
  constructor
  · have hdepth : p.toData.depth ≤ Pipeline.maxDepth := Nat.le_trans p.depth_toData (by decide)
    rw [Pipeline.ofJson?, Pipeline.toJson, Json.read?_compact p.plain_toData]
    simp only [if_pos hdepth, p.ofData?_toData]
  · rw [Config.ofJson, Config.toJson, Json.read?_compact c.plain_toData, Option.bind_some,
      c.ofData?_toData]

end GlyphTree
