import GlyphTree.Data.Basic

/-!
# Passes

A pipeline is a list of passes, each a single operation on a tree. A pass is written as a record
with its operation under `op`; the other fields follow, and the default target is every node.
-/

namespace GlyphTree

/-- Which capture group of the fresh nodes a nested hide turns into children, and how. -/
structure Promotion where
  name : Text
  label : Text
  group : UInt64
deriving DecidableEq, Repr, Inhabited

/-- One step of a pipeline. -/
inductive Pass where
  | define (label : Text) (pattern : Option Text)
  | hideAll (name pattern label target : Text)
  | hideNested (name pattern label target : Text) (content : Option Promotion)
      (newName : Option Text)
  | hideGroup (name label : Text) (group : UInt64) (target source : Text)
  | hideRest (name label target : Text)
  | ignore (name : Text)
  | unignore
  | rename (name target source : Text)
  | replaceAll (old new target : Text)
deriving DecidableEq, Repr, Inhabited

/-- An ordered list of passes. -/
abbrev Pipeline := List Pass

namespace Promotion

/-- A promotion as a record. -/
def toData (p : Promotion) : Data :=
  .record [("name", .ofText p.name), ("label", .ofText p.label), ("group", .ofNat p.group.toNat)]

/-- The promotion that a record describes. -/
def ofData? (d : Data) : Option Promotion := do
  match ← d.fields? ["name", "label", "group"] with
  | [name, label, group] =>
    return ⟨← Data.required? Data.text? name, ← Data.required? Data.text? label,
      ← Data.required? Data.word? group⟩
  | _ => none

end Promotion

namespace Pass

/-- The name of the operation. -/
def op : Pass → Text
  | define .. => "define"
  | hideAll .. => "hide_all"
  | hideNested .. => "hide_nested"
  | hideGroup .. => "hide_group"
  | hideRest .. => "hide_rest"
  | ignore .. => "ignore"
  | unignore => "unignore"
  | rename .. => "rename"
  | replaceAll .. => "replace_all"

/-- The fields of a pass after its operation. -/
def fields : Pass → List (Text × Data)
  | define label pattern => [("label", .ofText label), ("pattern", .ofOption .ofText pattern)]
  | hideAll name pattern label target =>
    [("name", .ofText name), ("pattern", .ofText pattern), ("label", .ofText label),
     ("target", .ofText target)]
  | hideNested name pattern label target content newName =>
    [("name", .ofText name), ("pattern", .ofText pattern), ("label", .ofText label),
     ("target", .ofText target), ("content", .ofOption Promotion.toData content),
     ("rename", .ofOption .ofText newName)]
  | hideGroup name label group target source =>
    [("name", .ofText name), ("label", .ofText label), ("group", .ofNat group.toNat),
     ("target", .ofText target), ("source", .ofText source)]
  | hideRest name label target =>
    [("name", .ofText name), ("label", .ofText label), ("target", .ofText target)]
  | ignore name => [("name", .ofText name)]
  | unignore => []
  | rename name target source =>
    [("name", .ofText name), ("target", .ofText target), ("from", .ofText source)]
  | replaceAll old new target =>
    [("from", .ofText old), ("to", .ofText new), ("target", .ofText target)]

/-- A pass as a record. -/
def toData (p : Pass) : Data := .record (("op", .ofText p.op) :: p.fields)

/-! ## Reading -/

/-- A field with a text. -/
def textField : Option Data → Option Text := Data.required? Data.text?

/-- The target of a pass; every node if there is none. -/
def targetField : Option Data → Option Text := Data.default? Data.text? "*"

/-- A field with a text or null, null if there is none. -/
def optionalField : Option Data → Option (Option Text) :=
  Data.default? (Data.nullable? Data.text?) none

/-- The pass with an operation and the record of its other fields. -/
def ofFields? (op : Text) (d : Data) : Option Pass := do
  let fields := fun (names : List Text) => d.fields? names
  if op = "define" then
    match ← fields ["label", "pattern"] with
    | [label, pattern] => return .define (← textField label) (← optionalField pattern)
    | _ => none
  else if op = "hide_all" then
    match ← fields ["name", "pattern", "label", "target"] with
    | [name, pattern, label, target] =>
      return .hideAll (← textField name) (← textField pattern) (← textField label)
        (← targetField target)
    | _ => none
  else if op = "hide_nested" then
    match ← fields ["name", "pattern", "label", "target", "content", "rename"] with
    | [name, pattern, label, target, content, newName] =>
      let content ← Data.default? (Data.nullable? Promotion.ofData?) none content
      return .hideNested (← textField name) (← textField pattern) (← textField label)
        (← targetField target) content (← optionalField newName)
    | _ => none
  else if op = "hide_group" then
    match ← fields ["name", "label", "group", "target", "source"] with
    | [name, label, group, target, source] =>
      let group ← Data.required? Data.word? group
      return .hideGroup (← textField name) (← textField label) group (← targetField target)
        (← textField source)
    | _ => none
  else if op = "hide_rest" then
    match ← fields ["name", "label", "target"] with
    | [name, label, target] =>
      return .hideRest (← textField name) (← textField label) (← targetField target)
    | _ => none
  else if op = "ignore" then
    match ← fields ["name"] with
    | [name] => return .ignore (← textField name)
    | _ => none
  else if op = "unignore" then
    match d with
    | .map _ | .seq [] => return .unignore
    | _ => none
  else if op = "rename" then
    match ← fields ["name", "target", "from"] with
    | [name, target, source] =>
      return .rename (← textField name) (← targetField target) (← textField source)
    | _ => none
  else if op = "replace_all" then
    match ← fields ["from", "to", "target"] with
    | [old, new, target] =>
      return .replaceAll (← textField old) (← textField new) (← targetField target)
    | _ => none
  else none

/-- Whether an entry gives the operation. -/
def isOp (e : Data × Data) : Bool := e.1.text? = some "op".toList

/-- The pass with an operation and the record of its other fields, in which no scalar may be
broken. -/
def ofSound? (op : Data) (rest : Data) : Option Pass :=
  if rest.sound then op.name?.bind (ofFields? · rest) else none

/-- The pass that a record describes: a map with one operation, or a sequence that starts with
it. Only the name of the operation counts, whatever else is said of it. -/
def ofData? : Data → Option Pass
  | .map entries =>
    match entries.filter isOp with
    | [(_, op)] => ofSound? op (.map (entries.filter fun e => !isOp e))
    | _ => none
  | .seq (op :: rest) => ofSound? op (.seq rest)
  | _ => none

end Pass

namespace Pipeline

/-- A pipeline as a sequence of records. -/
def toData (p : Pipeline) : Data := .seq (p.map Pass.toData)

/-- The pipeline that a sequence of records describes. -/
def ofData? (d : Data) : Option Pipeline := d.seq?.bind (·.mapM Pass.ofData?)

end Pipeline

end GlyphTree
