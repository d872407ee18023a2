import GlyphTree.Data.Yaml.Token

/-!
# Nodes of YAML

The nodes that tokens make up. A text holds one document with one node, or none. Whatever is left
out where a node is expected is an empty plain scalar. Anchors get numbers, and an alias gives the
number that its name stands for where it is written.
-/

namespace GlyphTree.Yaml

/-- A tag in full. -/
abbrev Tag := Text

/-- A node of a document, with the number of its anchor and its tag if it has them. -/
inductive Node where
  | alias (anchor : Nat)
  | scalar (anchor : Option Nat) (tag : Option Tag) (plain : Bool) (text : Text)
  | seq (anchor : Option Nat) (tag : Option Tag) (items : List Node)
  | map (anchor : Option Nat) (tag : Option Tag) (entries : List (Node × Node))
deriving Inhabited

namespace Node

/-- The node that stands for what is left out. -/
def empty : Node := scalar none none true []

end Node

/-- The tokens that are left, and the numbers of the anchors so far by name, the latest first. -/
structure Reading where
  tokens : List Token
  anchors : List (Text × Nat)

namespace Reading

/-- With other tokens left. -/
def at_ (r : Reading) (tokens : List Token) : Reading := { r with tokens }

/-- The number for an anchor, which is the number of different names before it, and what is known
behind it. A name that comes again stands for the new number. -/
def bind (r : Reading) : Option Text → Option Nat × Reading
  | none => (none, r)
  | some name =>
    let number := r.anchors.length
    (some number, { r with anchors := (name, number) :: r.anchors.filter fun a => a.1 != name })

/-- The anchor and the tag at the front, each at most once, in either order. -/
def properties (ts : List Token) : Option Text × Option WrittenTag × List Token :=
  match ts with
  | .anchor a :: .tag t :: ts | .tag t :: .anchor a :: ts => (some a, some t, ts)
  | .anchor a :: ts => (some a, none, ts)
  | .tag t :: ts => (none, some t, ts)
  | ts => (none, none, ts)

end Reading

/-- What the handles of tags stand for. -/
abbrev Handles := List (Text × Text)

/-- The handles that need no directive. -/
def standardHandles : Handles := [(['!'], ['!']), (['!', '!'], "tag:yaml.org,2002:")]

/-- A tag in full; nothing if its handle is unknown. -/
def WrittenTag.full? (handles : Handles) (t : WrittenTag) : Option Tag :=
  if t.handle.isEmpty then some t.suffix else (handles.lookup t.handle).map (· ++ t.suffix)

/-! ## Nodes -/

mutual

/-- The node at the front of the tokens. `block` allows block collections, `indentless` a block
sequence in the column of the map around it. -/
def readNode (handles : Handles) : Nat → Bool → Bool → Reading → Option (Node × Reading)
  | 0, _, _, _ => none
  | fuel + 1, block, indentless, r =>
    match r.tokens with
    | .alias name :: ts => (r.anchors.lookup name).map fun number => (.alias number, r.at_ ts)
    | ts =>
      let (name, written, ts) := Reading.properties ts
      match (match written with
        | some w => (w.full? handles).map some
        | none => some none) with
      | none => none
      | some tag =>
        let (anchor, r) := (r.at_ ts).bind name
        match ts with
        | .scalar plain t :: ts =>
          some (.scalar anchor (if tag = some ['!'] then none else tag) plain t, r.at_ ts)
        | .flowSeqStart :: ts =>
          (readFlowItems handles fuel true (r.at_ ts)).map fun (ns, r) => (.seq anchor tag ns, r)
        | .flowMapStart :: ts =>
          (readFlowEntries handles fuel true (r.at_ ts)).map fun (es, r) => (.map anchor tag es, r)
        | ts =>
          let otherwise := if anchor.isSome || tag.isSome then
              some (Node.scalar anchor tag true [], r)
            else none
          match ts with
          | .item :: _ =>
            if indentless then
              (readIndentless handles fuel r).map fun (ns, r) => (.seq anchor tag ns, r)
            else otherwise
          | .blockSeqStart :: ts =>
            if block then
              (readItems handles fuel (r.at_ ts)).map fun (ns, r) => (.seq anchor tag ns, r)
            else otherwise
          | .blockMapStart :: ts =>
            if block then
              (readEntries handles fuel (r.at_ ts)).map fun (es, r) => (.map anchor tag es, r)
            else otherwise
          | _ => otherwise

/-- The items of a block sequence up to its end. -/
def readItems (handles : Handles) : Nat → Reading → Option (List Node × Reading)
  | 0, _ => none
  | fuel + 1, r =>
    match r.tokens with
    | .blockEnd :: ts => some ([], r.at_ ts)
    | .item :: ts =>
      let item := match ts with
        | .item :: _ | .blockEnd :: _ => some (Node.empty, r.at_ ts)
        | ts => readNode handles fuel true false (r.at_ ts)
      match item with
      | none => none
      | some (n, r) => (readItems handles fuel r).map fun (ns, r) => (n :: ns, r)
    | _ => none

/-- The items of a block sequence in the column of the map around it. -/
def readIndentless (handles : Handles) : Nat → Reading → Option (List Node × Reading)
  | 0, _ => none
  | fuel + 1, r =>
    match r.tokens with
    | .item :: ts =>
      let item := match ts with
        | .item :: _ | .key :: _ | .value :: _ | .blockEnd :: _ => some (Node.empty, r.at_ ts)
        | ts => readNode handles fuel true false (r.at_ ts)
      match item with
      | none => none
      | some (n, r) => (readIndentless handles fuel r).map fun (ns, r) => (n :: ns, r)
    | _ => some ([], r)

/-- The entries of a block map up to its end. -/
def readEntries (handles : Handles) : Nat → Reading → Option (List (Node × Node) × Reading)
  | 0, _ => none
  | fuel + 1, r =>
    match r.tokens with
    | .blockEnd :: ts => some ([], r.at_ ts)
    | .key :: ts =>
      let part := fun (r : Reading) => match r.tokens with
        | .key :: _ | .value :: _ | .blockEnd :: _ => some (Node.empty, r)
        | _ => readNode handles fuel true true r
      match part (r.at_ ts) with
      | none => none
      | some (k, r) =>
        let value := match r.tokens with
          | .value :: ts => part (r.at_ ts)
          | _ => some (Node.empty, r)
        match value with
        | none => none
        | some (v, r) => (readEntries handles fuel r).map fun (es, r) => ((k, v) :: es, r)
    | _ => none

/-- The items of a flow sequence up to its end, `first` at its start. A key among them makes a map
of one entry. -/
def readFlowItems (handles : Handles) :
    Nat → Bool → Reading → Option (List Node × Reading)
  | 0, _, _ => none
  | fuel + 1, first, r =>
    let start := match r.tokens with
      | .flowSeqEnd :: _ => some r.tokens
      | .comma :: ts => if first then some r.tokens else some ts
      | ts => if first then some ts else none
    match start with
    | none => none
    | some (.flowSeqEnd :: ts) => some ([], r.at_ ts)
    | some (.key :: ts) =>
      match readPair handles fuel (r.at_ ts) with
      | none => none
      | some (e, r) =>
        (readFlowItems handles fuel false r).map fun (ns, r) => (.map none none [e] :: ns, r)
    | some ts =>
      match readNode handles fuel false false (r.at_ ts) with
      | none => none
      | some (n, r) => (readFlowItems handles fuel false r).map fun (ns, r) => (n :: ns, r)

/-- A key and a value in a flow sequence, behind the sign of the key. A key that is left out takes
the token in its place with it. -/
def readPair (handles : Handles) : Nat → Reading → Option ((Node × Node) × Reading)
  | 0, _ => none
  | fuel + 1, r =>
    let key := match r.tokens with
      | .value :: ts | .comma :: ts | .flowSeqEnd :: ts => some (Node.empty, r.at_ ts)
      | _ => readNode handles fuel false false r
    match key with
    | none => none
    | some (k, r) =>
      let value := match r.tokens with
        | .value :: .comma :: ts => some (Node.empty, r.at_ (.comma :: ts))
        | .value :: .flowSeqEnd :: ts => some (Node.empty, r.at_ (.flowSeqEnd :: ts))
        | .value :: ts => readNode handles fuel false false (r.at_ ts)
        | _ => some (Node.empty, r)
      value.map fun (v, r) => ((k, v), r)

/-- The entries of a flow map up to its end, `first` at its start. A node without a colon is a key
without a value. -/
def readFlowEntries (handles : Handles) :
    Nat → Bool → Reading → Option (List (Node × Node) × Reading)
  | 0, _, _ => none
  | fuel + 1, first, r =>
    let start := match r.tokens with
      | .flowMapEnd :: _ => some r.tokens
      | .comma :: ts => if first then some r.tokens else some ts
      | ts => if first then some ts else none
    let part := fun (r : Reading) => match r.tokens with
      | .value :: _ | .comma :: _ | .flowMapEnd :: _ => some (Node.empty, r)
      | _ => readNode handles fuel false false r
    match start with
    | none => none
    | some (.flowMapEnd :: ts) => some ([], r.at_ ts)
    | some (.key :: ts) =>
      match part (r.at_ ts) with
      | none => none
      | some (k, r) =>
        let value := match r.tokens with
          | .value :: .value :: _ => readNode handles fuel false false (r.at_ (r.tokens.drop 1))
          | .value :: ts => part (r.at_ ts)
          | _ => some (Node.empty, r)
        match value with
        | none => none
        | some (v, r) =>
          (readFlowEntries handles fuel false r).map fun (es, r) => ((k, v) :: es, r)
    | some ts =>
      match readNode handles fuel false false (r.at_ ts) with
      | none => none
      | some (k, r) =>
        (readFlowEntries handles fuel false r).map fun (es, r) => ((k, .empty) :: es, r)

end

/-! ## Documents -/

/-- What the directives at the front say of handles, and the tokens behind them. Neither the version
nor a handle may be said twice, and the version must be 1.1 or 1.2. -/
def readDirectives (versionSeen : Bool) (handles : Handles) :
    List Token → Option (Handles × List Token)
  | .directive (.version major minor) :: ts =>
    if versionSeen || major != 1 || (minor != 1 && minor != 2) then none
    else readDirectives true handles ts
  | .directive (.tag handle expansion) :: ts =>
    if (handles.lookup handle).isSome then none
    else readDirectives versionSeen ((handle, expansion) :: handles) ts
  | ts => some (handles, ts)

/-- The node of the document that tokens make up; an empty text has none. There must be no second
document. -/
def document? (tokens : List Token) : Option (Option Node) := do
  let (handles, ts) ← readDirectives false [] tokens
  let handles := handles ++ standardHandles
  let fuel := 4 * tokens.length + 4
  let (node, ts) ← match ts with
    | .documentStart :: ts =>
      match ts with
      | [] | .directive _ :: _ | .documentStart :: _ | .documentEnd :: _ =>
        some (some Node.empty, ts)
      | ts => (readNode handles fuel true false ⟨ts, []⟩).map fun (n, r) => (some n, r.tokens)
    | ts =>
      if tokens.head?.any fun t => t matches .directive _ then none
      else if ts.isEmpty then some (none, [])
      else (readNode handles fuel true false ⟨ts, []⟩).map fun (n, r) => (some n, r.tokens)
  if ts.all fun t => t matches .documentEnd then some node else none

end GlyphTree.Yaml
