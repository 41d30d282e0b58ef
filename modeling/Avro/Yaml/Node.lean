import Avro.Yaml.Fetch

/-!
# Trees of settings

The tree of a document is read off its tokens. A node that others refer to has a place, which it
gets before its content is read, so that it may refer to itself. Every reader takes a bound on the
depth of the calls, and the length of the file bounds it.
-/

set_option autoImplicit false

namespace Avro

/-- A node. A scalar keeps its text as it was written, without quotes; only a plain one, or one with
a tag, may stand for something else than its text. -/
inductive Yaml where
  | scalar (tag : Option Text) (plain : Bool) (text : Text)
  | sequence (items : List Yaml)
  | mapping (entries : List (Yaml × Yaml))
  | reference (name : Text) (place : Nat)
deriving Repr, Inhabited

namespace Yaml

def absent : Yaml := .scalar none true []

/-- What is known besides the tokens: the handles of tags with what they stand for, the places of
names, newest first, and the nodes at places. -/
structure Names where
  handles : List (Text × Text)
  places : List (Text × Nat)
  nodes : List (Nat × Yaml)
deriving Repr, Inhabited

abbrev Reader := StateT Names Scan

def peek : Reader Token := StateT.lift peekToken

def take : Reader Unit := StateT.lift takeToken

def takeAndPeek : Reader Token := do
  take
  peek

def refuse {α : Type} : Reader α := throw .unexpectedToken

def standardStem : Text := "tag:yaml.org,2002:"

def standardHandles : List (Text × Text) := [("!", "!"), ("!!", standardStem)]

def shortTag (tag : Text) : Text :=
  if Text.startsWith tag standardStem then "!!" ++ tag.drop standardStem.length else tag

def tagOf (handle rest : Text) : Reader (Option Text) := do
  let tag : Text ←
    if handle.isEmpty then pure rest
    else
      match (← get).handles.lookup handle with
      | some stem => pure (stem ++ rest)
      | none => throw .badTag
  return if tag = "!" then none else some (shortTag tag)

structure Properties where
  anchor : Option Text
  isTagged : Bool
  tag : Option Text
deriving Repr, Inhabited

def readTagHere (properties : Properties) : Reader Properties := do
  match ← peek with
  | .tag handle rest =>
    take
    let tag ← tagOf handle rest
    return { properties with isTagged := true, tag := tag }
  | _ => return properties

def readAnchorHere (properties : Properties) : Reader Properties := do
  match ← peek with
  | .anchor name =>
    take
    return { properties with anchor := some name }
  | _ => return properties

def readProperties : Reader Properties := do
  let properties ← readAnchorHere ⟨none, false, none⟩
  let properties ← readTagHere properties
  if properties.anchor.isNone && properties.isTagged then readAnchorHere properties
  else return properties

def settle (anchor : Option Text) : Reader (Option Nat) := do
  match anchor with
  | none => return none
  | some name =>
    let names ← get
    let place := names.places.length
    set { names with places := (name, place) :: names.places }
    return some place

def install (place : Option Nat) (node : Yaml) : Reader Yaml := do
  if let some place := place then
    modify fun names => { names with nodes := (place, node) :: names.nodes }
  return node

def refer (name : Text) : Reader Yaml := do
  match (← get).places.lookup name with
  | some place => return .reference name place
  | none => throw (.unknownAnchor name)

mutual

def readNode (block indentless : Bool) : Nat → Reader Yaml
  | 0 => throw .tooDeep
  | depth + 1 => do
    match ← peek with
    | .alias name =>
      let node ← refer name
      take
      return node
    | _ =>
      let properties ← readProperties
      let place ← settle properties.anchor
      let node ← readContent block indentless properties depth
      install place node

def readContent (block indentless : Bool) (properties : Properties) : Nat → Reader Yaml
  | 0 => throw .tooDeep
  | depth + 1 => do
    match ← peek with
    | .scalar plain text =>
      take
      return .scalar properties.tag plain text
    | .flowSequenceStart =>
      take
      return .sequence (← readFlowItems true depth)
    | .flowMappingStart =>
      take
      return .mapping (← readFlowEntries true depth)
    | token =>
      if indentless && token = .blockEntry then return .sequence (← readLooseItems depth)
      else if block && token = .blockSequenceStart then
        take
        return .sequence (← readItems depth)
      else if block && token = .blockMappingStart then
        take
        return .mapping (← readEntries depth)
      else if properties.anchor.isSome || properties.isTagged then
        return .scalar properties.tag true []
      else refuse

def readItems : Nat → Reader (List Yaml)
  | 0 => throw .tooDeep
  | depth + 1 => do
    match ← peek with
    | .blockEntry =>
      let token ← takeAndPeek
      let item ←
        if token = .blockEntry || token = .blockEnd then pure absent
        else readNode true false depth
      return item :: (← readItems depth)
    | .blockEnd =>
      take
      return []
    | _ => refuse

def readLooseItems : Nat → Reader (List Yaml)
  | 0 => throw .tooDeep
  | depth + 1 => do
    match ← peek with
    | .blockEntry =>
      let token ← takeAndPeek
      let item ←
        if token ∈ [.blockEntry, .key, .value, .blockEnd] then pure absent
        else readNode true false depth
      return item :: (← readLooseItems depth)
    | _ => return []

def readEntries : Nat → Reader (List (Yaml × Yaml))
  | 0 => throw .tooDeep
  | depth + 1 => do
    match ← peek with
    | .key =>
      let token ← takeAndPeek
      let key ←
        if token ∈ [.key, .value, .blockEnd] then pure absent else readNode true true depth
      let value ← readValue depth
      return (key, value) :: (← readEntries depth)
    | .blockEnd =>
      take
      return []
    | _ => refuse

def readValue : Nat → Reader Yaml
  | 0 => throw .tooDeep
  | depth + 1 => do
    match ← peek with
    | .value =>
      let token ← takeAndPeek
      if token ∈ [.key, .value, .blockEnd] then return absent else readNode true true depth
    | _ => return absent

/-- Reads the items of a flow sequence; between items stands a comma. An item may be a single entry
of a mapping. -/
def readFlowItems (first : Bool) : Nat → Reader (List Yaml)
  | 0 => throw .tooDeep
  | depth + 1 => do
    let token ← peek
    if token = .flowSequenceEnd then
      take
      return []
    else
      let token ← afterComma first token
      if token = .flowSequenceEnd then
        take
        return []
      else if token = .key then
        take
        let entry ← readFlowPair depth
        return .mapping [entry] :: (← readFlowItems false depth)
      else
        let item ← readNode false false depth
        return item :: (← readFlowItems false depth)

def afterComma (first : Bool) (token : Token) : Reader Token :=
  if first then pure token
  else if token = .flowEntry then takeAndPeek
  else refuse

def readFlowPair : Nat → Reader (Yaml × Yaml)
  | 0 => throw .tooDeep
  | depth + 1 => do
    let token ← peek
    let key ←
      if token ∈ [.value, .flowEntry, .flowSequenceEnd] then do
        take
        pure absent
      else readNode false false depth
    let value ← readFlowValue .flowSequenceEnd depth
    return (key, value)

def readFlowValue (closing : Token) : Nat → Reader Yaml
  | 0 => throw .tooDeep
  | depth + 1 => do
    match ← peek with
    | .value =>
      let token ← takeAndPeek
      if token = .flowEntry || token = closing then return absent
      else readNode false false depth
    | _ => return absent

def readFlowEntries (first : Bool) : Nat → Reader (List (Yaml × Yaml))
  | 0 => throw .tooDeep
  | depth + 1 => do
    let token ← peek
    if token = .flowMappingEnd then
      take
      return []
    else
      let token ← afterComma first token
      if token = .flowMappingEnd then
        take
        return []
      else if token = .key then
        let token ← takeAndPeek
        let key ←
          if token ∈ [.value, .flowEntry, .flowMappingEnd] then pure absent
          else readNode false false depth
        let value ← readFlowValue .flowMappingEnd depth
        return (key, value) :: (← readFlowEntries false depth)
      else
        let key ← readNode false false depth
        return (key, absent) :: (← readFlowEntries false depth)

end

def isBoundary : Token → Bool
  | .version _ _ => true
  | .tagHandle _ _ => true
  | .documentStart => true
  | .documentEnd => true
  | .streamEnd => true
  | _ => false

def readDirectives (hasVersion : Bool) : Nat → Reader Unit
  | 0 => throw .tooDeep
  | depth + 1 => do
    match ← peek with
    | .version major minor =>
      if hasVersion || major ≠ 1 || minor ≠ 1 then throw .badDirective
      take
      readDirectives true depth
    | .tagHandle handle stem =>
      let names ← get
      if (names.handles.lookup handle).isSome then throw .badDirective
      set { names with handles := names.handles ++ [(handle, stem)] }
      take
      readDirectives hasVersion depth
    | _ => return

/-- Reads the first document, up to its end. What comes after it does not matter, as far as it was
not looked at. -/
def readFirst (depth : Nat) : Reader (Option Yaml) := do
  let token ← do
    let _ ← peek
    takeAndPeek
  if token = .streamEnd then return none
  else
    let isExplicit := isBoundary token && token ≠ .documentEnd
    if isExplicit then
      readDirectives false depth
      unless (← peek) = .documentStart do refuse
      take
    modify fun names =>
      { names with handles := names.handles ++ standardHandles.filter fun (handle, _) =>
          (names.handles.lookup handle).isNone }
    let node ←
      if isExplicit && isBoundary (← peek) then pure absent else readNode true false depth
    let _ ← peek
    return some node

structure View where
  node : Yaml
  nodes : List (Nat × Yaml)
  limit : Nat
deriving Repr, Inhabited

def View.target (view : View) : Yaml :=
  match view.node with
  | .reference _ place => (view.nodes.lookup place).getD absent
  | node => node

def View.with (view : View) (node : Yaml) : View := { view with node := node }

def read (text : Text) : Except Fault View :=
  let source := Source.ofText text
  let limit := 16 * source.chars.length + 64
  match ((readFirst limit).run ⟨[], [], []⟩).run (.start source) with
  | .error fault => .error fault
  | .ok ((node, names), _) => .ok ⟨node.getD absent, names.nodes, limit⟩

end Yaml

end Avro
