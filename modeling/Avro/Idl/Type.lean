import Avro.Idl.Stream
import Avro.Schema.Read

/-!
# Types and fields

Type expressions, and the fields and parameters declared with them.
-/

set_option autoImplicit false

namespace Avro.Idl

/-!
## Type expressions

`array<T>`, `map<T>`, `union {T, …}`, `decimal(p, s)`, the logical types, the primitive types and
names, each optionally followed by `?`, which makes a union with null. A quoted identifier is always
a name.
-/

structure Site where
  scope : Scope
  protocolSpace : Text
  space : Text

def Site.resolve? (site : Site) (name : Text) : Option Schema :=
  match site.scope.resolve? name site.space with
  | some schema => some schema
  | none =>
    if site.space = site.protocolSpace then none
    else site.scope.resolve? name site.protocolSpace

def logical (base : Primitive) (meaning : Text) : Schema :=
  .primitive base (.one "logicalType" (.str meaning))

def logicalTypes : List (Text × Schema) :=
  [("date", logical .int "date"), ("time_ms", logical .int "time-millis"),
    ("timestamp_ms", logical .long "timestamp-millis"), ("uuid", logical .string "uuid")]

def decimal (precision scale : Nat) : Schema :=
  .primitive .bytes (Members.one "logicalType" (.str "decimal") ++
    Members.one "precision" (.int precision) ++ Members.one "scale" (.int scale))

def wordType (site : Site) (token : Token) : Except Fault Schema :=
  let keyword := if token.quoted then none else logicalTypes.lookup token.text
  match keyword with
  | some schema => .ok schema
  | none =>
    match if token.quoted then none else Primitive.ofName? token.text with
    | some kind => .ok (.plain kind)
    | none =>
      match site.resolve? token.text with
      | some schema => .ok schema
      | none => .error ⟨token.position, .undefinedName token.text⟩

def readDecimal (last : Token) (tokens : List Token) : Except Fault (Consumed tokens Schema) := do
  let opening ← acceptMark '(' last tokens
  let precision ← readInteger last opening.rest
  let first := opening.andThen precision
  if nextIsMark ',' precision.rest then do
    let scale ← readInteger last first.skip.rest
    let closing ← acceptMark ')' last scale.rest
    return ((first.skip.andThen scale).andThen closing).give (decimal precision.value scale.value)
  else do
    let closing ← acceptMark ')' last first.rest
    return (first.andThen closing).give (decimal precision.value 0)

/-- A question mark after a type makes a union of null and that type; null stays null. -/
def passOptional (schema : Schema) (tokens : List Token) : Except Fault (Passed tokens Schema) :=
  match tokens with
  | [] => .ok (.stay schema)
  | token :: _ =>
    if token.isMark '?' then
      if schema.isNull then .ok (.next schema)
      else
        match Schema.makeUnion [.plain .null, schema] with
        | .ok union => .ok (.next union)
        | .error error => .error ⟨token.position, .refused error⟩
    else .ok (.stay schema)

mutual

def readType (site : Site) (last : Token) (tokens : List Token) :
    Except Fault (Consumed tokens Schema) := do
  let base ← readBaseType site last tokens
  let whole ← passOptional base.value base.rest
  return base.andPass whole
termination_by (tokens.length, 1)

def readBaseType (site : Site) (last : Token) (tokens : List Token) :
    Except Fault (Consumed tokens Schema) :=
  match tokens with
  | [] => .error ⟨last.position, .expectedIdentifier last.describe⟩
  | token :: rest =>
    if token.kind ≠ .identifier then
      .error ⟨token.position, .expectedIdentifier token.describe⟩
    else if token.isKeyword "array" || token.isKeyword "map" then do
      let opening ← acceptMark '<' last rest
      let inner ← readType site last opening.rest
      let closing ← acceptMark '>' last inner.rest
      let kind : Container := if token.text = "array" then .array else .map
      return (((opening.andThen inner).andThen closing).give (.container kind inner.value [])).later
    else if token.isKeyword "union" then do
      let opening ← acceptMark '\x7b' last rest
      let branches ← readBranches site last opening.rest
      let closing ← acceptMark '\x7d' last branches.rest
      match Schema.makeUnion branches.value with
      | .error error => .error ⟨token.position, .refused error⟩
      | .ok union =>
        return (((opening.andThen branches).andThen closing).give union).later
    else if token.isKeyword "decimal" then
      (readDecimal last rest).map .later
    else (wordType site token).map .next
termination_by (tokens.length, 0)
decreasing_by
  · exact Prod.Lex.left _ _ opening.later.shorter
  · exact Prod.Lex.left _ _ opening.later.shorter

def readBranches (site : Site) (last : Token) (tokens : List Token) :
    Except Fault (Consumed tokens (List Schema)) := do
  let branch ← readType site last tokens
  if nextIsMark ',' branch.rest then do
    let branches ← readBranches site last branch.skip.rest
    return (branch.skip.andThen branches).give (branch.value :: branches.value)
  else return branch.give [branch.value]
termination_by (tokens.length, 2)
decreasing_by
  · simp [Prod.lex_def]
  · exact Prod.Lex.left _ _ branch.skip.shorter

end

/-!
## Fields and parameters

A field line declares one type and one or more variables of it. Annotations before the type belong
to the type, unless it is a named one, which has no room for them: then they go to each variable.
Annotations before a variable belong to the variable.
-/

def textsOf? : Json → Option (List Text)
  | .arr items => Schema.texts? items
  | _ => none

def annotateField (position : Position) (field : Field) (entry : Text × Json) :
    Except Fault Field :=
  let (key, value) := entry
  if key = "order" then
    let name := match value with
      | .str name => name
      | _ => []
    match Order.ofName? name with
    | some order => .ok { field with order := order }
    | none => .error ⟨position, .badOrder⟩
  else if key = "aliases" then
    match textsOf? value with
    | some aliases => .ok { field with aliases := some aliases }
    | none => .error ⟨position, .aliasesNotTexts⟩
  else .ok { field with props := field.props.set key value }

def passDefault (last : Token) (tokens : List Token) :
    Except Fault (Passed tokens (Option Json)) :=
  match tokens with
  | [] => .ok (.stay none)
  | token :: rest =>
    if token.isMark '=' then
      (readJson last rest).map fun value => (value.give (some value.value)).later.passed
    else .ok (.stay none)

def readVariable (type : Schema) (doc : Text) (inherited : Members) (last : Token)
    (tokens : List Token) : Except Fault (Consumed tokens Field) := do
  let annotations ← readAnnotations last tokens
  let name ← acceptIdentifier last annotations.rest
  require (Name.isLegal name.value.text) ⟨name.value.position, .illegalField name.value.text⟩
  let plain : Field := {
    name := name.value.text
    type := type
    doc := doc
    default := none
    order := .ascending
    aliases := none
    props := inherited }
  let field ← annotations.value.foldlM (annotateField name.value.position) plain
  let default ← passDefault last name.rest
  return ((annotations.andThen name).andPass default).give { field with default := default.value }

def readVariables (type : Schema) (doc : Text) (inherited : Members) (last : Token)
    (tokens : List Token) : Except Fault (Consumed tokens (List Field)) := do
  let field ← readVariable type doc inherited last tokens
  if nextIsMark ',' field.rest then do
    let fields ← readVariables type doc inherited last field.skip.rest
    return (field.skip.andThen fields).give (field.value :: fields.value)
  else return field.give [field.value]
termination_by tokens.length
decreasing_by exact field.skip.shorter

def readFieldLine (site : Site) (last : Token) (tokens : List Token) :
    Except Fault (Consumed tokens (List Field)) := do
  let annotations ← readAnnotations last tokens
  let first := (peek last tokens).doc
  let doc := if first.isEmpty then (peek last annotations.rest).doc else first
  let type ← readType site last annotations.rest
  let inherited := if type.value.isNamed then annotations.value else []
  let fields ←
    readVariables (type.value.withProps annotations.value) doc inherited last type.rest
  let closing ← acceptMark ';' last fields.rest
  return (((annotations.andThen type).andThen fields).andThen closing).give fields.value

def repeated? (seen : List Text) : List Field → Option Text
  | [] => none
  | field :: rest =>
    if field.name ∈ seen then some field.name else repeated? (field.name :: seen) rest

/-- Reads the fields of a record after some others, and the closing brace. A name that occurs twice
is reported at the name of the record. -/
def readRecordFields (site : Site) (name : Token) (owner : Text) (last : Token)
    (before : List Field) (tokens : List Token) : Except Fault (Consumed tokens (List Field)) :=
  match tokens with
  | [] => .error ⟨last.position, .endInRecord name.text⟩
  | token :: rest =>
    if token.isMark '\x7d' then .ok (.next before)
    else do
      let line ← readFieldLine site last (token :: rest)
      match repeated? (before.map (·.name)) line.value with
      | some field => .error ⟨name.position, .duplicateField field owner⟩
      | none => do
        let fields ← readRecordFields site name owner last (before ++ line.value) line.rest
        return line.andThen fields
termination_by tokens.length
decreasing_by exact line.shorter

def readParameter (site : Site) (last : Token) (tokens : List Token) :
    Except Fault (Consumed tokens Field) := do
  let annotations ← readAnnotations last tokens
  let type ← readType site last annotations.rest
  let inherited := if type.value.isNamed then annotations.value else []
  let field ← readVariable (type.value.withProps annotations.value) (peek last tokens).doc
    inherited last type.rest
  return (annotations.andThen type).andThen field

def readParameters (site : Site) (last : Token) (tokens : List Token) :
    Except Fault (Consumed tokens (List Field)) :=
  match tokens with
  | [] => .error ⟨last.position, .expectedIdentifier last.describe⟩
  | token :: rest =>
    if token.isMark ')' then .ok (.next [])
    else do
      let field ← readParameter site last (token :: rest)
      let next ← passSeparator ')' last field.rest
      let fields ← readParameters site last next.rest
      return ((field.andPass next).andThen fields).give (field.value :: fields.value)
termination_by tokens.length
decreasing_by exact (field.andPass next).shorter

end Avro.Idl
