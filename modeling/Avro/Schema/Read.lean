import Avro.Schema.Basic
import Avro.Schema.Error
import Avro.Number.Decimal

/-!
# Reading schemas

A schema document is one JSON value. Reading goes from left to right and stops at the first fault,
so what a name means, and which fault is reported, depends on what stands before it. A record is
defined before its fields are read, so that they may refer to it.
-/

set_option autoImplicit false

namespace Avro

/-- What names mean while one document is read: the document's own definition, or else a type known
from earlier documents. A document defines a name once; it may define a known name anew. -/
structure Scope where
  catalog : Catalog
  known : List (Text × Schema)
  own : List (Text × Schema)
deriving Repr, Inhabited

namespace Scope

def start (catalog : Catalog) (known : List (Text × Schema)) : Scope := ⟨catalog, known, []⟩

def empty : Scope := start [] []

def find? (scope : Scope) (name : Text) : Option Schema :=
  match scope.own.lookup name with
  | some schema => some schema
  | none => scope.known.lookup name

def expand (name space : Text) : Text :=
  let (home, simple) := Name.split name space
  Name.qualify home simple

/-- Resolves a name as written in a namespace. A name without a dot is also looked for outside of
all namespaces. -/
def resolve? (scope : Scope) (name space : Text) : Option Schema :=
  let full := expand name space
  let outside := !(Name.split name space).1.isEmpty && full ≠ name
  (scope.find? full).or (if outside then scope.find? name else none)

def declare (scope : Scope) (name : Text) (schema : Schema) : Except SchemaError Scope :=
  match scope.own.lookup name with
  | some _ => .error (.redefined name)
  | none => .ok { scope with own := scope.own ++ [(name, schema)] }

def define (scope : Scope) (definition : Definition) : Except SchemaError (Reference × Scope) :=
  let reference : Reference := ⟨scope.catalog.length, definition.name⟩
  (scope.declare definition.name.text (.named reference)).map fun scope =>
    (reference, { scope with catalog := scope.catalog ++ [definition] })

def install (scope : Scope) (reference : Reference) (body : Body) : Scope :=
  { scope with catalog := scope.catalog.install reference body }

def defined (scope : Scope) : List Reference :=
  scope.own.filterMap fun
    | (_, .named reference) => some reference
    | _ => none

end Scope

/-!
## Unions

A union has no union as a branch, and no two branches of the same full name.
-/

namespace Schema

def branchFault? (seen : List Text) : List Schema → Option SchemaError
  | [] => none
  | branch :: rest =>
    if branch.isUnion then some .nestedUnion
    else if branch.fullName ∈ seen then some (.duplicateBranch branch.fullName)
    else branchFault? (branch.fullName :: seen) rest

def makeUnion (branches : List Schema) : Except SchemaError Schema :=
  match branchFault? [] branches with
  | some fault => .error fault
  | none => .ok (.union branches [])

/-! ## Documents -/

def reservedKeys : List Text :=
  ["type", "name", "namespace", "doc", "aliases", "fields", "symbols", "default", "size", "items",
    "values"]

def fieldReservedKeys : List Text := ["name", "type", "doc", "default", "order", "aliases"]

def customProps (reserved : List Text) (members : Members) : Members :=
  members.filter fun member => !reserved.contains member.1

def texts? : List Json → Option (List Text)
  | [] => some []
  | .str text :: rest => (texts? rest).map (text :: ·)
  | _ :: _ => none

def textList? (members : Members) (key : Text) : Except SchemaError (Option (List Text)) :=
  match members.get? key with
  | none => .ok none
  | some (.arr items) =>
    match texts? items with
    | some texts => .ok (some texts)
    | none => .error (.notTexts key)
  | some _ => .error (.notTexts key)

def docOf (members : Members) : Text := (members.text? "doc").getD []

def describe : Json → Text
  | .null => "null"
  | .bool _ => "boolean"
  | .num _ => "number"
  | .int _ => "int"
  | .str _ => "string"
  | .arr _ => "array"
  | .obj _ => "object"

def shownItem : Json → Text
  | .null => "<nil>"
  | .bool true => "true"
  | .bool false => "false"
  | .str text => text
  | .num literal => literal
  | .int value => Text.ofInt value
  | .arr items => "[" ++ Text.join " " (items.attach.map fun ⟨item, _⟩ => shownItem item) ++ "]"
  | .obj _ => []

/-- How a value that is no order is shown. Of an object, the keys come first and then the members
in the order of their keys. -/
def shownOrder : Json → Text
  | .obj members =>
    let sorted := members.mergeSort fun left right => !Text.before right.1 left.1
    "&\x7b[" ++ Text.join " " (Members.keys members) ++ "] map[" ++
      Text.join " " (sorted.map fun member => member.1 ++ ":" ++ shownItem member.2) ++ "]\x7d"
  | value => shownItem value

inductive Kind where
  | record
  | error
  | enum
  | fixed
deriving DecidableEq, Repr

namespace Kind

def name : Kind → Text
  | .record => "record"
  | .error => "error"
  | .enum => "enum"
  | .fixed => "fixed"

def ofName? (name : Text) : Option Kind :=
  [Kind.record, .error, .enum, .fixed].find? fun kind => kind.name = name

def emptyBody : Kind → Body
  | .record => .record false []
  | .error => .record true []
  | .enum => .enum [] none
  | .fixed => .fixed 0

end Kind

def readName (scope : Scope) (space name : Text) : Except SchemaError Schema :=
  match Primitive.ofName? name with
  | some kind => .ok (.plain kind)
  | none =>
    match scope.resolve? name space with
    | some schema => .ok schema
    | none => .error (.undefinedName (Scope.expand name space))

def symbolFault? (owner : Text) (seen : List Text) : List Text → Option SchemaError
  | [] => none
  | symbol :: rest =>
    if !Name.isLegal symbol then some (.illegalSymbol symbol owner)
    else if symbol ∈ seen then some (.duplicateSymbol symbol owner)
    else symbolFault? owner (symbol :: seen) rest

def readSymbols (owner : Text) (members : Members) : Except SchemaError (List Text) := do
  match ← textList? members "symbols" with
  | none => .error (.noSymbols owner)
  | some symbols =>
    match symbolFault? owner [] symbols with
    | some fault => .error fault
    | none => .ok symbols

def readEnumDefault (owner : Text) (symbols : List Text) (members : Members) :
    Except SchemaError (Option Text) :=
  match members.get? "default" with
  | none => .ok none
  | some (.str default) =>
    if default ∈ symbols then .ok (some default) else .error (.badEnumDefault owner)
  | some _ => .error (.badEnumDefault owner)

def readEnum (owner : Text) (members : Members) : Except SchemaError Body := do
  let symbols ← readSymbols owner members
  let default ← readEnumDefault owner symbols members
  return .enum symbols default

def readFixed (owner : Text) (members : Members) : Except SchemaError Body :=
  match members.get? "size" with
  | some (.num literal) =>
    match Number.readInt64 literal with
    | .value (.ofNat size) => .ok (.fixed size)
    | _ => .error (.badSize literal owner)
  | _ => .error (.noSize owner)

/-- The reader of a body, for the kinds that have no fields. -/
def Kind.readLeaf? : Kind → Option (Text → Members → Except SchemaError Body)
  | .enum => some readEnum
  | .fixed => some readFixed
  | _ => none

def readSpace (members : Members) (name space : Text) : Except SchemaError Text :=
  match members.get? "namespace" with
  | none => .ok space
  | some (.str own) => .ok own
  | some .null => .ok []
  | some _ => .error (.spaceNotText name)

def readTypeName (kind : Kind) (members : Members) : Except SchemaError Text :=
  match members.text? "name" with
  | some name => .ok name
  | none => .error (.noName kind.name)

def legalName (name space : Text) : Except SchemaError FullName :=
  let (home, simple) := Name.split name space
  if !Name.isLegal simple then .error (.illegalName simple)
  else if !Name.isLegalSpace home then .error (.illegalSpace home)
  else .ok ⟨home, simple⟩

def readHead (kind : Kind) (members : Members) (space : Text) : Except SchemaError Definition := do
  let written ← readTypeName kind members
  let outer ← readSpace members written space
  let name ← legalName written outer
  let aliases ← textList? members "aliases"
  return {
    name := name
    doc := docOf members
    aliases := aliases
    props := customProps reservedKeys members
    body := kind.emptyBody }

def readFieldList (owner : Text) (members : Members) : Except SchemaError (List Json) :=
  match members.get? "fields" with
  | none => .error (.noFields owner)
  | some (.arr fields) => .ok fields
  | some _ => .error (.fieldsNotList owner)

def readOrder (members : Members) (field : Text) : Except SchemaError Order :=
  match members.get? "order" with
  | none => .ok .ascending
  | some value =>
    let name := match value with
      | .str name => name
      | _ => []
    match Order.ofName? name with
    | some order => .ok order
    | none => .error (.badOrder (shownOrder value) field)

def readFieldName (members : Members) : Except SchemaError Text :=
  match members.text? "name" with
  | none => .error .fieldNoName
  | some name => if Name.isLegal name then .ok name else .error (.illegalField name)

def readFieldRest (members : Members) (name : Text) (type : Schema) :
    Except SchemaError Field := do
  let order ← readOrder members name
  let aliases ← textList? members "aliases"
  return {
    name := name
    type := type
    doc := docOf members
    default := members.get? "default"
    order := order
    aliases := aliases
    props := customProps fieldReservedKeys members }

theorem sizeOf_fieldList {owner : Text} {members : Members} {fields : List Json}
    (read : readFieldList owner members = .ok fields) : sizeOf fields < sizeOf members := by
  unfold readFieldList at read
  split at read
  · cases read
  · rename_i found
    cases read
    have := Members.sizeOf_get? found
    simp at this
    omega
  · cases read

mutual

def read (scope : Scope) (space : Text) (value : Json) : Except SchemaError (Schema × Scope) :=
  match value with
  | .str name => (readName scope space name).map fun schema => (schema, scope)
  | .arr branches => do
    let (branches, scope) ← readBranches scope space branches
    let union ← makeUnion branches
    return (union, scope)
  | .obj members =>
    match _found : Members.get? members "type" with
    | none => .error .noType
    | some (.str type) =>
      match Primitive.ofName? type with
      | some kind => .ok (.primitive kind (customProps reservedKeys members), scope)
      | none =>
        match Kind.ofName? type with
        | some kind => do
          let head ← readHead kind members space
          let owner := head.name.text
          let (reference, scope) ← scope.define head
          match kind.readLeaf? with
          | some readBody => do
            let body ← readBody owner members
            return (.named reference, scope.install reference body)
          | none =>
            match _listed : readFieldList owner members with
            | .error error => .error error
            | .ok list => do
              let (fields, scope) ← readFields scope head.name [] list
              return (.named reference, scope.install reference (.record (kind = .error) fields))
        | none =>
          match Container.ofName? type with
          | some kind =>
            match _inner : Members.get? members kind.key with
            | none => .error (.noInner kind.name kind.key)
            | some inner => do
              let (inner, scope) ← read scope space inner
              return (.container kind inner (customProps reservedKeys members), scope)
          | none => (readName scope space type).map fun schema => (schema, scope)
    | some inner => read scope space inner
  | value => .error (.noSchema (describe value))
termination_by sizeOf value
decreasing_by
  · simp
  · have := sizeOf_fieldList _listed
    simp
    omega
  · have := Members.sizeOf_get? _inner
    simp
    omega
  · have := Members.sizeOf_get? _found
    simp
    omega

def readBranches (scope : Scope) (space : Text) (values : List Json) :
    Except SchemaError (List Schema × Scope) :=
  match values with
  | [] => .ok ([], scope)
  | value :: rest => do
    let (branch, scope) ← read scope space value
    let (branches, scope) ← readBranches scope space rest
    return (branch :: branches, scope)
termination_by sizeOf values

def readFields (scope : Scope) (owner : FullName) (seen : List Text) (values : List Json) :
    Except SchemaError (List Field × Scope) :=
  match values with
  | [] => .ok ([], scope)
  | .obj members :: rest =>
    match readField scope owner.space members with
    | .error error => .error (.inRecord owner.text error)
    | .ok (field, scope) =>
      if field.name ∈ seen then .error (.duplicateField field.name owner.text)
      else do
        let (fields, scope) ← readFields scope owner (field.name :: seen) rest
        return (field :: fields, scope)
  | _ :: _ => .error (.fieldNotObject owner.text)
termination_by sizeOf values

def readField (scope : Scope) (space : Text) (members : Members) :
    Except SchemaError (Field × Scope) := do
  let name ← readFieldName members
  match _found : Members.get? members "type" with
  | none => .error (.fieldNoType name)
  | some value => do
    let (type, scope) ← read scope space value
    let field ← readFieldRest members name type
    return (field, scope)
termination_by sizeOf members
decreasing_by exact Members.sizeOf_get? _found

end

def readDocument (scope : Scope) (text : Text) : Except SchemaError (Schema × Scope) :=
  match Json.decode text with
  | .error error => .error (.invalidJson error)
  | .ok value => read scope [] value

end Schema

end Avro
