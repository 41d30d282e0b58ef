import Avro.Codec.Build

/-!
# Names in Go

Names of types and fields become exported Go identifiers: the first letter is upper case, and a
name that starts with an underscore gets a letter in front of it.
-/

set_option autoImplicit false

namespace Avro.Binding

def exported : Text → Text
  | [] => []
  | first :: rest =>
    let upper := Text.toUpper first.shown
    let name : Text := .scalar upper :: Text.sanitize rest
    if upper == '_' then .scalar 'X' :: name else name

def isPackageChar (char : Char) : Bool :=
  char == '_' || ('a' ≤ char && char ≤ 'z') || char.isDigit

def packageName (text : Text) : Text :=
  let chars := (text.map fun cell => Text.toLower cell.shown).filter isPackageChar
  let name : Text := chars.map Cell.scalar
  match chars with
  | [] => "avro"
  | first :: _ => if first.isDigit then "avro" ++ name else name

/-- A name that is not used yet: underscores are added until it is new. -/
def freshName (used : List Text) : Nat → Text → Text
  | 0, name => name
  | tries + 1, name =>
    if name ∈ used then freshName used tries (name ++ [.scalar '_']) else name

def fieldName (used : List Text) (name : Text) : Text :=
  freshName used (used.length + 1) (exported name)

def fieldNames (used : List Text) : List Text → List Text
  | [] => []
  | name :: rest =>
    let chosen := fieldName used name
    chosen :: fieldNames (chosen :: used) rest

/-!
## Binding nodes

What the bindings of a schema look like, apart from any text: types, and the three kinds of
declarations.
-/

structure TypeName where
  full : Text
  identifier : Text
deriving DecidableEq, Repr, Inhabited

structure Member (α : Type) where
  name : Text
  type : α
  doc : Text
  aliases : Option (List Text)
  default : Option Json
deriving Repr, Inhabited

inductive Node where
  | primitive (name meaning : Text)
  | array (items : Node)
  | map (values : Node)
  | object (name : TypeName) (doc : Text) (isError : Bool) (fields : List (Member Node))
  | oneOf (variants : List Node) (optional : Bool)
  | enum (name : TypeName) (doc : Text) (symbols : List Text) (default : Text)
  | fixed (name : TypeName) (doc : Text) (size : Int)
  | reference (name : TypeName)
  | absent
deriving Inhabited

namespace Node

def name : Node → TypeName
  | .object name _ _ _ => name
  | .enum name _ _ _ => name
  | .fixed name _ _ => name
  | _ => ⟨[], []⟩

def kindText : Node → Text
  | .primitive _ _ => "*ir.Primitive"
  | .array _ => "*ir.Array"
  | .map _ => "*ir.Map"
  | .object _ _ _ _ => "*ir.Object"
  | .oneOf _ _ => "*ir.OneOf"
  | .enum _ _ _ _ => "*ir.Enum"
  | .fixed _ _ _ => "*ir.Fixed"
  | .reference _ => "*ir.Ref"
  | .absent => "<nil>"

end Node

structure Declaration where
  node : Node
  schema : Text
deriving Inhabited

/-- The declarations of a package; `source` says what they were made from. -/
structure File where
  package : Text
  source : Text
  declarations : List Declaration
deriving Inhabited

/-!
## Bindings of types

Each named type becomes a declaration. A type is called by its simple name if no other type of the
file claims it, and by its namespace and simple name otherwise.
-/

/-- A type offered for a file: a named schema, or something of a kind that has no bindings. -/
inductive Offer where
  | named (reference : Reference)
  | unsupported (kind : Text)
deriving Repr, Inhabited

inductive BuildError where
  | unsupported (kind : Text)
  | noParsingForm (name : Text)
deriving DecidableEq, Repr, Inhabited

def BuildError.message : BuildError → Text
  | .unsupported kind => "gen: unsupported native type " ++ kind
  | .noParsingForm name => "gen: " ++ name ++ ": schema has no parsing canonical form"

abbrev Identifiers := List (Text × Text)

def identifierAmong (names : List FullName) (name : FullName) : Text :=
  let simple := exported name.simple
  if 1 < (names.map fun other => exported other.simple).count simple then
    ((Text.splitOn '.' name.space).map exported).flatten ++ simple
  else simple

def assignNames (names : List FullName) : Identifiers :=
  names.map fun name => (name.text, identifierAmong names name)

def typeName (identifiers : Identifiers) (name : FullName) : TypeName :=
  ⟨name.text, (identifiers.lookup name.text).getD (exported name.simple)⟩

mutual

def nodeOf (identifiers : Identifiers) : Schema → Node
  | .primitive kind props => .primitive kind.name ((Members.text? props "logicalType").getD [])
  | .container .array items _ => .array (nodeOf identifiers items)
  | .container .map values _ => .map (nodeOf identifiers values)
  | .union branches _ =>
    match nodesOf identifiers branches, branches with
    | [first, second], [left, right] =>
      if left.isNull then .oneOf [second] true
      else if right.isNull then .oneOf [first] true
      else .oneOf [first, second] false
    | nodes, _ => .oneOf nodes false
  | .named reference => .reference (typeName identifiers reference.name)

def nodesOf (identifiers : Identifiers) : List Schema → List Node
  | [] => []
  | schema :: rest => nodeOf identifiers schema :: nodesOf identifiers rest

end

/-- The default of a field of a record. What looks like an error type in it is a record, as in the
schema on its own, unless a property of the record or of the field keeps the default out of that
schema. -/
def defaultOf (record : Definition) (field : Field) : Option Json :=
  if Members.has record.props "fields" || Members.has field.props "default" then field.default
  else field.default.map Codec.errorsAsRecords

def memberOf (identifiers : Identifiers) (record : Definition) (field : Field) : Member Node where
  name := field.name
  type := nodeOf identifiers field.type
  doc := field.doc
  aliases := field.aliases
  default := defaultOf record field

def declarationNode (identifiers : Identifiers) (definition : Definition) : Node :=
  let name := typeName identifiers definition.name
  match definition.body with
  | .record isError fields =>
    .object name definition.doc isError (fields.map (memberOf identifiers definition))
  | .enum symbols default => .enum name definition.doc symbols (default.getD [])
  | .fixed size => .fixed name definition.doc size

def namedOffers : List Offer → Except BuildError (List Reference)
  | [] => .ok []
  | .named reference :: rest => (namedOffers rest).map (reference :: ·)
  | .unsupported kind :: _ => .error (.unsupported kind)

def declare (catalog : Catalog) (identifiers : Identifiers) (reference : Reference) :
    Except BuildError Declaration :=
  match Codec.parsingForm? catalog (.named reference), catalog.find? reference with
  | some schema, some definition => .ok ⟨declarationNode identifiers definition, schema⟩
  | _, _ => .error (.noParsingForm reference.name.text)

def build (catalog : Catalog) (package : Text) (offers : List Offer) : Except BuildError File := do
  let references ← namedOffers offers
  let identifiers := assignNames (references.map Reference.name)
  let declarations ← references.mapM (declare catalog identifiers)
  return ⟨packageName package, [], declarations⟩

end Avro.Binding
