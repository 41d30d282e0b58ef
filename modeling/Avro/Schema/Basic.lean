import Avro.Text.Quoted
import Avro.Json.Basic

/-!
# Schemas

A schema is a finite expression. Named types may be recursive and may be shared, so an expression
refers to them by their place in a catalog of definitions. A name alone would not do: a document
may define a name that earlier documents define otherwise, and types of both may meet in one schema.
-/

set_option autoImplicit false

namespace Avro

/-!
## Names

A legal name starts with a Latin letter or an underscore and goes on with those and digits; a legal
namespace is a dotted list of legal names.
-/

namespace Name

def isStart : Cell → Bool
  | .scalar char => char.isAlpha || char == '_'
  | .stray _ => false

def isPart : Cell → Bool
  | .scalar char => char.isAlphanum || char == '_'
  | .stray _ => false

def isLegal : Text → Bool
  | [] => false
  | first :: rest => isStart first && rest.all isPart

def isLegalSpace (space : Text) : Bool :=
  space.isEmpty || (Text.splitOn '.' space).all isLegal

def qualify (space simple : Text) : Text :=
  if space.isEmpty then simple else space ++ "." ++ simple

/-- The namespace and the simple part of a name as written: a dotted name brings its own namespace,
any other takes the enclosing one. -/
def split (name space : Text) : Text × Text :=
  match Text.splitLast? '.' name with
  | some (own, simple) => (own, simple)
  | none => (space, name)

end Name

structure FullName where
  space : Text
  simple : Text
deriving DecidableEq, Repr, Inhabited

def FullName.text (name : FullName) : Text := Name.qualify name.space name.simple

/-! ## Types -/

inductive Primitive where
  | null
  | boolean
  | int
  | long
  | float
  | double
  | bytes
  | string
deriving DecidableEq, Repr

namespace Primitive

def all : List Primitive := [.null, .boolean, .int, .long, .float, .double, .bytes, .string]

def name : Primitive → Text
  | .null => "null"
  | .boolean => "boolean"
  | .int => "int"
  | .long => "long"
  | .float => "float"
  | .double => "double"
  | .bytes => "bytes"
  | .string => "string"

def ofName? (name : Text) : Option Primitive := all.find? fun primitive => primitive.name = name

end Primitive

structure Reference where
  place : Nat
  name : FullName
deriving DecidableEq, Repr, Inhabited

/-- The types that hold any number of values of one type. -/
inductive Container where
  | array
  | map
deriving DecidableEq, Repr

namespace Container

def name : Container → Text
  | .array => "array"
  | .map => "map"

def key : Container → Text
  | .array => "items"
  | .map => "values"

def ofName? (name : Text) : Option Container := [array, map].find? fun kind => kind.name = name

end Container

/-- A schema expression. Every form but a reference may carry custom properties. -/
inductive Schema where
  | primitive (kind : Primitive) (props : Members)
  | container (kind : Container) (inner : Schema) (props : Members)
  | union (branches : List Schema) (props : Members)
  | named (reference : Reference)
deriving Repr, Inhabited

namespace Schema

def plain (kind : Primitive) : Schema := .primitive kind []

def isNamed : Schema → Bool
  | .named _ => true
  | _ => false

def isUnion : Schema → Bool
  | .union _ _ => true
  | _ => false

def isNull : Schema → Bool
  | .primitive .null _ => true
  | _ => false

def fullName : Schema → Text
  | .primitive kind _ => kind.name
  | .container kind _ _ => kind.name
  | .union _ _ => "union"
  | .named reference => reference.name.text

def props : Schema → Members
  | .primitive _ props => props
  | .container _ _ props => props
  | .union _ props => props
  | .named _ => []

/-- Adds custom properties. A reference has no room for any and stays as it is. -/
def withProps (schema : Schema) (more : Members) : Schema :=
  match schema with
  | .primitive kind props => .primitive kind (props.setAll more)
  | .container kind inner props => .container kind inner (props.setAll more)
  | .union branches props => .union branches (props.setAll more)
  | .named reference => .named reference

end Schema

inductive Order where
  | ascending
  | descending
  | ignore
deriving DecidableEq, Repr, Inhabited

namespace Order

def name : Order → Text
  | .ascending => "ascending"
  | .descending => "descending"
  | .ignore => "ignore"

def ofName? (name : Text) : Option Order :=
  [Order.ascending, .descending, .ignore].find? fun order => order.name = name

end Order

structure Field where
  name : Text
  type : Schema
  doc : Text
  default : Option Json
  order : Order
  aliases : Option (List Text)
  props : Members
deriving Repr, Inhabited

/-- What a named type consists of. An error type is a record that messages may throw. -/
inductive Body where
  | record (isError : Bool) (fields : List Field)
  | enum (symbols : List Text) (default : Option Text)
  | fixed (size : Nat)
deriving Repr, Inhabited

structure Definition where
  name : FullName
  doc : Text
  aliases : Option (List Text)
  props : Members
  body : Body
deriving Repr, Inhabited

namespace Body

def kindName : Body → Text
  | .record false _ => "record"
  | .record true _ => "error"
  | .enum _ _ => "enum"
  | .fixed _ => "fixed"

def fields : Body → List Field
  | .record _ fields => fields
  | _ => []

def isError : Body → Bool
  | .record isError _ => isError
  | _ => false

end Body

/-- Definitions in the order in which they were begun. References point into it, and it only ever
grows, so a reference keeps its meaning. -/
abbrev Catalog := List Definition

namespace Catalog

def find? (catalog : Catalog) (reference : Reference) : Option Definition :=
  catalog[reference.place]?

def install (catalog : Catalog) (reference : Reference) (body : Body) : Catalog :=
  catalog.modify reference.place fun definition => { definition with body := body }

end Catalog

end Avro
