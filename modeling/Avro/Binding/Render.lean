import Avro.Binding.Build
import Avro.Source.Layout

/-!
# Go source of a binding

A file starts with a comment that says what it is made of, its package and what it imports. Each
declaration is a type with its comment, its methods and its schema. The lines are assembled first
and then laid out.
-/

set_option autoImplicit false

namespace Avro.Binding

inductive RenderError where
  | unnamed (kind : Text)
  | malformed
deriving DecidableEq, Repr, Inhabited

def RenderError.message : RenderError → Text
  | .unnamed kind => "gen: declaration without a name (" ++ kind ++ ")"
  | .malformed => "gen: format: not a Go file"

def primitiveType (name meaning : Text) : Text × Option Text :=
  if meaning = "date" || meaning = "timestamp-millis" || meaning = "timestamp-micros" then
    ("time.Time", some "time")
  else if meaning = "time-millis" || meaning = "time-micros" then
    ("time.Duration", some "time")
  else if meaning = "decimal" && name = "bytes" then ("*big.Rat", some "math/big")
  else if name = "null" then ("struct\x7b\x7d", none)
  else if name = "boolean" then ("bool", none)
  else if name = "int" then ("int32", none)
  else if name = "long" then ("int64", none)
  else if name = "float" then ("float32", none)
  else if name = "double" then ("float64", none)
  else if name = "bytes" then ("[]byte", none)
  else if name = "string" then ("string", none)
  else ("any", none)

def isNilable (type : Text) : Bool :=
  type = "any" || type.startsWith "[]" || type.startsWith "map[" || type.startsWith "*"

mutual

def goType : Node → Text
  | .primitive name meaning => (primitiveType name meaning).1
  | .array items => "[]" ++ goType items
  | .map values => "map[string]" ++ goType values
  | .reference name => name.identifier
  | .oneOf variants true => optionalType variants
  | _ => "any"

def optionalType : List Node → Text
  | [] => "any"
  | variant :: _ =>
    let type := goType variant
    if isNilable type then type else "*" ++ type

end

mutual

def packageOf : Node → Option Text
  | .primitive name meaning => (primitiveType name meaning).2
  | .array items => packageOf items
  | .map values => packageOf values
  | .oneOf variants true => packageOfFirst variants
  | _ => none

def packageOfFirst : List Node → Option Text
  | [] => none
  | variant :: _ => packageOf variant

end

def commentLine (line : Text) : Text :=
  let isGap : Cell → Bool := fun cell => cell.isChar ' ' || cell.isChar '\t'
  let line := (line.reverse.dropWhile isGap).reverse
  if line.isEmpty then "//" else "// " ++ line

def commentLines (text : Text) : List Text := (Text.splitOn '\n' text).map commentLine

def docLines (name : TypeName) (doc : Text) : List Text :=
  ("// " ++ name.identifier ++ " is the Avro type " ++ name.full ++ ".") ::
    if doc.isEmpty then [] else "//" :: commentLines doc

def indent (lines : List Text) : List Text := lines.map fun line => "\t" ++ line

def fieldTag (name : Text) : Text := "\x60avro:" ++ Text.quote name ++ "\x60"

def fieldLines (identifier : Text) (field : Member Node) : List Text :=
  (if field.doc.isEmpty then [] else commentLines field.doc) ++
    [identifier ++ " " ++ goType field.type ++ " " ++ fieldTag field.name]

def methodNames (isError : Bool) : List Text :=
  if isError then ["AvroSchema", "Error"] else ["AvroSchema"]

def namedFields (isError : Bool) (fields : List (Member Node)) : List (Text × Member Node) :=
  List.zip (fieldNames (methodNames isError) (fields.map Member.name)) fields

def returnFunction (header expression : Text) : Text :=
  header ++ " \x7b return " ++ expression ++ " \x7d"

def group (word : Text) (lines : List Text) : List Text :=
  (word ++ " (") :: (indent lines ++ [(")" : Text), []])

def symbolLine (identifier symbol : Text) : Text :=
  identifier ++ exported symbol ++ " " ++ identifier ++ " = " ++ Text.quote symbol

def typeLines : Node → List Text
  | .object name doc isError fields =>
    docLines name doc ++ ["type " ++ name.identifier ++ " struct \x7b"] ++
      indent ((namedFields isError fields).flatMap fun (identifier, field) =>
        fieldLines identifier field) ++
      [("\x7d" : Text), []] ++
      if isError then
        [returnFunction ("func (e *" ++ name.identifier ++ ") Error() string")
          (Text.quote name.full), []]
      else []
  | .enum name doc symbols default =>
    docLines name doc ++ ["type " ++ name.identifier ++ " string", []] ++
      (if symbols.isEmpty then [] else group "const" (symbols.map (symbolLine name.identifier))) ++
      if default.isEmpty then []
      else
        ["// " ++ name.identifier ++ "Default is the symbol readers use for unknown values.",
          "const " ++ name.identifier ++ "Default = " ++ name.identifier ++ exported default, []]
  | .fixed name doc size =>
    docLines name doc ++ ["type " ++ name.identifier ++ " [" ++ Text.ofInt size ++ "]byte", []]
  | _ => []

def schemaLines (name : TypeName) (schema : Text) : List Text :=
  let constant := name.identifier ++ "Schema"
  ["// " ++ constant ++ " is the Avro parsing canonical form of " ++ name.full ++ ".",
    "const " ++ constant ++ " = " ++ Text.quote schema, [],
    "// AvroSchema returns " ++ constant ++ ".",
    returnFunction ("func (" ++ name.identifier ++ ") AvroSchema() string") constant, []]

def declarationLines (declaration : Declaration) : List Text :=
  typeLines declaration.node ++ schemaLines declaration.node.name declaration.schema

def declarationPackages : Node → List Text
  | .object _ _ _ fields => fields.filterMap fun field => packageOf field.type
  | _ => []

def imports (file : File) : List Text :=
  let needed := file.declarations.flatMap fun declaration => declarationPackages declaration.node
  ([("math/big" : Text), ("time" : Text)]).filter fun package => package ∈ needed

def importLines (packages : List Text) : List Text :=
  if packages.isEmpty then [] else group "import" (packages.map Text.quote)

def headLines (file : File) : List Text :=
  ("// Code generated by avrogen. DO NOT EDIT." : Text) ::
    ((if file.source.isEmpty then [] else [("// source: " : Text) ++ file.source]) ++
      [[], ("package " : Text) ++ packageName file.package, []])

def fileLines (file : File) : List Text :=
  headLines file ++ importLines (imports file) ++ file.declarations.flatMap declarationLines

def assemble (file : File) : Text := (fileLines file).flatMap fun line => line ++ ("\n" : Text)

def unnamed? (file : File) : Option Node :=
  (file.declarations.map Declaration.node).find? fun node => node.name.identifier.isEmpty

def render (file : File) : Except RenderError Text :=
  match unnamed? file with
  | some node => .error (.unnamed node.kindText)
  | none =>
    match Source.format? (assemble file) with
    | some text => .ok text
    | none => .error .malformed

end Avro.Binding
