import Avro.Idl.Type
import Avro.Protocol.Read

/-!
# Declarations

Records, errors, enums, fixed types and messages. A record enters the scope before its fields are
read, an enum or a fixed type after its body.
-/

set_option autoImplicit false

namespace Avro.Idl

structure Heading where
  space : Text
  aliases : Option (List Text)
  props : Members
deriving Repr

def annotateNamed (position : Position) (heading : Heading) (entry : Text × Json) :
    Except Fault Heading :=
  let (key, value) := entry
  if key = "namespace" then
    match value with
    | .str space => .ok { heading with space := space }
    | _ => .error ⟨position, .spaceNotText⟩
  else if key = "aliases" then
    match textsOf? value with
    | some aliases => .ok { heading with aliases := some aliases }
    | none => .error ⟨position, .aliasesNotTexts⟩
  else .ok { heading with props := heading.props.set key value }

def definitionOf (protocolSpace doc : Text) (annotations : Members) (name : Token) (body : Body) :
    Except Fault Definition := do
  let heading ← annotations.foldlM (annotateNamed name.position) ⟨protocolSpace, none, []⟩
  return {
    name := ⟨heading.space, name.text⟩
    doc := doc
    aliases := heading.aliases
    props := heading.props
    body := body }

def defineAt (scope : Scope) (definition : Definition) (name : Token) :
    Except Fault (Reference × Scope) :=
  if !Name.isLegal definition.name.simple then
    .error ⟨name.position, .illegalName definition.name.simple⟩
  else
    match scope.define definition with
    | .ok defined => .ok defined
    | .error error => .error ⟨name.position, .refused error⟩

/-- What a declaration is read with: the scope, the namespace of the protocol, and the
documentation and annotations in front. -/
structure Front where
  scope : Scope
  protocolSpace : Text
  doc : Text
  annotations : Members

def Front.site (front : Front) (scope : Scope) (space : Text) : Site :=
  ⟨scope, front.protocolSpace, space⟩

def readRecord (front : Front) (isError : Bool) (last : Token) (tokens : List Token) :
    Except Fault (Consumed tokens Scope) := do
  let name ← acceptIdentifier last tokens
  let definition ←
    definitionOf front.protocolSpace front.doc front.annotations name.value (.record isError [])
  let (reference, scope) ← defineAt front.scope definition name.value
  let opening ← acceptMark '\x7b' last name.rest
  let site := front.site scope definition.name.space
  let fields ← readRecordFields site name.value definition.name.text last [] opening.rest
  return ((name.andThen opening).andThen fields).give
    (scope.install reference (.record isError fields.value))

def readSymbols (last : Token) (before : List Text) (tokens : List Token) :
    Except Fault (Consumed tokens (List Text)) :=
  match tokens with
  | [] => .error ⟨last.position, .expectedIdentifier last.describe⟩
  | token :: rest =>
    if token.isMark '\x7d' then .ok (.next before)
    else do
      let symbol ← acceptIdentifier last (token :: rest)
      require (Name.isLegal symbol.value.text && symbol.value.text ∉ before)
        ⟨symbol.value.position, .badSymbol symbol.value.text⟩
      let next ← passSeparator '\x7d' last symbol.rest
      let symbols ← readSymbols last (before ++ [symbol.value.text]) next.rest
      return (symbol.andPass next).andThen symbols
termination_by tokens.length
decreasing_by exact (symbol.andPass next).shorter

def passEnumDefault (owner : Text) (symbols : List Text) (last : Token) (tokens : List Token) :
    Except Fault (Passed tokens (Option Text)) :=
  match tokens with
  | [] => .ok (.stay none)
  | token :: rest =>
    if token.isMark '=' then do
      let symbol ← acceptIdentifier last rest
      require (symbols.contains symbol.value.text)
        ⟨symbol.value.position, .notASymbol symbol.value.text owner⟩
      let closing ← acceptMark ';' last symbol.rest
      return ((symbol.andThen closing).give (some symbol.value.text)).later.passed
    else .ok (.stay none)

def readEnum (front : Front) (last : Token) (tokens : List Token) :
    Except Fault (Consumed tokens Scope) := do
  let name ← acceptIdentifier last tokens
  let definition ←
    definitionOf front.protocolSpace front.doc front.annotations name.value (.enum [] none)
  let opening ← acceptMark '\x7b' last name.rest
  let symbols ← readSymbols last [] opening.rest
  let default ← passEnumDefault name.value.text symbols.value last symbols.rest
  let body : Body := .enum symbols.value default.value
  let (_, scope) ← defineAt front.scope { definition with body := body } name.value
  return (((name.andThen opening).andThen symbols).andPass default).give scope

def readFixed (front : Front) (last : Token) (tokens : List Token) :
    Except Fault (Consumed tokens Scope) := do
  let name ← acceptIdentifier last tokens
  let definition ←
    definitionOf front.protocolSpace front.doc front.annotations name.value (.fixed 0)
  let opening ← acceptMark '(' last name.rest
  let size ← readInteger last opening.rest
  let closing ← acceptMark ')' last size.rest
  let semicolon ← acceptMark ';' last closing.rest
  let (_, scope) ← defineAt front.scope { definition with body := .fixed size.value } name.value
  return ((((name.andThen opening).andThen size).andThen closing).andThen semicolon).give scope

def readResponse (site : Site) (last : Token) (tokens : List Token) :
    Except Fault (Consumed tokens Schema) :=
  match tokens with
  | [] => readType site last []
  | token :: rest =>
    if token.isKeyword "void" then .ok (.next (.plain .null))
    else readType site last (token :: rest)

def isErrorType (catalog : Catalog) : Schema → Bool
  | .named reference => (catalog.find? reference).any (·.body.isError)
  | _ => false

def readThrows (site : Site) (last : Token) (tokens : List Token) :
    Except Fault (Consumed tokens (List Schema)) := do
  let name ← acceptIdentifier last tokens
  match site.resolve? name.value.text with
  | none => .error ⟨name.value.position, .undefinedName name.value.text⟩
  | some schema =>
    if !isErrorType site.scope.catalog schema then
      .error ⟨name.value.position, .notAnError schema.fullName⟩
    else
      if nextIsMark ',' name.rest then do
        let errors ← readThrows site last name.skip.rest
        return (name.skip.andThen errors).give (schema :: errors.value)
      else return name.give [schema]
termination_by tokens.length
decreasing_by exact name.skip.shorter

structure Ending where
  oneWay : Bool
  errors : List Schema

def passEnding (site : Site) (name : Text) (response : Schema) (last : Token)
    (tokens : List Token) : Except Fault (Passed tokens Ending) :=
  match tokens with
  | [] => .ok (.stay ⟨false, []⟩)
  | token :: rest =>
    if token.isKeyword "oneway" then
      if response.isNull then .ok (.next ⟨true, []⟩)
      else .error ⟨token.position, .oneWayAnswers name⟩
    else if token.isKeyword "throws" then
      (readThrows site last rest).map fun errors =>
        (errors.give ⟨false, errors.value⟩).later.passed
    else .ok (.stay ⟨false, []⟩)

def readMessage (front : Front) (messages : List Message) (last : Token) (tokens : List Token) :
    Except Fault (Consumed tokens Message) := do
  let site := front.site front.scope front.protocolSpace
  let response ← readResponse site last tokens
  let name ← acceptIdentifier last response.rest
  require (Name.isLegal name.value.text) ⟨name.value.position, .illegalMessage name.value.text⟩
  require (messages.all fun message => message.name ≠ name.value.text)
    ⟨name.value.position, .duplicateMessage name.value.text⟩
  let opening ← acceptMark '(' last name.rest
  let request ← readParameters site last opening.rest
  let ending ← passEnding site name.value.text response.value last request.rest
  let closing ← acceptMark ';' last ending.rest
  let message : Message := {
    name := name.value.text
    doc := front.doc
    props := front.annotations
    request := request.value
    response := response.value
    errors := ending.value.errors
    oneWay := ending.value.oneWay }
  let front := ((response.andThen name).andThen opening).andThen request
  return ((front.andPass ending).andThen closing).give message

end Avro.Idl
