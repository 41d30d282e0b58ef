import Avro.Schema.Read

/-!
# Protocols

A protocol names a list of types and a list of messages.
-/

set_option autoImplicit false

namespace Avro

structure Message where
  name : Text
  doc : Text
  props : Members
  request : List Field
  response : Schema
  errors : List Schema
  oneWay : Bool
deriving Repr, Inhabited

structure Protocol where
  name : FullName
  doc : Text
  props : Members
  types : List Reference
  messages : List Message
deriving Repr, Inhabited

/-!
## Reading protocols

A protocol document lists types and messages. The types of the protocol are those that its list of
types defines, nested ones included; a type defined inside a message is in scope from there on but
is not listed.
-/

namespace Protocol

def reservedKeys : List Text := ["protocol", "namespace", "doc", "types", "messages"]

def messageReservedKeys : List Text := ["doc", "request", "response", "errors", "one-way"]

def readTypes (space : Text) : Scope → List Json → Except SchemaError Scope
  | scope, [] => .ok scope
  | scope, value :: rest => do
    let (schema, scope) ← Schema.read scope space value
    if schema.isNamed then readTypes space scope rest
    else .error (.unnamedType schema.fullName)

def readRequest (message space : Text) :
    Scope → List Json → Except SchemaError (List Field × Scope)
  | scope, [] => .ok ([], scope)
  | scope, .obj members :: rest =>
    match Schema.readField scope space members with
    | .error error => .error (.inMessage message error)
    | .ok (field, scope) => do
      let (fields, scope) ← readRequest message space scope rest
      return (field :: fields, scope)
  | _, _ :: _ => .error (.parameterNotObject message)

def listOf (members : Members) (key : Text) (absent : Except SchemaError (List Json))
    (noList : SchemaError) : Except SchemaError (List Json) :=
  match members.get? key with
  | none => absent
  | some (.arr values) => .ok values
  | some _ => .error noList

def responseOf (name : Text) (members : Members) : Except SchemaError Json :=
  match members.get? "response" with
  | none => .error (.noResponse name)
  | some response => .ok response

def oneWayOf (name : Text) (members : Members) : Except SchemaError Bool :=
  match members.get? "one-way" with
  | none => .ok false
  | some (.bool oneWay) => .ok oneWay
  | some _ => .error (.oneWayNotBool name)

def readMessage (name space : Text) (scope : Scope) (members : Members) :
    Except SchemaError (Message × Scope) := do
  let parameters ← listOf members "request" (.error (.noRequest name)) (.requestNotList name)
  let (request, scope) ← readRequest name space scope parameters
  let answer ← responseOf name members
  let (response, scope) ← Schema.read scope space answer
  let thrown ← listOf members "errors" (.ok []) (.errorsNotList name)
  let (errors, scope) ← Schema.readBranches scope space thrown
  let oneWay ← oneWayOf name members
  if oneWay && (!response.isNull || !errors.isEmpty) then .error (.oneWayAnswers name)
  else
    let message : Message := {
      name := name
      doc := Schema.docOf members
      props := Schema.customProps messageReservedKeys members
      request := request
      response := response
      errors := errors
      oneWay := oneWay }
    return (message, scope)

def readMessages (space : Text) : Scope → Members → Except SchemaError (List Message × Scope)
  | scope, [] => .ok ([], scope)
  | scope, (name, .obj members) :: rest => do
    let (message, scope) ← readMessage name space scope members
    let (messages, scope) ← readMessages space scope rest
    return (message :: messages, scope)
  | _, (name, _) :: _ => .error (.messageNotObject name)

def nameOf (members : Members) : Except SchemaError Text :=
  match members.text? "protocol" with
  | some name => .ok name
  | none => .error .noProtocolName

def messagesOf (members : Members) : Except SchemaError Members :=
  match members.get? "messages" with
  | none => .ok []
  | some .null => .ok []
  | some (.obj messages) => .ok messages
  | some _ => .error .messagesNotObject

def readMembers (scope : Scope) (members : Members) : Except SchemaError (Protocol × Scope) := do
  let name ← nameOf members
  let space := (members.text? "namespace").getD []
  let before := scope.defined.length
  let values ← listOf members "types" (.ok []) .typesNotList
  let scope ← readTypes space scope values
  let types := scope.defined.drop before
  let values ← messagesOf members
  let (messages, scope) ← readMessages space scope values
  let protocol : Protocol := {
    name := ⟨space, name⟩
    doc := Schema.docOf members
    props := Schema.customProps reservedKeys members
    types := types
    messages := messages }
  return (protocol, scope)

def readDocument (scope : Scope) (text : Text) : Except SchemaError (Protocol × Scope) :=
  match Json.decode text with
  | .error error => .error (.invalidJson error)
  | .ok (.obj members) => readMembers scope members
  | .ok _ => .error .noProtocol

end Protocol

end Avro
