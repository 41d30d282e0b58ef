import Avro.Json.Decode

/-!
# Faults of documents

Why a schema or protocol document is refused, and how each fault is worded.
-/

set_option autoImplicit false

namespace Avro

inductive SchemaError where
  | invalidJson (cause : Json.DecodeError)
  | undefinedName (name : Text)
  | redefined (name : Text)
  | illegalName (name : Text)
  | illegalSpace (space : Text)
  | noSchema (found : Text)
  | noType
  | noInner (container key : Text)
  | noName (kind : Text)
  | spaceNotText (name : Text)
  | noFields (owner : Text)
  | fieldsNotList (owner : Text)
  | fieldNotObject (owner : Text)
  | duplicateField (field owner : Text)
  | notTexts (key : Text)
  | noSymbols (owner : Text)
  | illegalSymbol (symbol owner : Text)
  | duplicateSymbol (symbol owner : Text)
  | badEnumDefault (owner : Text)
  | noSize (owner : Text)
  | badSize (size owner : Text)
  | fieldNoName
  | illegalField (name : Text)
  | fieldNoType (name : Text)
  | badOrder (order field : Text)
  | nestedUnion
  | duplicateBranch (name : Text)
  | inRecord (owner : Text) (cause : SchemaError)
  | noProtocol
  | noProtocolName
  | typesNotList
  | unnamedType (kind : Text)
  | messagesNotObject
  | messageNotObject (message : Text)
  | noRequest (message : Text)
  | requestNotList (message : Text)
  | parameterNotObject (message : Text)
  | noResponse (message : Text)
  | errorsNotList (message : Text)
  | oneWayNotBool (message : Text)
  | oneWayAnswers (message : Text)
  | inMessage (message : Text) (cause : SchemaError)
deriving DecidableEq, Repr

namespace SchemaError

def message : SchemaError → Text
  | .invalidJson cause => "avro: invalid JSON: " ++ cause.message
  | .undefinedName name => "avro: undefined name: " ++ name
  | .redefined name => "avro: can't redefine: " ++ name
  | .illegalName name => "avro: illegal name " ++ Text.quote name
  | .illegalSpace space => "avro: illegal namespace " ++ Text.quote space
  | .noSchema found => "avro: schema must be a string, array or object, got " ++ found
  | .noType => "avro: no type"
  | .noInner container key => "avro: " ++ container ++ " has no " ++ key ++ " type"
  | .noName kind => "avro: " ++ kind ++ " has no name"
  | .spaceNotText name => "avro: namespace of " ++ name ++ " must be a string"
  | .noFields owner => "avro: record " ++ owner ++ " has no fields"
  | .fieldsNotList owner => "avro: fields of " ++ owner ++ " must be an array"
  | .fieldNotObject owner => "avro: field of " ++ owner ++ " must be an object"
  | .duplicateField field owner => "avro: duplicate field " ++ field ++ " in " ++ owner
  | .notTexts key => "avro: " ++ key ++ " must be an array of strings"
  | .noSymbols owner => "avro: enum " ++ owner ++ " has no symbols"
  | .illegalSymbol symbol owner =>
    "avro: illegal enum symbol " ++ Text.quote symbol ++ " in " ++ owner
  | .duplicateSymbol symbol owner => "avro: duplicate enum symbol " ++ symbol ++ " in " ++ owner
  | .badEnumDefault owner => "avro: default of enum " ++ owner ++ " must be one of its symbols"
  | .noSize owner => "avro: fixed " ++ owner ++ " has no size"
  | .badSize size owner => "avro: invalid size " ++ size ++ " for fixed " ++ owner
  | .fieldNoName => "avro: field has no name"
  | .illegalField name => "avro: illegal field name " ++ Text.quote name
  | .fieldNoType name => "avro: field " ++ name ++ " has no type"
  | .badOrder order field => "avro: invalid order " ++ order ++ " for field " ++ field
  | .nestedUnion => "avro: nested union"
  | .duplicateBranch name => "avro: duplicate in union: " ++ name
  | .inRecord owner cause => cause.message ++ " (in " ++ owner ++ ")"
  | .noProtocol => "avro: protocol must be a JSON object"
  | .noProtocolName => "avro: no protocol name"
  | .typesNotList => "avro: protocol types must be an array"
  | .unnamedType kind => "avro: protocol types must be named, got " ++ kind
  | .messagesNotObject => "avro: protocol messages must be an object"
  | .messageNotObject message => "avro: message " ++ message ++ " must be an object"
  | .noRequest message => "avro: message " ++ message ++ " has no request"
  | .requestNotList message => "avro: request of message " ++ message ++ " must be an array"
  | .parameterNotObject message => "avro: parameter of message " ++ message ++ " must be an object"
  | .noResponse message => "avro: message " ++ message ++ " has no response"
  | .errorsNotList message => "avro: errors of message " ++ message ++ " must be an array"
  | .oneWayNotBool message => "avro: one-way of message " ++ message ++ " must be a boolean"
  | .oneWayAnswers message =>
    "avro: one-way message " ++ message ++ " can't have a response or errors"
  | .inMessage message cause => cause.message ++ " (in message " ++ message ++ ")"

def root : SchemaError → SchemaError
  | .inRecord _ cause => cause.root
  | .inMessage _ cause => cause.root
  | error => error

def undefined? (error : SchemaError) : Option Text :=
  match error.root with
  | .undefinedName name => some name
  | _ => none

def isUndefined (error : SchemaError) : Bool := error.undefined?.isSome

end SchemaError

end Avro
