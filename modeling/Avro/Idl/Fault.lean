import Avro.Schema.Error
import Avro.Path

/-!
# Tokens of the interface language

A token keeps its meaning, the text it was read from, its position and the documentation comment
before it.
-/

set_option autoImplicit false

namespace Avro.Idl

structure Position where
  line : Nat
  column : Nat
deriving DecidableEq, Repr

namespace Position

def start : Position := ⟨1, 1⟩

def advance (position : Position) (cell : Cell) : Position :=
  if cell.isChar '\n' then ⟨position.line + 1, 1⟩ else ⟨position.line, position.column + 1⟩

def past (position : Position) (text : Text) : Position := text.foldl advance position

end Position

inductive TokenKind where
  | endOfFile
  | identifier
  | string
  | number
  | punctuation
deriving DecidableEq, Repr

def TokenKind.name : TokenKind → Text
  | .endOfFile => "end of file"
  | .identifier => "identifier"
  | .string => "string"
  | .number => "number"
  | .punctuation => "punctuation"

/-- A token. A quoted identifier is never a keyword. -/
structure Token where
  kind : TokenKind
  text : Text
  raw : Text
  doc : Text
  quoted : Bool
  position : Position
deriving DecidableEq, Repr

namespace Token

def isMark (token : Token) (mark : Char) : Bool :=
  token.kind = .punctuation && token.text = [.scalar mark]

def isKeyword (token : Token) (word : Text) : Bool :=
  token.kind = .identifier && !token.quoted && token.text = word

def describe (token : Token) : Text :=
  if token.kind = .endOfFile then "end of file" else Text.quote token.raw

end Token

/-!
## Faults of sources

What can be wrong in a source of the interface language, where, and how it is worded.
-/

/-- What is wrong. Texts called `found` describe the token that stands there. -/
inductive Problem where
  | openComment
  | openName
  | openString
  | badUnicode
  | badEscape (cell : Cell)
  | badCharacter (cell : Cell)
  | expectedMark (mark : Char) (found : Text)
  | expectedKeyword (word found : Text)
  | expectedIdentifier (found : Text)
  | expectedString (found : Text)
  | expectedInteger (found : Text)
  | expectedDeclaration (found : Text)
  | expectedJson (found : Text)
  | expectedSeparator (closing : Char) (found : Text)
  | endInProtocol (name : Text)
  | endInRecord (name : Text)
  | afterProtocol (found : Text)
  | illegalProtocol (name : Text)
  | illegalName (name : Text)
  | illegalField (name : Text)
  | illegalMessage (name : Text)
  | spaceNotText
  | aliasesNotTexts
  | badOrder
  | unknownImport (kind : Text)
  | refused (cause : SchemaError)
  | duplicateField (field owner : Text)
  | badSymbol (symbol : Text)
  | notASymbol (symbol owner : Text)
  | duplicateMessage (name : Text)
  | oneWayAnswers (name : Text)
  | undefinedName (name : Text)
  | notAnError (name : Text)
  | annotatedTwice (name : Text)
  | badNumber (literal : Text)
  | badInteger (literal : Text)
  | duplicateKey (key : Text)
deriving DecidableEq, Repr

namespace Problem

def message : Problem → Text
  | .openComment => "unterminated comment"
  | .openName => "unterminated quoted identifier"
  | .openString => "unterminated string"
  | .badUnicode => "invalid unicode escape"
  | .badEscape cell => "invalid escape \\" ++ [Cell.scalar cell.shown]
  | .badCharacter cell => "unexpected character " ++ Text.quoteOne cell
  | .expectedMark mark found => "expected " ++ Text.quote [.scalar mark] ++ ", found " ++ found
  | .expectedKeyword word found => "expected " ++ Text.quote word ++ ", found " ++ found
  | .expectedIdentifier found => "expected identifier, found " ++ found
  | .expectedString found => "expected string literal, found " ++ found
  | .expectedInteger found => "expected integer, found " ++ found
  | .expectedDeclaration found => "expected declaration, found " ++ found
  | .expectedJson found => "expected JSON value, found " ++ found
  | .expectedSeparator closing found =>
    "expected \",\" or " ++ Text.quote [.scalar closing] ++ ", found " ++ found
  | .endInProtocol name => "unexpected end of file in protocol " ++ name
  | .endInRecord name => "unexpected end of file in record " ++ name
  | .afterProtocol found => "unexpected " ++ found ++ " after protocol"
  | .illegalProtocol name => "illegal protocol name " ++ Text.quote name
  | .illegalName name => "illegal name " ++ Text.quote name
  | .illegalField name => "illegal field name " ++ Text.quote name
  | .illegalMessage name => "illegal message name " ++ Text.quote name
  | .spaceNotText => "@namespace must be a string"
  | .aliasesNotTexts => "@aliases must be an array of strings"
  | .badOrder => "invalid @order value"
  | .unknownImport kind => "unknown import kind " ++ Text.quote kind
  | .refused cause => cause.message
  | .duplicateField field owner => "duplicate field " ++ field ++ " in " ++ owner
  | .badSymbol symbol => "illegal or duplicate enum symbol " ++ Text.quote symbol
  | .notASymbol symbol owner =>
    "enum default " ++ Text.quote symbol ++ " is not a symbol of " ++ owner
  | .duplicateMessage name => "duplicate message " ++ name
  | .oneWayAnswers name => "one-way message " ++ name ++ " must return void"
  | .undefinedName name => "undefined name: " ++ name
  | .notAnError name => name ++ " is not an error type"
  | .annotatedTwice name => "duplicate annotation @" ++ name
  | .badNumber literal => "invalid number " ++ literal
  | .badInteger literal => "invalid integer " ++ literal
  | .duplicateKey key => "duplicate key " ++ Text.quote key

end Problem

structure Fault where
  position : Position
  problem : Problem
deriving DecidableEq, Repr

def Fault.message (fault : Fault) (file : Text) : Text :=
  file ++ ":" ++ Text.ofNat fault.position.line ++ ":" ++
    Text.ofNat fault.position.column ++ ": " ++
    fault.problem.message

/-!
## Imports

An import statement names a document and says how to read it. An importer finds the document; what
can go wrong there is the importer's own affair, so it is a parameter of the errors here.
-/

inductive ImportKind where
  | idl
  | protocol
  | schema
deriving DecidableEq, Repr

namespace ImportKind

def name : ImportKind → Text
  | .idl => "idl"
  | .protocol => "protocol"
  | .schema => "schema"

def ofName? (name : Text) : Option ImportKind :=
  [ImportKind.idl, .protocol, .schema].find? fun kind => kind.name = name

end ImportKind

structure Imported where
  path : Text
  content : Text
deriving DecidableEq, Repr

/-- Finds documents for import statements, given the kind, the reference as written and the path of
the importing document. No more than `limit` different documents are ever found. -/
structure Importer (Failure : Type) where
  fetch : ImportKind → Text → Text → Except Failure Imported
  limit : Nat

inductive Error (Failure : Type) where
  | malformed (file : Text) (fault : Fault)
  | refused (cause : SchemaError)
  | noImporter
  | unavailable (failure : Failure)
  | tooManyDocuments
  | importing (kind : ImportKind) (reference origin : Text) (cause : Error Failure)
deriving Repr

namespace Error

def message {Failure : Type} (failureMessage : Failure → Text) : Error Failure → Text
  | .malformed file fault => fault.message file
  | .refused cause => cause.message
  | .noImporter => "no import resolver configured"
  | .unavailable failure => failureMessage failure
  | .tooManyDocuments => "too many imported documents"
  | .importing kind reference origin cause =>
    origin ++ ": import " ++ kind.name ++ " " ++ Text.quote reference ++ ": " ++
      message failureMessage cause

def unavailable? {Failure : Type} : Error Failure → Option Failure
  | .unavailable failure => some failure
  | .importing _ _ _ cause => unavailable? cause
  | _ => none

end Error

end Avro.Idl
