import Avro.Idl.Declaration
import Avro.Idl.Lexer

/-!
# Compiling sources

A source declares one protocol. Whatever it imports shares its scope: imported types become types of
the protocol, and imported messages its messages. Each document is imported once, known by its clean
path, so imports may be circular; every import that is followed adds a path, so the number of
documents bounds how deep imports nest.
-/

set_option autoImplicit false

namespace Avro.Idl

/-- What a source shares with everything it imports: the scope, and the clean paths of the documents
read so far. -/
structure Session where
  scope : Scope
  imported : List Text
deriving Repr

structure Draft where
  session : Session
  messages : List Message
deriving Repr

abbrev ReadSource (Failure : Type) :=
  Session → Text → Text → Except (Error Failure) (Protocol × Session)

def includeDocument {Failure : Type} (readSource : ReadSource Failure) (draft : Draft)
    (kind : ImportKind) (document : Imported) : Except (Error Failure) Draft :=
  let session := draft.session
  match kind with
  | .idl => do
    let (protocol, session) ← readSource session document.path document.content
    return ⟨session, draft.messages ++ protocol.messages⟩
  | .protocol =>
    match Protocol.readDocument session.scope document.content with
    | .error error => .error (.refused error)
    | .ok (protocol, scope) =>
      .ok ⟨{ session with scope := scope }, draft.messages ++ protocol.messages⟩
  | .schema =>
    match Schema.readDocument session.scope document.content with
    | .error error => .error (.refused error)
    | .ok (_, scope) => .ok { draft with session := { session with scope := scope } }

def follow {Failure : Type} (importer : Option (Importer Failure))
    (readSource : ReadSource Failure) (path : Text) (draft : Draft) (kind : ImportKind)
    (reference : Text) : Except (Error Failure) Draft :=
  match importer with
  | none => .error (.importing kind reference path .noImporter)
  | some importer =>
    match importer.fetch kind reference path with
    | .error failure => .error (.importing kind reference path (.unavailable failure))
    | .ok document =>
      let key := Path.clean document.path
      if key ∈ draft.session.imported then .ok draft
      else
        let session := { draft.session with imported := key :: draft.session.imported }
        (includeDocument readSource { draft with session := session } kind document).mapError
          (.importing kind reference path)

def readImport (last : Token) (tokens : List Token) :
    Except Fault (Consumed tokens (ImportKind × Text)) := do
  let word ← acceptIdentifier last tokens
  match ImportKind.ofName? word.value.text with
  | none => .error ⟨word.value.position, .unknownImport word.value.text⟩
  | some kind => do
    let reference ← acceptString last word.rest
    let closing ← acceptMark ';' last reference.rest
    return ((word.andThen reference).andThen closing).give (kind, reference.value.text)

def readDeclaration (protocolSpace : Text) (draft : Draft) (last : Token) (tokens : List Token) :
    Except Fault (Consumed tokens Draft) := do
  let annotations ← readAnnotations last tokens
  let first := peek last tokens
  let doc := if first.doc.isEmpty then (peek last annotations.rest).doc else first.doc
  let front : Front := ⟨draft.session.scope, protocolSpace, doc, annotations.value⟩
  let withScope (scope : Scope) : Draft :=
    { draft with session := { draft.session with scope := scope } }
  let declared (scope : Consumed annotations.skip.rest Scope) : Consumed tokens Draft :=
    (annotations.skip.andThen scope).give (withScope scope.value)
  match annotations.rest.head? with
  | none => .error ⟨first.position, .expectedDeclaration last.describe⟩
  | some token =>
    if token.isKeyword "record" || token.isKeyword "error" then
      (readRecord front (token.text = "error") last annotations.skip.rest).map declared
    else if token.isKeyword "enum" then (readEnum front last annotations.skip.rest).map declared
    else if token.isKeyword "fixed" then (readFixed front last annotations.skip.rest).map declared
    else if token.kind = .identifier then
      (readMessage front draft.messages last annotations.rest).map fun message =>
        (annotations.andThen message).give
          { draft with messages := draft.messages ++ [message.value] }
    else .error ⟨first.position, .expectedDeclaration token.describe⟩

def readDeclarations {Failure : Type}
    (followImport : Draft → ImportKind → Text → Except (Error Failure) Draft)
    (path protocolSpace name : Text) (last : Token) (draft : Draft) (tokens : List Token) :
    Except (Error Failure) (Draft × List Token) :=
  match tokens with
  | [] => .error (.malformed path ⟨last.position, .endInProtocol name⟩)
  | token :: rest =>
    if token.isMark '\x7d' then .ok (draft, rest)
    else if token.isKeyword "import" then
      match readImport last rest with
      | .error fault => .error (.malformed path fault)
      | .ok statement =>
        match followImport draft statement.value.1 statement.value.2 with
        | .error error => .error error
        | .ok draft =>
          readDeclarations followImport path protocolSpace name last draft statement.rest
    else
      match readDeclaration protocolSpace draft last (token :: rest) with
      | .error fault => .error (.malformed path fault)
      | .ok declared =>
        readDeclarations followImport path protocolSpace name last declared.value declared.rest
termination_by tokens.length
decreasing_by
  · exact statement.later.shorter
  · exact declared.shorter

structure ProtocolHead where
  name : FullName
  doc : Text
  props : Members
deriving Repr

def annotateProtocol (position : Position) (head : ProtocolHead) (entry : Text × Json) :
    Except Fault ProtocolHead :=
  let (key, value) := entry
  if key = "namespace" then
    match value with
    | .str space => .ok { head with name := { head.name with space := space } }
    | _ => .error ⟨position, .spaceNotText⟩
  else .ok { head with props := head.props.set key value }

def readHead (last : Token) (tokens : List Token) :
    Except Fault (Consumed tokens ProtocolHead) := do
  let annotations ← readAnnotations last tokens
  let keyword ← acceptKeyword "protocol" last annotations.rest
  let first := (peek last tokens).doc
  let doc := if first.isEmpty then keyword.value.doc else first
  let name ← acceptIdentifier last keyword.rest
  require (Name.isLegal name.value.text) ⟨name.value.position, .illegalProtocol name.value.text⟩
  let plain : ProtocolHead := ⟨⟨[], name.value.text⟩, doc, []⟩
  let head ← annotations.value.foldlM (annotateProtocol keyword.value.position) plain
  let opening ← acceptMark '\x7b' last name.rest
  return (((annotations.andThen keyword).andThen name).andThen opening).give head

def readProtocol {Failure : Type}
    (followImport : Draft → ImportKind → Text → Except (Error Failure) Draft)
    (session : Session) (path : Text) (tokens : List Token) (last : Token) :
    Except (Error Failure) (Protocol × Session) :=
  match readHead last tokens with
  | .error fault => .error (.malformed path fault)
  | .ok head =>
    let name := head.value.name
    match readDeclarations followImport path name.space name.simple last ⟨session, []⟩
        head.rest with
    | .error error => .error error
    | .ok (_, token :: _) =>
      .error (.malformed path ⟨token.position, .afterProtocol token.describe⟩)
    | .ok (draft, []) =>
      let protocol : Protocol := {
        name := name
        doc := head.value.doc
        props := head.value.props
        types := []
        messages := draft.messages }
      .ok (protocol, draft.session)

def readSource {Failure : Type} (importer : Option (Importer Failure)) : Nat → ReadSource Failure
  | 0, _, _, _ => .error .tooManyDocuments
  | depth + 1, session, path, source =>
    match lex source with
    | .error fault => .error (.malformed path fault)
    | .ok (tokens, last) =>
      readProtocol (follow importer (readSource importer depth) path) session path tokens last

/-- Compiles a source: the protocol with all its types, and the catalog they are defined in, which
continues the given one. -/
def compileAfter {Failure : Type} (catalog : Catalog) (importer : Option (Importer Failure))
    (path source : Text) : Except (Error Failure) (Protocol × Catalog) := do
  let depth := 1 + importer.elim 0 (·.limit)
  let session : Session := ⟨.start catalog [], [Path.clean path]⟩
  let (protocol, session) ← readSource importer depth session path source
  return ({ protocol with types := session.scope.defined }, session.scope.catalog)

def compile {Failure : Type} (importer : Option (Importer Failure)) (path source : Text) :
    Except (Error Failure) (Protocol × Catalog) := compileAfter [] importer path source

end Avro.Idl
