import Avro.Path

/-!
# Documents

A document is a file in one of three formats: interface definitions, protocols and schemas. Its
format is told by the extension of its path.
-/

set_option autoImplicit false

namespace Avro

/-- The format of a document. A code beyond the three formats stands for no format at all. -/
inductive DocumentKind where
  | idl
  | protocol
  | schema
  | unknown (code : Int)
deriving DecidableEq, Repr, Inhabited

namespace DocumentKind

def ofCode (code : Int) : DocumentKind :=
  if code = 0 then .idl else if code = 1 then .protocol else if code = 2 then .schema
  else .unknown code

def name : DocumentKind → Text
  | .idl => "idl"
  | .protocol => "protocol"
  | .schema => "schema"
  | .unknown code => "Kind(" ++ Text.ofInt code ++ ")"

def formats : List DocumentKind := [.idl, .protocol, .schema]

def ofName? (name : Text) : Option DocumentKind := formats.find? fun kind => kind.name = name

def extension : DocumentKind → Text
  | .idl => "avdl"
  | .protocol => "avpr"
  | _ => "avsc"

def ofPath? (path : Text) : Option DocumentKind :=
  formats.find? fun kind => Path.extension path = "." ++ kind.extension

end DocumentKind

/-- A document. One without content has yet to be read from its path. -/
structure Document where
  kind : DocumentKind
  path : Text
  content : Option Text
deriving DecidableEq, Repr, Inhabited

namespace Document

def baseName (document : Document) : Text :=
  let base := Path.base document.path
  Text.dropEnding base (Path.extension base)

def ofKinds (kinds : List DocumentKind) (documents : List Document) : List Document :=
  documents.filter fun document => document.kind ∈ kinds

end Document

end Avro
