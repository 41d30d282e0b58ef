import Avro.Failure
import Avro.Idl.Compile
import Avro.Protocol.Tree

/-!
# Import resolution

Imported documents can come from anywhere. In the file tree or in memory, an import is looked for
beside the importing document first, then below each root. Without roots it is looked for where its
text says.
-/

set_option autoImplicit false

namespace Avro

namespace Document

def load (files : FileTree) (document : Document) : Except IoFailure Text :=
  match document.content with
  | some content => .ok content
  | none =>
    match files.read document.path with
    | .ok content => .ok content
    | .error fault => .error ⟨"read", document.path, .path fault⟩

def read (files : FileTree) (path : Text) : Except IoFailure Document :=
  match DocumentKind.ofPath? path with
  | none => .error ⟨"classify", path, .unsupportedExtension (Path.extension path)⟩
  | some kind =>
    match files.read path with
    | .ok content => .ok ⟨kind, path, some content⟩
    | .error fault => .error ⟨"read", path, .path fault⟩

end Document

/-- Where imported documents come from, given the file tree and whether the run is canceled. No more
than `limit` different documents are ever found. -/
structure Resolver where
  resolve : FileTree → Bool → ImportRequest → Except FetchFailure Document
  limit : FileTree → Nat

namespace Resolver

def candidates (request : ImportRequest) (roots : List Text) : List Text :=
  let reference := request.reference
  if Path.isAbsolute reference then [Path.clean reference]
  else
    (if request.origin.isEmpty then [] else [Path.join [Path.parent request.origin, reference]]) ++
      (if roots.isEmpty then [Path.clean reference]
        else roots.map fun root => Path.join [root, reference])

/-- The first candidate that is a file. Anything but absence ends the search. -/
def firstFile (files : FileTree) (request : ImportRequest) :
    List Text → Except FetchFailure Document
  | [] => .error (.unresolved request)
  | path :: rest =>
    match files.read path with
    | .ok content => .ok ⟨request.kind, path, some content⟩
    | .error fault =>
      if fault.reason = .missing then firstFile files request rest
      else .error (.io ⟨"read", path, .path fault⟩)

def firstInMemory (documents : List (Text × Option Text)) (request : ImportRequest) :
    List Text → Except FetchFailure Document
  | [] => .error (.unresolved request)
  | path :: rest =>
    match documents.lookup path with
    | some content => .ok ⟨request.kind, path, content⟩
    | none => firstInMemory documents request rest

/-- Files have a bound on their number. A file has one clean path from the root and at most one for
each number of steps up from the working directory, and no path has more than `FileTree.pathLimit`
of these. -/
def files (roots : List Text) : Resolver where
  resolve files canceled request :=
    if canceled then .error .canceled else firstFile files request (candidates request roots)
  limit files := files.fileCount * (FileTree.pathLimit + 2)

/-- A document in memory without content stands for the file at its path. -/
def memory (documents : List (Text × Option Text)) : Resolver where
  resolve _ _ request := firstInMemory documents request (candidates request [])
  limit _ := documents.length

def importedKind : Idl.ImportKind → DocumentKind
  | .idl => .idl
  | .protocol => .protocol
  | .schema => .schema

def importer (resolver : Resolver) (files : FileTree) (canceled : Bool) :
    Idl.Importer FetchFailure where
  fetch kind reference origin :=
    match resolver.resolve files canceled ⟨importedKind kind, reference, origin⟩ with
    | .error failure => .error failure
    | .ok document =>
      match document.load files with
      | .ok content => .ok ⟨document.path, content⟩
      | .error failure => .error (.io failure)
  limit := resolver.limit files

end Resolver

/-!
## Compiling documents

An interface definition becomes a protocol document, which is also written to a directory if one is
given.
-/

namespace Compiler

def protocolText (resolver : Resolver) (files : FileTree) (canceled : Bool) (path source : Text) :
    Except Failure Text :=
  match Idl.compile (some (resolver.importer files canceled)) path source with
  | .ok (protocol, catalog) => .ok (protocol.render catalog .spacious)
  | .error error => .error (.compile path (.source error))

def writeInto (files : FileTree) (directory name content : Text) :
    Except Failure (Text × FileTree) :=
  match files.makeDirectories directory with
  | .error fault => .error (.io ⟨"mkdir", directory, .path fault⟩)
  | .ok files =>
    let path := Path.join [directory, name]
    match files.write path content with
    | .error fault => .error (.io ⟨"write", path, .path fault⟩)
    | .ok files => .ok (path, files)

def compile (resolver : Resolver) (canceled : Bool) (files : FileTree) (document : Document)
    (directory : Text) : Except Failure (Document × FileTree) :=
  match document.load files with
  | .error failure => .error (.io failure)
  | .ok source =>
    match protocolText resolver files canceled document.path source with
    | .error failure => .error failure
    | .ok content =>
      if canceled then .error .canceled
      else
        let name := document.baseName ++ "." ++ DocumentKind.protocol.extension
        if directory.isEmpty then .ok (⟨.protocol, name, some content⟩, files)
        else
          match writeInto files directory name content with
          | .error failure => .error failure
          | .ok (path, files) => .ok (⟨.protocol, path, some content⟩, files)

end Compiler

end Avro
