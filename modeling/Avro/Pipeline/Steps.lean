import Avro.Compiler
import Avro.Pipeline.Basic

/-!
# Steps of a run

Documents are compiled, registered and emitted.
-/

set_option autoImplicit false

namespace Avro.Pipeline

/-!
## Compiling many documents

Documents are compiled in order into one directory. Their base names have to differ, since the
protocols are named for them. What was written before a failure remains.
-/

structure Compiled where
  files : FileTree
  protocols : List (Document × Document)
  failure : Option Failure
deriving Repr

def producedTwice? (seen : List (Text × Text)) : List Document → Option Failure
  | [] => none
  | document :: rest =>
    let base := document.baseName
    match seen.lookup base with
    | some earlier => some (.compile document.path (.producedTwice base earlier))
    | none => producedTwice? ((base, document.path) :: seen) rest

def compileEach (resolver : Resolver) (directory : Text) (files : FileTree) :
    List Document → Compiled
  | [] => ⟨files, [], none⟩
  | document :: rest =>
    match Compiler.compile resolver false files document directory with
    | .error failure => ⟨files, [], some failure⟩
    | .ok (protocol, files) =>
      let compiled := compileEach resolver directory files rest
      { compiled with protocols := (document, protocol) :: compiled.protocols }

def compileAll (resolver : Resolver) (directory : Text) (files : FileTree)
    (documents : List Document) : Compiled :=
  match producedTwice? [] documents with
  | some failure => ⟨files, [], some failure⟩
  | none => compileEach resolver directory files documents

def compileJob (resolver : Resolver) (stage : Stage) (fields : List LogField)
    (documents : List Document) (directory : Text) : Job (List Document) := do
  let session ← get
  let compiled := compileAll resolver directory session.files documents
  set { session with files := compiled.files }
  compiled.protocols.forM fun (document, protocol) =>
    Job.log .debug "Compiled protocol" (fields ++ [.document document.path, .output protocol.path])
  match compiled.failure with
  | some failure => throw failure
  | none => do
    Job.measure (·.add .documents [stage.name] documents.length)
    return compiled.protocols.map Prod.snd

/-!
## Registering documents

Documents are registered in order. One that refers to a type which is not there yet waits for the
next pass over those that wait; a pass in which all of them wait is the end.
-/

inductive Attempt where
  | merged (registry : Registry) (count : Nat)
  | waiting (failure : Failure)
  | failed (failure : Failure)
deriving Repr

def readBatch (registry : Registry) (document : Document) (content : Text) :
    Except CompileCause Batch :=
  match document.kind with
  | .protocol => (registry.readProtocol document.path content).mapError .schema
  | .schema => (registry.readSchema document.path content).mapError .schema
  | kind => .error (.notRegistrable kind (Path.base document.path))

def attempt (files : FileTree) (registry : Registry) (document : Document) : Attempt :=
  match document.load files with
  | .error failure => .failed (.io failure)
  | .ok content =>
    match readBatch registry document content with
    | .error cause =>
      let failure := Failure.compile document.path cause
      if cause.isUndefined then .waiting failure else .failed failure
    | .ok batch =>
      match registry.merge batch with
      | .error conflict => .failed (.conflict conflict)
      | .ok registry => .merged registry batch.types.length

/-- One pass over documents: the registry after it, the paths of registered documents with the
numbers of their types, the documents that wait and why, and the failure that ended it. -/
structure Pass where
  registry : Registry
  registered : List (Text × Nat)
  waiting : List (Document × Failure)
  failure : Option Failure
deriving Repr

def pass (files : FileTree) (registry : Registry) : List Document → Pass
  | [] => ⟨registry, [], [], none⟩
  | document :: rest =>
    match attempt files registry document with
    | .failed failure => ⟨registry, [], [], some failure⟩
    | .waiting failure =>
      let after := pass files registry rest
      { after with waiting := (document, failure) :: after.waiting }
    | .merged registry count =>
      let after := pass files registry rest
      { after with registered := (document.path, count) :: after.registered }

structure Registration where
  registered : List (Text × Nat)
  result : Except Failure Registry

def register (files : FileTree) (registry : Registry) (documents : List Document) : Registration :=
  let after := pass files registry documents
  match after.failure, after.waiting with
  | some failure, _ => ⟨after.registered, .error failure⟩
  | none, [] => ⟨after.registered, .ok after.registry⟩
  | none, (first, failure) :: others =>
    if _fewer : others.length + 1 < documents.length then
      let rest := register files after.registry (first :: others.map Prod.fst)
      { rest with registered := after.registered ++ rest.registered }
    else ⟨after.registered, .error failure⟩
termination_by documents.length
decreasing_by simpa using _fewer

def registerJob (stage : Stage) (fields : List LogField) (registry : Registry)
    (documents : List Document) : Job (Registry × Nat) := do
  let session ← get
  let registration := register session.files registry documents
  registration.registered.forM fun (path, count) =>
    Job.log .debug "Registered document" (fields ++ [.document path, .count count])
  match registration.result with
  | .error failure => throw failure
  | .ok registry => do
    let count := registration.registered.length
    Job.measure (·.add .documents [stage.name] count)
    return (registry, count)

end Avro.Pipeline

/-!
## Emitting bindings

An emitter gets the types of a group. The Go emitter writes one file of bindings per group.
-/

namespace Avro

abbrev Emitter := EmitRequest → Job Unit

namespace Emitter

def goFileName (group : Text) : Text := group ++ "_avro.go"

def offers (registry : Registry) : List Binding.Offer :=
  registry.entries.map fun entry =>
    match entry.type with
    | some type => .named type
    | none => .unsupported "string"

def goSource (request : EmitRequest) : Except Failure Text :=
  match Binding.build request.types.catalog request.package (offers request.types) with
  | .error error => .error (.bindings error)
  | .ok file =>
    match Binding.render { file with source := "avrogen group " ++ request.group } with
    | .error error => .error (.rendering error)
    | .ok source => .ok source

def writeGo (files : FileTree) (request : EmitRequest) : Except Failure FileTree :=
  match goSource request with
  | .error failure => .error failure
  | .ok source =>
    match Compiler.writeInto files request.outputDirectory (goFileName request.group) source with
    | .error failure => .error failure
    | .ok (_, files) => .ok files

def go : Emitter := fun request => do
  let session ← get
  if session.canceled then throw .canceled
  match writeGo session.files request with
  | .error failure => throw failure
  | .ok files => set { session with files := files }

end Emitter

end Avro
