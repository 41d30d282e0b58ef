import Avro.Binding.Render
import Avro.Document
import Avro.FileTree
import Avro.Idl.Fault
import Avro.Registry

/-!
# Failures

What can go wrong in a run, from the outside in: a stage fails because of a document, a conflict, a
file or a cancellation. Each layer says which of its things was concerned and keeps its cause.
-/

set_option autoImplicit false

namespace Avro

def canceledMessage : Text := "context canceled"

inductive IoCause where
  | path (fault : PathFault)
  | unsupportedExtension (extension : Text)
deriving DecidableEq, Repr, Inhabited

def IoCause.message : IoCause → Text
  | .path fault => fault.message
  | .unsupportedExtension extension => "unsupported extension " ++ Text.quote extension

structure IoFailure where
  operation : Text
  path : Text
  cause : IoCause
deriving DecidableEq, Repr, Inhabited

def IoFailure.message (failure : IoFailure) : Text :=
  failure.operation ++ " " ++ failure.path ++ ": " ++ failure.cause.message

structure ImportRequest where
  kind : DocumentKind
  reference : Text
  origin : Text
deriving DecidableEq, Repr, Inhabited

inductive FetchFailure where
  | canceled
  | io (failure : IoFailure)
  | unresolved (request : ImportRequest)
  | other (message : Text)
deriving DecidableEq, Repr, Inhabited

def FetchFailure.message : FetchFailure → Text
  | .canceled => canceledMessage
  | .io failure => failure.message
  | .unresolved request =>
    "unresolved import: " ++ request.kind.name ++ " " ++ Text.quote request.reference ++
      " from " ++ request.origin
  | .other message => message

inductive CompileCause where
  | source (error : Idl.Error FetchFailure)
  | schema (error : SchemaError)
  | producedTwice (base earlier : Text)
  | notRegistrable (kind : DocumentKind) (base : Text)
deriving Repr

def CompileCause.message : CompileCause → Text
  | .source error => error.message FetchFailure.message
  | .schema error => error.message
  | .producedTwice base earlier =>
    "protocol " ++ base ++ "." ++ DocumentKind.protocol.extension ++ " is also produced by " ++
      earlier
  | .notRegistrable kind base => "cannot register " ++ kind.name ++ " document " ++ base

def CompileCause.isUndefined : CompileCause → Bool
  | .schema error => error.isUndefined
  | _ => false

inductive GroupFault where
  | unnamed
  | duplicate (name : Text)
deriving DecidableEq, Repr, Inhabited

def GroupFault.message : GroupFault → Text
  | .unnamed => "avrogen: group without a name"
  | .duplicate name => "avrogen: duplicate group " ++ Text.quote name

inductive Failure where
  | canceled
  | io (failure : IoFailure)
  | compile (path : Text) (cause : CompileCause)
  | conflict (conflict : Conflict)
  | stage (stage group : Text) (cause : Failure)
  | groups (fault : GroupFault)
  | bindings (error : Binding.BuildError)
  | rendering (error : Binding.RenderError)
  | other (message : Text)
deriving Repr

namespace Failure

def message : Failure → Text
  | .canceled => canceledMessage
  | .io failure => failure.message
  | .compile path cause => "failed to compile " ++ path ++ ": " ++ cause.message
  | .conflict clash => clash.message
  | .stage name group cause =>
    name ++ (if group.isEmpty then ([] : Text) else " [" ++ group ++ "]") ++ ": " ++ message cause
  | .groups fault => fault.message
  | .bindings error => error.message
  | .rendering error => error.message
  | .other message => message

def inner : Failure → Failure
  | .stage _ _ cause => inner cause
  | failure => failure

def isStage : Failure → Bool
  | .stage _ _ _ => true
  | _ => false

def isCompile (failure : Failure) : Bool :=
  match failure.inner with
  | .compile _ _ => true
  | _ => false

def isConflict (failure : Failure) : Bool :=
  match failure.inner with
  | .conflict _ => true
  | _ => false

def io? (failure : Failure) : Option IoFailure :=
  match failure.inner with
  | .io failure => some failure
  | .compile _ (.source error) =>
    match error.unavailable? with
    | some (.io failure) => some failure
    | _ => none
  | _ => none

def isCanceled (failure : Failure) : Bool :=
  match failure.inner with
  | .canceled => true
  | .compile _ (.source error) =>
    match error.unavailable? with
    | some .canceled => true
    | _ => false
  | _ => false

end Failure

end Avro
