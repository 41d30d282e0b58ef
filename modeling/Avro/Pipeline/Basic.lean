import Avro.Failure
import Avro.Telemetry

/-!
# Runs

A run takes dependency documents, and groups of documents that each build on them. Its state is the
file tree, whether it was canceled, and what it reports about itself.
-/

set_option autoImplicit false

namespace Avro

inductive Stage where
  | compileDependencies
  | registerDependencies
  | compileGroup
  | registerGroup
  | emit
deriving DecidableEq, Repr, Inhabited

def Stage.name : Stage → Text
  | .compileDependencies => "compile-dependency-protocols"
  | .registerDependencies => "register-dependency-types"
  | .compileGroup => "compile-group-protocols"
  | .registerGroup => "register-group-types"
  | .emit => "emit"

structure DependencySet where
  documents : List Document
  protocolDirectory : Text
deriving Repr, Inhabited

structure Group where
  name : Text
  documents : List Document
  protocolDirectory : Text
  outputDirectory : Text
  package : Text
deriving Repr, Inhabited

namespace Group

def packageFor (name package : Text) : Text := if package.isEmpty then name ++ "avro" else package

def fault? (seen : List Text) : List Group → Option GroupFault
  | [] => none
  | group :: rest =>
    if group.name.isEmpty then some .unnamed
    else if group.name ∈ seen then some (.duplicate group.name)
    else fault? (group.name :: seen) rest

end Group

structure GroupResult where
  name : Text
  protocols : List Document
  types : Registry
  outputDirectory : Text
  didWork : Bool
deriving Repr, Inhabited

structure RunResult where
  identifier : Text
  dependencies : Registry
  dependencyProtocols : List Document
  groups : List GroupResult
  didWork : Bool
deriving Repr, Inhabited

def RunResult.group? (result : RunResult) (name : Text) : Option GroupResult :=
  result.groups.find? fun group => group.name = name

structure EmitRequest where
  group : Text
  package : Text
  outputDirectory : Text
  types : Registry
deriving Repr, Inhabited

structure Session where
  files : FileTree
  canceled : Bool
  records : List LogRecord
  metrics : Metrics
  spans : List Span
  requests : List EmitRequest
deriving Repr, Inhabited

def Session.start (files : FileTree) (canceled : Bool) : Session :=
  ⟨files, canceled, [], .start, [], []⟩

/-- A step of a run. Its effects remain if it fails. -/
abbrev Job := ExceptT Failure (StateM Session)

namespace Job

def log (level : LogLevel) (message : Text) (fields : List LogField) : Job Unit :=
  modify fun session => { session with records := session.records ++ [⟨level, message, fields⟩] }

def measure (change : Metrics → Metrics) : Job Unit :=
  modify fun session => { session with metrics := change session.metrics }

def endSpan (span : Span) : Job Unit :=
  modify fun session => { session with spans := session.spans ++ [span] }

def outcome {α : Type} (job : Job α) : Job (Except Failure α) :=
  ExceptT.mk (do
    let result ← ExceptT.run job
    return .ok result)

end Job

def resultName (canceled : Bool) (failure : Failure) : Text :=
  if canceled || failure.isCanceled then "canceled" else "failed"

/-!
## Stages

A stage is a step with a name. It reports its start, its end and how it ended, and wraps what went
wrong. It does nothing once the run, or the group that it belongs to, was canceled.
-/

structure StageContext where
  group : Text
  fields : List LogField
  parent : Text
  canceled : Bool
deriving Repr, Inhabited

def StageContext.isCanceled (context : StageContext) : Job Bool := do
  let session ← get
  return context.canceled || session.canceled

def Stage.run {α : Type} (stage : Stage) (context : StageContext) (work : Job α) : Job α := do
  let fields := context.fields ++ [.stage stage.name]
  let span : Span := ⟨stage.name, context.parent, [("avrogen.stage", stage.name)], [], none⟩
  Job.log .info "Stage started" fields
  let result ← Job.outcome (do
    if ← context.isCanceled then throw .canceled
    work)
  Job.measure (·.add .stageDuration [stage.name] 1)
  match result with
  | .ok value => do
    Job.measure (·.add .stageResults ["success", stage.name] 1)
    Job.log .info "Stage finished" (fields ++ [.elapsed])
    Job.endSpan span
    return value
  | .error failure => do
    let canceled ← context.isCanceled
    Job.measure (·.add .stageResults [resultName canceled failure, stage.name] 1)
    Job.log .error "Stage failed" (fields ++ [.failure failure.message])
    Job.endSpan { span with failures := [failure.message], status := some failure.message }
    throw (.stage stage.name context.group failure)

end Avro
