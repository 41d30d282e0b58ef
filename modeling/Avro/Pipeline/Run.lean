import Avro.Pipeline.Steps

/-!
# The run

Dependencies are compiled and registered first. Each group is then compiled and registered on top of
them; after one group has failed, the others are canceled. Bindings are emitted at the end, so that
a failure before leaves none.
-/

set_option autoImplicit false

namespace Avro.Pipeline

structure Options where
  resolver : Resolver
  emitter : Option Emitter
  identifier : Text

def runSpan : Text := "avrogen.run"

def groupSpan : Text := "avrogen.group"

def sources (documents : List Document) : List Document := Document.ofKinds [.idl] documents

def registrable (documents : List Document) : List Document :=
  Document.ofKinds [.protocol, .schema] documents

def groupStages (options : Options) (fields : List LogField) (dependencies : Registry)
    (canceled : Bool) (group : Group) : Job GroupResult := do
  let context : StageContext := ⟨group.name, fields, groupSpan, canceled⟩
  let protocols ← Stage.compileGroup.run context
    (compileJob options.resolver .compileGroup fields (sources group.documents)
      group.protocolDirectory)
  let (types, count) ← Stage.registerGroup.run context
    (registerJob .registerGroup fields dependencies (registrable group.documents ++ protocols))
  Job.measure (·.set .registryTypes [group.name] types.size)
  return ⟨group.name, protocols, types, group.outputDirectory, !protocols.isEmpty || 0 < count⟩

def runGroup (options : Options) (fields : List LogField) (dependencies : Registry)
    (canceled : Bool) (group : Group) : Job GroupResult := do
  let result ← Job.outcome
    (groupStages options (fields ++ [.group group.name]) dependencies canceled group)
  let span : Span := ⟨groupSpan, runSpan, [("avrogen.group", group.name)], [], none⟩
  match result with
  | .ok result => do
    Job.endSpan span
    return result
  | .error failure => do
    Job.endSpan { span with failures := [failure.message] }
    throw failure

def runGroups (options : Options) (fields : List LogField) (dependencies : Registry)
    (failure : Option Failure) : List Group → Job (List GroupResult)
  | [] =>
    match failure with
    | some failure => throw failure
    | none => return []
  | group :: rest => do
    let result ← Job.outcome (runGroup options fields dependencies failure.isSome group)
    match result with
    | .ok result => do
      let others ← runGroups options fields dependencies failure rest
      return result :: others
    | .error later => runGroups options fields dependencies (failure <|> some later) rest

def emitGroup (emitter : Emitter) (fields : List LogField) (group : Group) (types : Registry) :
    Job Unit :=
  let request : EmitRequest :=
    ⟨group.name, Group.packageFor group.name group.package, group.outputDirectory, types⟩
  Stage.emit.run ⟨group.name, fields ++ [.group group.name], runSpan, false⟩ (do
    modify fun session => { session with requests := session.requests ++ [request] }
    emitter request)

def stages (options : Options) (fields : List LogField) (dependencies : DependencySet)
    (groups : List Group) : Job RunResult := do
  if let some fault := Group.fault? [] groups then throw (.groups fault)
  let context : StageContext := ⟨[], fields, runSpan, false⟩
  let protocols ← Stage.compileDependencies.run context
    (compileJob options.resolver .compileDependencies fields (sources dependencies.documents)
      dependencies.protocolDirectory)
  let (registry, count) ← Stage.registerDependencies.run context
    (registerJob .registerDependencies fields .empty
      (protocols ++ registrable dependencies.documents))
  Job.measure (·.set .registryTypes ["dependencies"] registry.size)
  let results ← runGroups options fields registry none groups
  match options.emitter with
  | none => pure ()
  | some emitter =>
    (List.zip groups results).forM fun (group, result) =>
      emitGroup emitter fields group result.types
  return ⟨options.identifier, registry, protocols, results,
    0 < count || results.any GroupResult.didWork⟩

def run (options : Options) (dependencies : DependencySet) (groups : List Group) :
    Job RunResult := do
  let fields : List LogField := [.run options.identifier]
  let result ← Job.outcome (stages options fields dependencies groups)
  let span : Span := ⟨runSpan, [], [("avrogen.run_id", options.identifier),
    ("avrogen.groups", Text.ofNat groups.length)], [], none⟩
  Job.measure (·.add .runDuration [] 1)
  match result with
  | .ok result => do
    Job.measure (·.add .runOutcomes ["success"] 1)
    Job.log .info "Run finished"
      (fields ++ [.ofText "did_work" (if result.didWork then "true" else "false"), .elapsed])
    Job.endSpan span
    return result
  | .error failure => do
    let session ← get
    Job.measure (·.add .runOutcomes [resultName session.canceled failure] 1)
    Job.log .error "Run failed" (fields ++ [.failure failure.message])
    Job.endSpan { span with failures := [failure.message], status := some failure.message }
    throw failure

end Avro.Pipeline
