import Avro.Path
import Avro.Telemetry

/-!
# Settings

What a project says about itself: where its documents are, where results go, and how a run reports.
A text that is empty is not set; defaults fill in what is not set.
-/

set_option autoImplicit false

namespace Avro

structure GroupSettings where
  name : Text
  sourceDirectory : Text
  protocolDirectory : Text
  outputDirectory : Text
  package : Text
deriving DecidableEq, Repr, Inhabited

structure Config where
  baseDirectory : Text
  dependencyRoots : List Text
  dependencyProtocolDirectory : Text
  groups : List GroupSettings
  importRoots : List Text
  concurrency : Int
  emit : Option Bool
  level : Text
  format : Text
  metricsFile : Text
  tracing : TracingSettings
deriving DecidableEq, Repr

def Text.orElse (text fallback : Text) : Text := if text.isEmpty then fallback else text

namespace GroupSettings

def named (name : Text) : GroupSettings := ⟨name, [], [], [], []⟩

def withDefaults (group : GroupSettings) : GroupSettings :=
  let generated (kind : Text) : Text :=
    Path.join ["build", "generated-" ++ group.name ++ "-avro-" ++ kind]
  { group with
    sourceDirectory := group.sourceDirectory.orElse (Path.join ["src", group.name, "avro"])
    protocolDirectory := group.protocolDirectory.orElse (generated "avpr")
    outputDirectory := group.outputDirectory.orElse (generated "go") }

end GroupSettings

def TracingSettings.empty : TracingSettings := ⟨false, [], [], .zero, []⟩

def TracingSettings.withDefaults (tracing : TracingSettings) : TracingSettings :=
  { tracing with
    exporter := tracing.exporter.orElse "stdout"
    endpoint := tracing.endpoint.orElse "localhost:4317"
    rate := if tracing.rate.isZero then .one else tracing.rate
    service := tracing.service.orElse "avrogen" }

namespace Config

def defaultFile : Text := "avrogen.yaml"

def empty : Config := ⟨[], [], [], [], [], 0, none, [], [], [], .empty⟩

def withDefaults (config : Config) : Config :=
  let groups := if config.groups.isEmpty then [.named "main", .named "test"] else config.groups
  { config with
    baseDirectory := config.baseDirectory.orElse "."
    groups := groups.map GroupSettings.withDefaults
    dependencyProtocolDirectory :=
      config.dependencyProtocolDirectory.orElse (Path.join ["build", "generated-deps-avro-avpr"])
    emit := some (config.emit.getD true)
    level := config.level.orElse "info"
    format := config.format.orElse "text"
    tracing := config.tracing.withDefaults }

def default : Config := withDefaults empty

def path (config : Config) (path : Text) : Text :=
  if path.isEmpty || Path.isAbsolute path then path else Path.join [config.baseDirectory, path]

def emits (config : Config) : Bool := config.emit.getD true

def searchRoots (config : Config) : List Text :=
  let roots := config.importRoots ++ config.dependencyRoots ++ [config.dependencyProtocolDirectory]
  ((roots.filter fun root => !root.isEmpty).map config.path).foldl
    (fun seen root => if root ∈ seen then seen else seen ++ [root]) []

end Config

end Avro
