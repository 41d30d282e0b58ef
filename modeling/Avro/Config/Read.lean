import Avro.Config.Basic
import Avro.Number.Shortest
import Avro.Dotenv
import Avro.FileTree
import Avro.Yaml.Setting

/-!
# Checking settings

Settings are checked in a fixed order, and the first fault counts.
-/

set_option autoImplicit false

namespace Avro.Config

inductive Fault where
  | unnamedGroup (index : Nat)
  | duplicateGroup (index : Nat) (name : Text)
  | negativeConcurrency (number : Int)
  | unknownLevel (level : Text)
  | unknownFormat (format : Text)
  | rateOutOfRange (rate : Number.Double)
deriving DecidableEq, Repr

def Fault.message : Fault → Text
  | .unnamedGroup index => "groups[" ++ Text.ofNat index ++ "]: name is required"
  | .duplicateGroup index name =>
    "groups[" ++ Text.ofNat index ++ "]: duplicate group " ++ Text.quote name
  | .negativeConcurrency number => "concurrency must not be negative, got " ++ Text.ofInt number
  | .unknownLevel level => "logging.level: unsupported level " ++ Text.quote level
  | .unknownFormat format => "logging.format: unsupported format " ++ Text.quote format
  | .rateOutOfRange rate => "tracing.sample_rate must be within [0,1], got " ++ rate.render

def groupFault? (index : Nat) (seen : List Text) : List GroupSettings → Option Fault
  | [] => none
  | group :: rest =>
    if (Text.trim group.name).isEmpty then some (.unnamedGroup index)
    else if group.name ∈ seen then some (.duplicateGroup index group.name)
    else groupFault? (index + 1) (group.name :: seen) rest

def formats : List Text := ["text", "json"]

def fault? (config : Config) : Option Fault :=
  groupFault? 0 [] config.groups <|>
    (if config.concurrency < 0 then some (.negativeConcurrency config.concurrency) else none) <|>
    (if (LogLevel.ofWord? config.level).isNone then some (.unknownLevel config.level) else none) <|>
    (if config.format ∉ formats then some (.unknownFormat config.format) else none) <|>
    (if config.tracing.rate.isBelowZero || config.tracing.rate.isAboveOne then
      some (.rateOutOfRange config.tracing.rate) else none)

/-!
## Reading settings

A settings file may refer to environment variables. A file of variables beside it adds to them, but
what the environment has set already stays. Names that are not known do not matter.
-/

def groupOf (view : Yaml.View) : Except Yaml.Fault (Option GroupSettings) := do
  match ← view.fields? with
  | none => return none
  | some fields =>
    return some {
      name := ← Yaml.setting fields "name" [] Yaml.View.text?
      sourceDirectory := ← Yaml.setting fields "source_dir" [] Yaml.View.text?
      protocolDirectory := ← Yaml.setting fields "protocol_dir" [] Yaml.View.text?
      outputDirectory := ← Yaml.setting fields "output_dir" [] Yaml.View.text?
      package := ← Yaml.setting fields "package" [] Yaml.View.text? }

def tracingOf (view : Yaml.View) : Except Yaml.Fault (Option TracingSettings) := do
  match ← view.fields? with
  | none => return none
  | some fields =>
    return some {
      enabled := ← Yaml.setting fields "enabled" false Yaml.View.bool?
      exporter := ← Yaml.setting fields "exporter" [] Yaml.View.text?
      endpoint := ← Yaml.setting fields "otlp_endpoint" [] Yaml.View.text?
      rate := ← Yaml.setting fields "sample_rate" .zero Yaml.View.double?
      service := ← Yaml.setting fields "service_name" [] Yaml.View.text? }

def ofYaml (view : Yaml.View) : Except Yaml.Fault Config := do
  let fields := (← view.fields?).getD []
  let dependencies ← Yaml.setting fields "dependencies" [] Yaml.View.fields?
  let logging ← Yaml.setting fields "logging" [] Yaml.View.fields?
  let metrics ← Yaml.setting fields "metrics" [] Yaml.View.fields?
  return {
    baseDirectory := []
    dependencyRoots := ← Yaml.setting dependencies "roots" [] (Yaml.View.list? Yaml.View.text?)
    dependencyProtocolDirectory := ← Yaml.setting dependencies "protocol_dir" [] Yaml.View.text?
    groups := ← Yaml.setting fields "groups" [] (Yaml.View.list? groupOf)
    importRoots := ← Yaml.setting fields "import_roots" [] (Yaml.View.list? Yaml.View.text?)
    concurrency := ← Yaml.setting fields "concurrency" 0 Yaml.View.int?
    emit := ← Yaml.setting fields "emit" none fun view => view.bool?.map some
    level := ← Yaml.setting logging "level" [] Yaml.View.text?
    format := ← Yaml.setting logging "format" [] Yaml.View.text?
    metricsFile := ← Yaml.setting metrics "textfile" [] Yaml.View.text?
    tracing := ← Yaml.setting fields "tracing" .empty tracingOf }

inductive LoadFailure where
  | missing (path : Text)
  | unreadable (fault : PathFault)
  | dotenv (path : Text) (fault : Dotenv.Fault)
  | document (fault : Yaml.Fault)
  | invalid (fault : Fault)
deriving DecidableEq, Repr

def LoadFailure.message : LoadFailure → Text
  | .missing path => "configuration file not found: " ++ path
  | .unreadable fault => "failed to read config file: " ++ fault.message
  | .dotenv path fault => "failed to load " ++ path ++ ": " ++ fault.message
  | .document fault => "failed to unmarshal config: " ++ fault.message
  | .invalid fault => fault.message

def dotenvPath (path : Text) : Text := Path.join [Path.parent path, ".env"]

def environmentFor (environment : Environment) (files : FileTree) (path : Text) :
    Except LoadFailure Environment :=
  match files.read (dotenvPath path) with
  | .error _ => .ok environment
  | .ok content =>
    match Dotenv.read content with
    | .ok more => .ok (environment.extend more)
    | .error fault => .error (.dotenv (dotenvPath path) fault)

def ofText (baseDirectory text : Text) : Except LoadFailure Config :=
  match Yaml.read text with
  | .error fault => .error (.document fault)
  | .ok view =>
    match ofYaml view with
    | .error fault => .error (.document fault)
    | .ok config =>
      let config := withDefaults { config with baseDirectory := baseDirectory }
      match config.fault? with
      | some fault => .error (.invalid fault)
      | none => .ok config

def load (environment : Environment) (files : FileTree) (path : Text) :
    Except LoadFailure Config :=
  match files.read path with
  | .error fault =>
    if fault.reason = .missing then .error (.missing path) else .error (.unreadable fault)
  | .ok content =>
    match environmentFor environment files path with
    | .error failure => .error failure
    | .ok environment => ofText (Path.parent path) (environment.expand content)

end Avro.Config
