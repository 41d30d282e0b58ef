import Avro.Json.Write
import Avro.Number.Decimal

/-!
# Telemetry

What a run reports about itself: spans, log records and metrics.
-/

set_option autoImplicit false

namespace Avro

/-!
## Spans

A span is a piece of work inside another one, with the failures that were noted for it.
-/

structure Span where
  name : Text
  parent : Text
  attributes : List (Text × Text)
  failures : List Text
  status : Option Text
deriving DecidableEq, Repr, Inhabited

/-!
## Log records

A record has a level, a message and fields.
-/

inductive LogLevel where
  | debug
  | info
  | warn
  | error
deriving DecidableEq, Repr, Inhabited

namespace LogLevel

def name : LogLevel → Text
  | .debug => "DEBUG"
  | .info => "INFO"
  | .warn => "WARN"
  | .error => "ERROR"

def rank : LogLevel → Nat
  | .debug => 0
  | .info => 1
  | .warn => 2
  | .error => 3

def words : List (Text × LogLevel) :=
  [("debug", .debug), ("info", .info), ([], .info), ("warn", .warn), ("warning", .warn),
    ("error", .error)]

def ofWord? (word : Text) : Option LogLevel :=
  words.lookup ((Text.trim word).map fun
    | .scalar char => .scalar (Text.toLower char)
    | cell => cell)

def isKept (level least : LogLevel) : Bool := least.rank ≤ level.rank

end LogLevel

inductive LogValue where
  | text (value : Text)
  | elapsed
deriving DecidableEq, Repr, Inhabited

structure LogField where
  key : Text
  value : LogValue
deriving DecidableEq, Repr, Inhabited

namespace LogField

def ofText (key value : Text) : LogField := ⟨key, .text value⟩

def run (identifier : Text) : LogField := ofText "run_id" identifier

def stage (name : Text) : LogField := ofText "stage" name

def group (name : Text) : LogField := ofText "group" name

def document (path : Text) : LogField := ofText "document" path

def kind (name : Text) : LogField := ofText "kind" name

def typeName (name : Text) : LogField := ofText "type_name" name

def count (number : Int) : LogField := ofText "count" (Text.ofInt number)

def output (path : Text) : LogField := ofText "output" path

def failure (message : Text) : LogField := ofText "error" message

def elapsed : LogField := ⟨"duration_ms", .elapsed⟩

end LogField

structure LogRecord where
  level : LogLevel
  message : Text
  fields : List LogField
deriving DecidableEq, Repr, Inhabited

/-!
## Lines of a log

A record is written as pairs of keys and values, or as one JSON object. The level and the message
come first.
-/

namespace LogRecord

def pairs (record : LogRecord) : List (Text × Text) :=
  ("level", record.level.name) :: ("msg", record.message) ::
    record.fields.map fun field =>
      match field.value with
      | .text value => (field.key, value)
      | .elapsed => (field.key, "0")

def isBare (value : Text) : Bool :=
  !value.isEmpty && value.all fun cell =>
    match cell with
    | .scalar char => '!' ≤ char && char ≤ '~' && char ≠ '=' && char ≠ '"'
    | .stray _ => false

def line (json : Bool) (record : LogRecord) : Text :=
  if json then
    (Json.obj (record.pairs.map fun (key, value) => (key, .str value))).render .compact
  else
    Text.join " " (record.pairs.map fun (key, value) =>
      key ++ "=" ++ if isBare value then value else Text.quote value)

end LogRecord

/-!
## Metrics

Counts, sizes and numbers of observed durations, each by the values of its labels. Metrics come in
the order of their names, and within a metric in the order of the label values.
-/

inductive Metric where
  | documents
  | registryTypes
  | runDuration
  | runOutcomes
  | stageDuration
  | stageResults
deriving DecidableEq, Repr, Inhabited

namespace Metric

def all : List Metric :=
  [.documents, .registryTypes, .runDuration, .runOutcomes, .stageDuration, .stageResults]

def name : Metric → Text
  | .documents => "avrogen_documents_processed_total"
  | .registryTypes => "avrogen_registry_types"
  | .runDuration => "avrogen_run_duration_seconds"
  | .runOutcomes => "avrogen_run_outcomes_total"
  | .stageDuration => "avrogen_stage_duration_seconds"
  | .stageResults => "avrogen_stage_results_total"

def help : Metric → Text
  | .documents => "Documents compiled or registered, by stage"
  | .registryTypes => "Number of registered types per scope after registration"
  | .runDuration => "Total pipeline run duration"
  | .runOutcomes => "Pipeline runs by final status"
  | .stageDuration => "Duration of individual pipeline stages"
  | .stageResults => "Stage result counts by outcome"

def kind : Metric → Text
  | .registryTypes => "gauge"
  | .runDuration => "histogram"
  | .stageDuration => "histogram"
  | _ => "counter"

def labels : Metric → List Text
  | .documents => ["stage"]
  | .registryTypes => ["scope"]
  | .runDuration => []
  | .runOutcomes => ["outcome"]
  | .stageDuration => ["stage"]
  | .stageResults => ["result", "stage"]

end Metric

structure Sample where
  metric : Metric
  labels : List Text
  value : Int
deriving DecidableEq, Repr, Inhabited

def Sample.labelPairs (sample : Sample) : List (Text × Text) :=
  List.zip sample.metric.labels sample.labels

abbrev Metrics := List Sample

namespace Metrics

def start : Metrics := [⟨.runDuration, [], 0⟩]

def update (metric : Metric) (labels : List Text) (change : Int → Int) : Metrics → Metrics
  | [] => [⟨metric, labels, change 0⟩]
  | sample :: rest =>
    if sample.metric = metric && sample.labels = labels then
      { sample with value := change sample.value } :: rest
    else sample :: update metric labels change rest

def add (metrics : Metrics) (metric : Metric) (labels : List Text) (amount : Int) : Metrics :=
  metrics.update metric labels (· + amount)

def set (metrics : Metrics) (metric : Metric) (labels : List Text) (value : Int) : Metrics :=
  metrics.update metric labels fun _ => value

def labelsBefore : List Text → List Text → Bool
  | [], other => !other.isEmpty
  | _ :: _, [] => false
  | left :: rest, right :: others =>
    if left = right then labelsBefore rest others else Text.before left right

def samplesOf (metrics : Metrics) (metric : Metric) : List Sample :=
  (metrics.filter fun sample => sample.metric = metric).mergeSort fun left right =>
    !labelsBefore right.labels left.labels

def sorted (metrics : Metrics) : List Sample := Metric.all.flatMap metrics.samplesOf

def writeLabel (value : Text) : Text :=
  "\"" ++ (Text.sanitize value).flatMap (fun cell =>
    if cell.isChar '\\' then "\\\\" else if cell.isChar '"' then "\\\""
    else if cell.isChar '\n' then "\\n" else [cell]) ++ "\""

def writeLabels (pairs : List (Text × Text)) : Text :=
  if pairs.isEmpty then []
  else
    "\x7b" ++ Text.join "," (pairs.map fun (name, value) => name ++ "=" ++ writeLabel value) ++
      "\x7d"

def writeLine (name : Text) (pairs : List (Text × Text)) (value : Int) : Text :=
  name ++ writeLabels pairs ++ " " ++ Text.ofInt value

def sampleLines (sample : Sample) : List Text :=
  let name := sample.metric.name
  let pairs := sample.labelPairs
  if sample.metric.kind = "histogram" then
    [writeLine (name ++ "_bucket") (pairs ++ [(("le" : Text), ("+Inf" : Text))]) sample.value,
      writeLine (name ++ "_count") pairs sample.value]
  else [writeLine name pairs sample.value]

def metricLines (metrics : Metrics) (metric : Metric) : List Text :=
  let samples := metrics.samplesOf metric
  if samples.isEmpty then []
  else
    ("# HELP " ++ metric.name ++ " " ++ metric.help) ::
      ("# TYPE " ++ metric.name ++ " " ++ metric.kind) :: samples.flatMap sampleLines

def render (metrics : Metrics) : Text :=
  (Metric.all.flatMap metrics.metricLines).flatMap fun line => line ++ ("\n" : Text)

end Metrics

/-!
## Tracing

Settings for the spans of a run: where they go, and which part of the runs is traced.
-/

open Number (Double)

structure TracingSettings where
  enabled : Bool
  exporter : Text
  endpoint : Text
  rate : Double
  service : Text
deriving DecidableEq, Repr

inductive Exporter where
  | stdout
  | collector
  | nowhere
deriving DecidableEq, Repr, Inhabited

def Exporter.ofName? (name : Text) : Option Exporter :=
  if name = "stdout" then some .stdout
  else if name = "otlp" then some .collector
  else if name = "none" || name.isEmpty then some .nowhere
  else none

structure Tracer where
  exporter : Option Exporter
  rate : Double
deriving DecidableEq, Repr

namespace Tracer

/-- The tracer for settings, or the name of the exporter that is not known. A rate that is not above
zero means that every run is traced. -/
def start (settings : TracingSettings) : Except Text Tracer :=
  if settings.enabled then
    match Exporter.ofName? settings.exporter with
    | some exporter =>
      let none := settings.rate.isZero || settings.rate.isBelowZero
      .ok ⟨some exporter, if none then .one else settings.rate⟩
    | none => .error settings.exporter
  else .ok ⟨none, settings.rate⟩

def unknownExporter (name : Text) : Text := "unsupported exporter type: " ++ name

def recorded (tracer : Tracer) : Nat :=
  match tracer.rate with
  | .finite false mantissa exponent =>
    min (Nat.pow 2 63) (Double.truncate (.finite false mantissa (exponent + 63))).toNat
  | .infinite false => Nat.pow 2 63
  | _ => 0

def isRecording (tracer : Tracer) : Bool := tracer.exporter.isSome && 0 < tracer.recorded

end Tracer

end Avro
