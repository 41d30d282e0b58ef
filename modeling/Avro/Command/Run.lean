import Avro.Command.Arguments
import Avro.Config.Read
import Avro.Discovery
import Avro.Pipeline.Run

/-!
# Running commands

A command reads settings and files, and leaves output, log records and files. Whatever was done
before a failure stays done, and measurements are written either way.
-/

set_option autoImplicit false

namespace Avro.Command

inductive Failure where
  | usage (error : UsageError)
  | config (failure : Config.LoadFailure)
  | exporter (name : Text)
  | run (failure : Avro.Failure)
  | notIdl (path : Text)
  | metrics (fault : PathFault)
  | both (first second : Failure)
deriving Repr

def Failure.message : Failure → Text
  | .usage error => error.message
  | .config failure => "load config: " ++ failure.message
  | .exporter name => "tracing: " ++ Tracer.unknownExporter name
  | .run failure => failure.message
  | .notIdl path => path ++ ": not an IDL document"
  | .metrics fault => "metrics textfile: " ++ fault.message
  | .both first second => first.message ++ "\n" ++ second.message

structure Outcome where
  output : Text
  format : Text
  records : List LogRecord
  files : FileTree
  failure : Option Failure
deriving Repr

def Outcome.failed (files : FileTree) (failure : Failure) : Outcome :=
  ⟨[], [], [], files, some failure⟩

structure Context where
  environment : Environment
  files : FileTree
  identifier : Text
deriving Repr, Inhabited

def loadConfig (context : Context) (path : Option Text) : Except Config.LoadFailure Config :=
  match path with
  | some path => Config.load context.environment context.files path
  | none =>
    match context.files.find Config.defaultFile with
    | .error .missing => .ok .default
    | _ => Config.load context.environment context.files Config.defaultFile

def leastLevel (config : Config) (verbose : Bool) : LogLevel :=
  if verbose then .debug else (LogLevel.ofWord? config.level).getD .info

def writeMetrics (config : Config) (session : Session) : FileTree × Option Failure :=
  if config.metricsFile.isEmpty then (session.files, none)
  else
    match session.files.write (config.path config.metricsFile) session.metrics.render with
    | .ok files => (files, none)
    | .error fault => (session.files, some (.metrics fault))

def joinFailures : Option Failure → Option Failure → Option Failure
  | some first, some second => some (.both first second)
  | first, second => first <|> second

def close (config : Config) (verbose : Bool) (session : Session) (output : Text)
    (failure : Option Failure) : Outcome :=
  let (files, unwritten) := writeMetrics config session
  let least := leastLevel config verbose
  ⟨output, config.format, session.records.filter fun record => record.level.isKept least, files,
    joinFailures failure unwritten⟩

def runProject (context : Context) (config : Config) (verbose emits : Bool)
    (report : RunResult → Text) : Outcome :=
  match Discovery.project context.files config with
  | .error failure =>
    close config verbose (.start context.files false) [] (some (.run (.io failure)))
  | .ok (dependencies, groups) =>
    let options : Pipeline.Options :=
      ⟨.files config.searchRoots, if emits then some Emitter.go else none, context.identifier⟩
    let (result, session) :=
      (Pipeline.run options dependencies groups).run.run (.start context.files false)
    match result with
    | .ok result => close config verbose session (report result) none
    | .error failure => close config verbose session [] (some (.run failure))

def withProject (context : Context) (request : Request) (emits : Config → Bool)
    (report : RunResult → Text) : Outcome :=
  match loadConfig context request.config with
  | .error failure => .failed context.files (.config failure)
  | .ok config =>
    match Tracer.start config.tracing with
    | .error name => .failed context.files (.exporter name)
    | .ok _ => runProject context config request.verbose (emits config) report

def groupLine (group : GroupResult) : Text :=
  group.name ++ ": " ++ Text.ofNat group.protocols.length ++ " protocols, " ++
    Text.ofNat group.types.size ++ " types -> " ++ group.outputDirectory ++ "\n"

def buildReport (result : RunResult) : Text :=
  result.groups.flatMap groupLine ++ if result.didWork then ([] : Text) else "nothing to do\n"

def typesReport (only : Text) (result : RunResult) : Text :=
  let groups := result.groups.filter fun group => only.isEmpty || group.name = only
  let rows : List (List Text) := groups.flatMap fun group =>
    group.types.entries.map fun entry => [group.name, entry.name, entry.source]
  let header : List Text := ["GROUP", "TYPE", "SOURCE"]
  Text.tabulate 2 ((header :: rows).flatMap fun row => Text.join "\t" row ++ "\n")

def compileFiles (resolver : Resolver) (directory : Text) (files : FileTree) (output : Text) :
    List Text → Outcome
  | [] => ⟨output, [], [], files, none⟩
  | path :: rest =>
    let failed (failure : Failure) : Outcome := ⟨output, [], [], files, some failure⟩
    match Document.read files path with
    | .error failure => failed (.run (.io failure))
    | .ok document =>
      if document.kind ≠ .idl then failed (.notIdl path)
      else
        match Compiler.compile resolver false files document directory with
        | .error failure => failed (.run failure)
        | .ok (protocol, files) =>
          compileFiles resolver directory files (output ++ protocol.path ++ "\n") rest

def usage : Text :=
  Text.join "\n"
    ["Usage: avrogen [flags] [command]", [], "Commands:",
      "  build [--no-emit]                       compile everything and generate bindings",
      "  idl --output=DIR [--import-root=DIR,...] <files> ...",
      "                                          compile interface definitions",
      "  types [--group=NAME]                    list the types of all groups", [], "Flags:",
      "  -h, --help                              show this text",
      "  -c, --config=FILE                       the settings file",
      "  -v, --verbose                           log everything", [],
      "The names of the files to work on are read from standard input, one a line.", []]

def execute (context : Context) (request : Request) : Outcome :=
  match request.task with
  | .help => ⟨usage, [], [], context.files, none⟩
  | .build noEmit =>
    withProject context request (fun config => config.emits && !noEmit) buildReport
  | .types group => withProject context request (fun _ => false) (typesReport group)
  | .idl files output importRoots =>
    compileFiles (.files importRoots) output context.files [] files

def run (context : Context) (arguments : List Text) : Outcome :=
  match parse context.files arguments with
  | .ok request => execute context request
  | .error error => .failed context.files (.usage error)

/-!
## Variables of a command

Only the variables that the settings file refers to can change what a command does.
-/

def configPath (request : Request) : Text := request.config.getD Config.defaultFile

def references (files : FileTree) (arguments : List Text) : List Text :=
  match parse files arguments with
  | .error _ => []
  | .ok request =>
    match files.read (configPath request) with
    | .ok content => Environment.references content
    | .error _ => []

end Avro.Command
