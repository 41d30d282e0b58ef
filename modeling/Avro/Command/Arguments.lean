import Avro.FileTree
import Avro.Text.Quoted
import Avro.Text.Utf8

/-!
# Arguments of a command

Commands and flags, and how they are read from the arguments.
-/

set_option autoImplicit false

namespace Avro.Text

/-!
## Edit distance

The least number of insertions, deletions and replacements of cells that turn one text into another.
-/

/-- The distances of a text from the beginnings of `right`, given those of the text without its last
cell. `left` is the distance from the beginning one shorter. -/
def nextDistances (cell : Cell) (left : Nat) : Text → List Nat → List Nat
  | other :: right, corner :: above :: row =>
    let least := min (min (left + 1) (above + 1)) (corner + if other = cell then 0 else 1)
    least :: nextDistances cell least right (above :: row)
  | _, _ => []

def distances (left right : Text) : List Nat :=
  left.foldl
    (fun row cell =>
      let first := row.headD 0 + 1
      first :: nextDistances cell first right row)
    (List.range (right.length + 1))

def distance (left right : Text) : Nat := (distances left right).getLastD 0

end Avro.Text

/-!
## Commands and flags

There are three commands, and flags that belong to all of them or to one. A word that is neither is
answered with those that are spelled like it.
-/

namespace Avro.Command

inductive Verb where
  | build
  | idl
  | types
deriving DecidableEq, Repr, Inhabited

def Verb.name : Verb → Text
  | .build => "build"
  | .idl => "idl"
  | .types => "types"

def verbs : List Verb := [.build, .idl, .types]

inductive Flag where
  | help
  | config
  | verbose
  | noEmit
  | output
  | importRoot
  | group
deriving DecidableEq, Repr, Inhabited

namespace Flag

def long : Flag → Text
  | .help => "--help"
  | .config => "--config"
  | .verbose => "--verbose"
  | .noEmit => "--no-emit"
  | .output => "--output"
  | .importRoot => "--import-root"
  | .group => "--group"

def short? : Flag → Option Text
  | .help => some "-h"
  | .config => some "-c"
  | .verbose => some "-v"
  | .noEmit => none
  | .output => some "-o"
  | .importRoot => some "-I"
  | .group => some "-g"

def forms (flag : Flag) : List Text := flag.long :: flag.short?.toList

def shared : List Flag := [.help, .config, .verbose]

def known : Option Verb → List Flag
  | none => shared
  | some .build => shared ++ [.noEmit]
  | some .idl => shared ++ [.output, .importRoot]
  | some .types => shared ++ [.group]

end Flag

def similar (word : Text) (candidates : List Text) : List Text :=
  candidates.filter fun candidate =>
    Text.startsWith candidate word || Text.distance candidate word ≤ 2

inductive UsageError where
  | unknownFlag (flag : Text) (similar : List Text)
  | unexpectedArgument (argument : Text) (similar : List Text)
  | unexpectedValue (value : Text)
  | expectedValue (flag : Flag) (kind : Text) (found : Option Text)
  | missingValue (flag : Flag)
  | notSwitch (flag : Flag) (value : Text)
  | missingOutput
  | missingFiles
  | unreadableFile (fault : PathFault)
  | fileIsDirectory (path : Text)
deriving DecidableEq, Repr, Inhabited

def suggestion : List Text → Text
  | [] => []
  | [only] => ", did you mean " ++ Text.quote only ++ "?"
  | several => ", did you mean one of " ++ Text.join ", " (several.map Text.quote) ++ "?"

def filesArgument : Text := "<files> ..."

def lookOf (word : Text) : Text :=
  if Text.startsWith word "--" then "long flag" else "short flag"

def UsageError.message : UsageError → Text
  | .unknownFlag flag similar => "unknown flag " ++ flag ++ suggestion similar
  | .unexpectedArgument argument similar => "unexpected argument " ++ argument ++ suggestion similar
  | .unexpectedValue value => "unexpected flag argument " ++ Text.quote value
  | .expectedValue flag kind none =>
    flag.long ++ ": expected " ++ kind ++ " value but got \"EOL\" (<EOL>)"
  | .expectedValue flag kind (some found) =>
    flag.long ++ ": expected " ++ kind ++ " value but got " ++ Text.quote found ++ " (" ++
      lookOf found ++ "); perhaps try " ++ flag.long ++ "=" ++ Text.quote found ++ "?"
  | .missingValue flag => flag.long ++ ": missing value, expecting \"<arg>,...\""
  | .notSwitch flag value =>
    flag.long ++ ": bool value must be true, 1, yes, false, 0 or no but got " ++ Text.quote value
  | .missingOutput => "missing flags: " ++ Flag.output.long ++ "=STRING"
  | .missingFiles => "expected " ++ Text.quote filesArgument
  | .unreadableFile fault => filesArgument ++ ": " ++ fault.message
  | .fileIsDirectory path =>
    filesArgument ++ ": " ++ Text.quote path ++ " exists but is a directory"

/-!
## Reading arguments

Arguments are read from left to right.
-/

inductive Argument where
  | word (text : Text)
  | literal (text : Text)
  | bundle (text : Text)
  | value (text : Text)
deriving DecidableEq, Repr, Inhabited

namespace Argument

def text : Argument → Text
  | .word text => text
  | .literal text => text
  | .bundle text => text
  | .value text => text

def looksLikeFlag (word : Text) : Bool := Text.startsWith word "-" && word ≠ "-"

def isValue : Argument → Bool
  | .word text => !looksLikeFlag text
  | _ => true

end Argument

structure Draft where
  verb : Option Verb
  help : Bool
  config : Option Text
  verbose : Bool
  noEmit : Bool
  group : Text
  output : Option Text
  importRoots : List Text
  files : Option (List Text)
deriving DecidableEq, Repr, Inhabited

def Draft.empty : Draft := ⟨none, false, none, false, false, [], none, [], none⟩

def absolutePath (files : FileTree) (path : Text) : Text :=
  if path = "-" || Path.isAbsolute path then path
  else Path.join ["/" ++ Text.join "/" files.working, path]

def takeValue (flag : Flag) (kind : Text) : List Argument → Except UsageError (Text × List Argument)
  | [] => .error (.expectedValue flag kind none)
  | argument :: rest =>
    if argument.isValue then .ok (argument.text, rest)
    else .error (.expectedValue flag kind (some argument.text))

def switchWords : List (Text × Bool) :=
  [("true", true), ("1", true), ("yes", true), ("false", false), ("0", false), ("no", false)]

def takeSwitch (flag : Flag) : List Argument → Except UsageError (Bool × List Argument)
  | .value text :: rest =>
    let word : Text := text.map fun cell => .scalar (Text.toLower cell.shown)
    match switchWords.lookup word with
    | some value => .ok (value, rest)
    | none => .error (.notSwitch flag word)
  | rest => .ok (true, rest)

/-- Splits a list at commas. A comma after a backslash does not count, and an empty item at the end
is left out. `item` holds the current item. -/
def splitList (item : Text) (escaped : Bool) : Text → List Text
  | [] => if item.isEmpty then [] else [item]
  | cell :: rest =>
    if escaped then
      splitList (item ++ if cell.isChar ',' then [cell] else [.scalar '\\', cell]) false rest
    else if cell.isChar '\\' && !rest.isEmpty then splitList item true rest
    else if cell.isChar ',' then item :: splitList [] false rest
    else splitList (item ++ [cell]) false rest

def takePaths (files : FileTree) (flag : Flag) :
    List Argument → Except UsageError (List Text × List Argument)
  | [] => .error (.missingValue flag)
  | argument :: rest =>
    let items := splitList [] false argument.text
    let wrong := items.find? fun item =>
      match argument with
      | .word _ => Argument.looksLikeFlag item
      | _ => false
    match wrong with
    | some item => .error (.expectedValue flag "file" (some item))
    | none => .ok (items.map (absolutePath files), rest)

def useFlag (files : FileTree) (draft : Draft) (flag : Flag) (rest : List Argument) :
    Except UsageError (Draft × List Argument) := do
  match flag with
  | .help =>
    let (help, rest) ← takeSwitch flag rest
    return ({ draft with help := help }, rest)
  | .config =>
    let (path, rest) ← takeValue flag "file" rest
    return ({ draft with config := some (absolutePath files path) }, rest)
  | .verbose =>
    let (verbose, rest) ← takeSwitch flag rest
    return ({ draft with verbose := verbose }, rest)
  | .noEmit =>
    let (noEmit, rest) ← takeSwitch flag rest
    return ({ draft with noEmit := noEmit }, rest)
  | .output =>
    let (path, rest) ← takeValue flag "file" rest
    return ({ draft with output := some (absolutePath files path) }, rest)
  | .importRoot =>
    let (roots, rest) ← takePaths files flag rest
    return ({ draft with importRoots := draft.importRoots ++ roots }, rest)
  | .group =>
    let (group, rest) ← takeValue flag "string" rest
    return ({ draft with group := group }, rest)

def readFlag (files : FileTree) (draft : Draft) (form : Text) (rest : List Argument) :
    Except UsageError (Draft × List Argument) :=
  let known := Flag.known draft.verb
  match known.find? fun flag => form ∈ flag.forms with
  | some flag => useFlag files draft flag rest
  | none => .error (.unknownFlag form (similar form (known.flatMap Flag.forms)))

def readBundle (files : FileTree) (draft : Draft) (bundle : Text) (rest : List Argument) :
    Except UsageError (Draft × List Argument) :=
  let bytes := bundle.toBytes
  let more := Text.ofBytes (bytes.drop 1)
  readFlag files draft ("-" ++ Text.ofBytes (bytes.take 1))
    (if more.isEmpty then rest else .bundle more :: rest)

def readLong (files : FileTree) (draft : Draft) (word : Text) (rest : List Argument) :
    Except UsageError (Draft × List Argument) :=
  match Text.splitFirst? '=' word with
  | some (form, value) => readFlag files draft form (.value value :: rest)
  | none => readFlag files draft word rest

def existingFile (files : FileTree) (given : Text) : Except UsageError Text :=
  let path := absolutePath files given
  if path = "-" then .ok path
  else
    match files.find path with
    | .ok (.file _) => .ok path
    | .ok (.directory _) => .error (.fileIsDirectory path)
    | .error reason => .error (.unreadableFile ⟨"stat", path, reason⟩)

def readPlace (files : FileTree) (draft : Draft) (word : Text) (rest : List Argument) :
    Except UsageError (Draft × List Argument) :=
  match draft.verb with
  | none =>
    match verbs.find? fun verb => verb.name = word with
    | some verb => .ok ({ draft with verb := some verb }, rest)
    | none => .error (.unexpectedArgument word (similar word (verbs.map Verb.name)))
  | some verb =>
    if verb = .idl && draft.files.isNone then
      let given := word :: (rest.takeWhile Argument.isValue).map Argument.text
      match given.mapM (existingFile files) with
      | .ok paths => .ok ({ draft with files := some paths }, rest.dropWhile Argument.isValue)
      | .error error => .error error
    else .error (.unexpectedArgument word [])

def readArgument (files : FileTree) (draft : Draft) (argument : Argument) (rest : List Argument) :
    Except UsageError (Draft × List Argument) :=
  match argument with
  | .literal text => readPlace files draft text rest
  | .bundle text => readBundle files draft text rest
  | .value text => .error (.unexpectedValue text)
  | .word text =>
    if text = "--" then .ok (draft, rest.map fun argument => .literal argument.text)
    else if Text.startsWith text "--" then readLong files draft text rest
    else if Argument.looksLikeFlag text then readBundle files draft (text.drop 1) rest
    else readPlace files draft text rest

def readArguments (files : FileTree) : Nat → Draft → List Argument → Except UsageError Draft
  | 0, draft, _ => .ok draft
  | _ + 1, draft, [] => .ok draft
  | rounds + 1, draft, argument :: rest =>
    match readArgument files draft argument rest with
    | .ok (draft, rest) => readArguments files rounds draft rest
    | .error error => .error error

inductive Task where
  | help
  | build (noEmit : Bool)
  | idl (files : List Text) (output : Text) (importRoots : List Text)
  | types (group : Text)
deriving DecidableEq, Repr, Inhabited

structure Request where
  config : Option Text
  verbose : Bool
  task : Task
deriving DecidableEq, Repr, Inhabited

def Draft.task (draft : Draft) : Except UsageError Task :=
  if draft.help then .ok .help
  else
    match draft.verb.getD .build with
    | .build => .ok (.build draft.noEmit)
    | .types => .ok (.types draft.group)
    | .idl =>
      match draft.output, draft.files with
      | none, _ => .error .missingOutput
      | some _, none => .error .missingFiles
      | some output, some files => .ok (.idl files output draft.importRoots)

def parse (files : FileTree) (arguments : List Text) : Except UsageError Request :=
  let rounds := total (arguments.map fun argument => argument.byteLength + 1)
  match readArguments files rounds .empty (arguments.map .word) with
  | .error error => .error error
  | .ok draft =>
    match draft.task with
    | .ok task => .ok ⟨draft.config, draft.verbose, task⟩
    | .error error => .error error

end Avro.Command
