import Avro.Command.Run

/-!
# The program

The names of the files to work on are read from standard input, one a line. They make up the tree
that a command runs on; afterwards the files that are new or changed are written.
-/

set_option autoImplicit false

namespace Avro.Program

partial def readLines (input : IO.FS.Stream) : IO (List String) := do
  let line ← input.getLine
  if line.isEmpty then return []
  let rest ← readLines input
  return (line.dropEndWhile (· == '\n')).toString :: rest

def placeOf (working : List Text) (name : Text) : List Text :=
  Path.parts (Path.join ["/" ++ Text.join "/" working, name])

def addFile (files : FileTree) (name : String) : IO FileTree := do
  let content ← IO.FS.readBinFile name
  let place := placeOf files.working (Text.ofString name)
  return { files with root := files.root.put place (.file (Text.ofBytes content.toList)) }

def treeOf (names : List String) : IO FileTree := do
  let working := Path.parts (Text.ofString ((← IO.getEnv "PWD").getD "/"))
  let root := (FileNode.directory []).put working (.directory [])
  (names.filter fun name => !name.isEmpty).foldlM addFile ⟨root, working⟩

def environmentOf (names : List Text) : IO Environment := do
  let values ← names.mapM fun name => do
    return (← IO.getEnv (Text.shown name)).map fun value => (name, Text.ofString value)
  return values.filterMap id

def writeBack (before after : FileTree) : IO Unit := do
  let old := before.root.files
  after.root.files.forM fun (place, content) => do
    if old.lookup place ≠ some content then
      IO.FS.createDirAll (Text.shown ("/" ++ Text.join "/" place.dropLast))
      IO.FS.writeBinFile (Text.shown ("/" ++ Text.join "/" place))
        (ByteArray.mk content.toBytes.toArray)

def newIdentifier : IO Text := do
  let number ← IO.rand 0 (Nat.pow 2 62)
  return (Nat.toDigits 16 number).map Cell.scalar

def run (arguments : List Text) : IO UInt32 := do
  let files ← treeOf (← readLines (← IO.getStdin))
  let environment ← environmentOf (Command.references files arguments)
  let outcome := Command.run ⟨environment, files, ← newIdentifier⟩ arguments
  writeBack files outcome.files
  outcome.records.forM fun record =>
    IO.eprintln (Text.shown (record.line (outcome.format = "json")))
  IO.print (Text.shown outcome.output)
  match outcome.failure with
  | none => return 0
  | some failure => do
    IO.eprintln (Text.shown ("avrogen: " ++ failure.message))
    return 1

end Avro.Program

def main (arguments : List String) : IO UInt32 :=
  Avro.Program.run (arguments.map Avro.Text.ofString)
