import Avro.Path

/-!
# File trees

A directory holds entries in the byte order of their names. A place in a tree is the list of names
that lead to it.
-/

set_option autoImplicit false

namespace Avro

inductive FileNode where
  | file (content : Text)
  | directory (entries : List (Text × FileNode))
deriving Repr, Inhabited

namespace FileNode

def entry? (node : FileNode) (name : Text) : Option FileNode :=
  match node with
  | .file _ => none
  | .directory entries => entries.lookup name

def at? (node : FileNode) : List Text → Option FileNode
  | [] => some node
  | name :: rest => (node.entry? name).bind fun entry => entry.at? rest

def isDirectory : FileNode → Bool
  | .file _ => false
  | .directory _ => true

def setEntry (name : Text) (node : FileNode) : List (Text × FileNode) → List (Text × FileNode)
  | [] => [(name, node)]
  | (other, old) :: rest =>
    if other = name then (name, node) :: rest
    else if Text.before name other then (name, node) :: (other, old) :: rest
    else (other, old) :: setEntry name node rest

def put : FileNode → List Text → FileNode → FileNode
  | _, [], new => new
  | .file content, _ :: _, _ => .file content
  | .directory entries, name :: rest, new =>
    let entry := (entries.lookup name).getD (.directory [])
    .directory (setEntry name (put entry rest new) entries)

mutual

def files : FileNode → List (List Text × Text)
  | .file content => [([], content)]
  | .directory entries => filesIn entries

def filesIn : List (Text × FileNode) → List (List Text × Text)
  | [] => []
  | (name, node) :: rest =>
    ((files node).map fun (place, content) => (name :: place, content)) ++ filesIn rest

end

end FileNode

/-!
## Access by path

A path is followed part by part, from the root or from the working directory. Whatever has parts
after it has to be a directory, so a path may fail in the middle even if its text could be cleaned.
A path of 4096 bytes or more, or one with a NUL, is not followed at all, and no entry has a name of
more than 255 bytes.
-/

inductive PathReason where
  | missing
  | notDirectory
  | isDirectory
  | occupied
  | nameTooLong
  | invalid
deriving DecidableEq, Repr, Inhabited

def PathReason.message : PathReason → Text
  | .missing => "no such file or directory"
  | .notDirectory => "not a directory"
  | .isDirectory => "is a directory"
  | .occupied => "file exists"
  | .nameTooLong => "file name too long"
  | .invalid => "invalid argument"

structure PathFault where
  operation : Text
  path : Text
  reason : PathReason
deriving DecidableEq, Repr, Inhabited

def PathFault.message (fault : PathFault) : Text :=
  fault.operation ++ " " ++ fault.path ++ ": " ++ fault.reason.message

structure FileTree where
  root : FileNode
  working : List Text
deriving Repr, Inhabited

namespace FileTree

def longestName : Nat := 255

def pathLimit : Nat := 4096

def refusal? (path : Text) : Option PathReason :=
  if path.any (·.isChar '\x00') then some .invalid
  else if pathLimit ≤ path.byteLength then some .nameTooLong
  else if path.isEmpty then some .missing
  else none

def follow (root : FileNode) (place : List Text) : List Text → Except PathReason (List Text)
  | [] => .ok place
  | part :: rest =>
    match root.at? place with
    | none => .error .missing
    | some (.file _) => .error .notDirectory
    | some (.directory _) =>
      if part.isEmpty || part = "." then follow root place rest
      else if part = ".." then follow root place.dropLast rest
      else if longestName < part.byteLength then .error .nameTooLong
      else follow root (place ++ [part]) rest

def origin (tree : FileTree) (path : Text) : List Text :=
  if Path.isAbsolute path then [] else tree.working

def find (tree : FileTree) (path : Text) : Except PathReason FileNode :=
  match refusal? path with
  | some reason => .error reason
  | none =>
    match follow tree.root (tree.origin path) (Text.splitOn '/' path) with
    | .error reason => .error reason
    | .ok place =>
      match tree.root.at? place with
      | some node => .ok node
      | none => .error .missing

def isDirectory (tree : FileTree) (path : Text) : Bool :=
  match tree.find path with
  | .ok node => node.isDirectory
  | .error _ => false

def read (tree : FileTree) (path : Text) : Except PathFault Text :=
  match tree.find path with
  | .ok (.file content) => .ok content
  | .ok (.directory _) => .error ⟨"read", path, .isDirectory⟩
  | .error reason => .error ⟨"open", path, reason⟩

/-- The place of something new or old: its directory has to be there, and is followed; the last part
is the name. A last part that stands for a directory by itself has no name. -/
def target (tree : FileTree) (path : Text) : Except PathReason (List Text × Option Text) :=
  let parts := ((Text.splitOn '/' path).reverse.dropWhile List.isEmpty).reverse
  match refusal? path, parts.getLast? with
  | some reason, _ => .error reason
  | none, none => .error .missing
  | none, some name =>
    match follow tree.root (tree.origin path) parts.dropLast with
    | .error reason => .error reason
    | .ok place =>
      match tree.root.at? place with
      | none => .error .missing
      | some (.file _) => .error .notDirectory
      | some (.directory _) =>
        if name = "." || name = ".." then .ok (place, none)
        else if longestName < Text.byteLength name then .error .nameTooLong
        else .ok (place, some name)

def write (tree : FileTree) (path content : Text) : Except PathFault FileTree :=
  match tree.target path with
  | .error reason => .error ⟨"open", path, reason⟩
  | .ok (_, none) => .error ⟨"open", path, .isDirectory⟩
  | .ok (place, some name) =>
    match tree.root.at? (place ++ [name]) with
    | some (.directory _) => .error ⟨"open", path, .isDirectory⟩
    | _ => .ok { tree with root := tree.root.put (place ++ [name]) (.file content) }

def makeDirectory (tree : FileTree) (path : Text) : Except PathReason FileTree :=
  match tree.target path with
  | .error reason => .error reason
  | .ok (_, none) => .error .occupied
  | .ok (place, some name) =>
    match tree.root.at? (place ++ [name]) with
    | some _ => .error .occupied
    | none => .ok { tree with root := tree.root.put (place ++ [name]) (.directory []) }

/-- The beginnings of a path that end before one of its parts, less the slash right before the part,
and the path itself; shortest first. `before` holds what was passed, in reverse. -/
def beginnings (before : Text) : Text → List Text
  | [] => [before.reverse]
  | cell :: rest =>
    match before with
    | last :: shorter =>
      if last.isChar '/' && !cell.isChar '/' && !shorter.isEmpty then
        shorter.reverse :: beginnings (cell :: before) rest
      else beginnings (cell :: before) rest
    | [] => beginnings [cell] rest

def ensureDirectory (tree : FileTree) (path : Text) : Except PathFault FileTree :=
  match tree.find path with
  | .ok (.directory _) => .ok tree
  | .ok (.file _) => .error ⟨"mkdir", path, .notDirectory⟩
  | .error _ =>
    match tree.makeDirectory path with
    | .ok tree => .ok tree
    | .error reason => if tree.isDirectory path then .ok tree else .error ⟨"mkdir", path, reason⟩

def makeDirectories (tree : FileTree) (path : Text) : Except PathFault FileTree :=
  (beginnings [] path).foldlM ensureDirectory tree

def fileCount (tree : FileTree) : Nat := tree.root.files.length

end FileTree

end Avro
