import Avro.Config.Basic
import Avro.Pipeline.Basic

/-!
# Finding documents

Documents are found by walking directories in the byte order of names. A root may also be a single
file, and a root that is not there has no documents. A document found twice counts once.
-/

set_option autoImplicit false

namespace Avro

structure WalkOptions where
  skipHidden : Bool
  excluded : List Text
  topLevelOnly : Bool
  kinds : List DocumentKind
deriving DecidableEq, Repr, Inhabited

namespace Discovery

def everything : WalkOptions := ⟨true, [], false, []⟩

def enters (options : WalkOptions) (name : Text) : Bool :=
  !options.topLevelOnly && !(options.skipHidden && Text.startsWith name ".") &&
    name ∉ options.excluded

def documentAt (options : WalkOptions) (path : Text) : List Document :=
  match DocumentKind.ofPath? path with
  | none => []
  | some kind =>
    if options.kinds.isEmpty || kind ∈ options.kinds then [⟨kind, path, none⟩] else []

mutual

def documentsIn (options : WalkOptions) (path : Text) : FileNode → List Document
  | .file _ => documentAt options path
  | .directory entries => documentsBelow options path entries

def documentsBelow (options : WalkOptions) (path : Text) : List (Text × FileNode) → List Document
  | [] => []
  | (name, node) :: rest =>
    (if node.isDirectory && !enters options name then []
      else documentsIn options (Path.join [path, name]) node) ++
      documentsBelow options path rest

end

def walk (files : FileTree) (options : WalkOptions) (root : Text) :
    Except IoFailure (List Document) :=
  match files.find root with
  | .ok node => .ok (documentsIn options root node)
  | .error .missing => .ok []
  | .error reason => .error ⟨"walk", root, .path ⟨"lstat", root, reason⟩⟩

def distinct (seen : List Text) : List Document → List Document
  | [] => []
  | document :: rest =>
    let path := Path.clean document.path
    if path ∈ seen then distinct seen rest else document :: distinct (path :: seen) rest

def collect (files : FileTree) (options : WalkOptions) (roots : List Text) :
    Except IoFailure (List Document) :=
  match roots.mapM (walk files options) with
  | .ok documents => .ok (distinct [] documents.flatten)
  | .error failure => .error failure

def dependencies (files : FileTree) (config : Config) : Except IoFailure DependencySet :=
  match collect files everything (config.dependencyRoots.map config.path) with
  | .ok documents => .ok ⟨documents, config.path config.dependencyProtocolDirectory⟩
  | .error failure => .error failure

/-- A group of a project. Only what is directly in its source directory belongs to it. -/
def group (files : FileTree) (config : Config) (settings : GroupSettings) :
    Except IoFailure Group :=
  match collect files { everything with topLevelOnly := true }
      [config.path settings.sourceDirectory] with
  | .ok documents =>
    .ok ⟨settings.name, documents, config.path settings.protocolDirectory,
      config.path settings.outputDirectory, settings.package⟩
  | .error failure => .error failure

def project (files : FileTree) (config : Config) :
    Except IoFailure (DependencySet × List Group) :=
  match dependencies files config with
  | .error failure => .error failure
  | .ok dependencies =>
    match config.groups.mapM (group files config) with
    | .ok groups => .ok (dependencies, groups)
    | .error failure => .error failure

end Discovery

end Avro
