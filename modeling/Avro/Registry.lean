import Avro.Diff
import Avro.Protocol.Read
import Avro.Schema.Tree

/-!
# Registries

A registry collects named types in the order of their registration. To register a name again with
the same canonical text changes nothing; a different text is a conflict. A batch is registered as a
whole or not at all.
-/

set_option autoImplicit false

namespace Avro

/-- A named type on record: its canonical text, the document it came from, and the type itself if
it is a schema of the catalog. -/
structure Descriptor where
  name : Text
  canonical : Text
  source : Text
  type : Option Reference
deriving DecidableEq, Repr, Inhabited

structure Batch where
  catalog : Catalog
  types : List Descriptor
deriving Repr, Inhabited

structure Conflict where
  name : Text
  existingSource : Text
  source : Text
  diff : Text
deriving DecidableEq, Repr, Inhabited

def Conflict.message (conflict : Conflict) : Text :=
  "type " ++ conflict.name ++ " defined in " ++ conflict.source ++
    " conflicts with the definition in " ++ conflict.existingSource

structure Registry where
  catalog : Catalog
  entries : List Descriptor
deriving Repr, Inhabited

namespace Descriptor

def ofType (catalog : Catalog) (source : Text) (type : Reference) : Descriptor where
  name := type.name.text
  canonical := (Schema.named type).canonical catalog
  source := source
  type := some type

def conflictWith (existing later : Descriptor) : Conflict where
  name := later.name
  existingSource := existing.source
  source := later.source
  diff := Diff.lineDiff existing.canonical later.canonical

def extend (entries : List Descriptor) : List Descriptor → Except Conflict (List Descriptor)
  | [] => .ok entries
  | descriptor :: rest =>
    match entries.find? fun existing => existing.name = descriptor.name with
    | none => extend (entries ++ [descriptor]) rest
    | some existing =>
      if existing.canonical = descriptor.canonical then extend entries rest
      else .error (existing.conflictWith descriptor)

end Descriptor

namespace Registry

def empty : Registry := ⟨[], []⟩

def size (registry : Registry) : Nat := registry.entries.length

def names (registry : Registry) : List Text := registry.entries.map Descriptor.name

def find? (registry : Registry) (name : Text) : Option Descriptor :=
  registry.entries.find? fun entry => entry.name = name

def types (registry : Registry) : List Reference := registry.entries.filterMap Descriptor.type

def merge (registry : Registry) (batch : Batch) : Except Conflict Registry :=
  (Descriptor.extend registry.entries batch.types).map fun entries => ⟨batch.catalog, entries⟩

def scope (registry : Registry) : Scope :=
  .start registry.catalog (registry.entries.filterMap fun entry =>
    entry.type.map fun type => (entry.name, .named type))

def readSchema (registry : Registry) (source content : Text) : Except SchemaError Batch :=
  (Schema.readDocument registry.scope content).map fun (_, scope) =>
    ⟨scope.catalog, scope.defined.map (Descriptor.ofType scope.catalog source)⟩

def readProtocol (registry : Registry) (source content : Text) : Except SchemaError Batch :=
  (Protocol.readDocument registry.scope content).map fun (protocol, scope) =>
    ⟨scope.catalog, protocol.types.map (Descriptor.ofType scope.catalog source)⟩

end Registry

/-!
## Keeping a registry

A registry is kept with an index, which maps each name to the position of its entry. A batch is
looked through first, with the new types of it in a map of their own; then these are entered one by
one. Where a step fails, the ledger stays as the steps before have left it.
-/

structure Ledger where
  catalog : Catalog
  entries : List Descriptor
  index : List (Text × Nat)
deriving Repr, Inhabited

namespace Ledger

def empty : Ledger := ⟨[], [], []⟩

def registry (ledger : Ledger) : Registry := ⟨ledger.catalog, ledger.entries⟩

def lookup? (ledger : Ledger) (name : Text) : Option Descriptor :=
  (ledger.index.lookup name).bind fun place => ledger.entries[place]?

abbrev Update := EStateM Conflict Ledger

def survey (pending : List (Text × Descriptor)) (added : List Descriptor) :
    List Descriptor → Update (List Descriptor)
  | [] => pure added
  | descriptor :: rest => do
    let ledger ← get
    match (pending.lookup descriptor.name).or (ledger.lookup? descriptor.name) with
    | none => survey ((descriptor.name, descriptor) :: pending) (added ++ [descriptor]) rest
    | some existing =>
      if existing.canonical = descriptor.canonical then survey pending added rest
      else throw (existing.conflictWith descriptor)

def enter : List Descriptor → Update Unit
  | [] => pure ()
  | descriptor :: rest => do
    modify fun ledger =>
      { ledger with index := (descriptor.name, ledger.entries.length) :: ledger.index }
    modify fun ledger => { ledger with entries := ledger.entries ++ [descriptor] }
    enter rest

def merge (batch : Batch) : Update Unit := do
  let added ← survey [] [] batch.types
  enter added
  modify fun ledger => { ledger with catalog := batch.catalog }

/-- A copy, with the index entered name by name. A snapshot is a copy of a ledger, and a ledger that
starts from a snapshot is a copy of that. -/
def copy (ledger : Ledger) : Ledger :=
  { ledger with index := ledger.index.foldl (fun index entry => entry :: index) [] }

end Ledger

end Avro
