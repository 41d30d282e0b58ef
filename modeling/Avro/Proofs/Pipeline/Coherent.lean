import Avro.Proofs.Binding.References
import Avro.Proofs.Pipeline.Register
import Avro.Proofs.Protocol.Proper
import Avro.Proofs.Schema.ReadBack

/-!
# Registries that a run builds

A run starts from the empty registry and registers documents. All registries on the way are
coherent.
-/

set_option autoImplicit false

open List

namespace Avro.Pipeline

variable {registry : Registry}

/-- Registries reached from the empty one by any number of registrations. -/
inductive Built : Registry → Prop where
  | empty : Built .empty
  | register {files : FileTree} {registry after : Registry} {documents : List Document}
      (built : Built registry) (registered : (register files registry documents).result = .ok after) :
      Built after

/-- What each batch that is read and merged preserves, registering documents preserves. -/
theorem registerInOrder_keeps {Holds : Registry → Prop}
    (step : ∀ {registry document content batch after}, Holds registry →
      readBatch registry document content = .ok batch → registry.merge batch = .ok after →
      Holds after) {files : FileTree} {after : Registry} {documents : List Document}
    (registered : registerInOrder files registry documents = .ok after) (start : Holds registry) :
    Holds after := by
  induction documents generalizing registry with
  | nil =>
    cases registered
    exact start
  | cons _ _ ih =>
    obtain ⟨_, _, attempted, others⟩ := registerInOrder_cons_ok registered
    obtain ⟨_, _, _, read, merged, _⟩ := attempt_merged attempted
    exact ih others (step start read merged)

theorem isPrefix_registerInOrder {files : FileTree} {after : Registry} {documents : List Document}
    (registered : registerInOrder files registry documents = .ok after) :
    registry.entries <+: after.entries :=
  @registerInOrder_keeps registry (registry.entries <+: ·.entries)
    (fun kept _ merged => IsPrefix.trans kept (Registry.isPrefix_merge merged)) _ _ _ registered
    (prefix_refl _)

theorem Built.keeps {Holds : Registry → Prop}
    (step : ∀ {registry document content batch after}, Holds registry →
      readBatch registry document content = .ok batch → registry.merge batch = .ok after →
      Holds after) (start : Holds .empty) (built : Built registry) : Holds registry := by
  induction built with
  | empty => exact start
  | register _ registered ih =>
    obtain ⟨_, _, _, inOrder⟩ := register_registers registered
    exact registerInOrder_keeps step inOrder ih

theorem readBatch_batched {document : Document} {content : Text} {batch : Batch}
    (read : readBatch registry document content = .ok batch) :
    ∃ definitions more, registry.Batched batch definitions more := by
  unfold readBatch at read
  split at read
  · exact Registry.readProtocol_batched (mapError_ok.mp read)
  · obtain ⟨definitions, batched⟩ := Registry.readSchema_batched (mapError_ok.mp read)
    exact ⟨definitions, [], batched⟩
  · cases read

theorem Built.coherent (built : Built registry) : registry.Coherent := by
  refine built.keeps (fun coherent read merged => ?_) Registry.coherent_empty
  obtain ⟨_, _, batched⟩ := readBatch_batched read
  exact coherent.merge batched merged

private theorem readBatch_wellFormed {document : Document} {content : Text} {batch : Batch}
    (formed : ∀ type ∈ registry.types, (Schema.named type).WellFormed registry.catalog)
    (read : readBatch registry document content = .ok batch) :
    ∀ type ∈ batch.types.filterMap Descriptor.type,
      (Schema.named type).WellFormed batch.catalog := by
  have known : ∀ entry ∈ registry.scope.known, entry.2.WellFormed registry.catalog := by
    intro entry member
    obtain ⟨descriptor, isEntry, found⟩ := mem_filterMap.mp member
    obtain ⟨type, isType, rfl⟩ := Option.map_eq_some_iff.mp found
    exact formed type (mem_filterMap.mpr ⟨descriptor, isEntry, isType⟩)
  intro type member
  obtain ⟨descriptor, listed, isType⟩ := mem_filterMap.mp member
  unfold readBatch at read
  split at read
  · obtain ⟨⟨protocol, after⟩, done, rfl⟩ := map_ok.mp (mapError_ok.mp read)
    obtain ⟨_, among, rfl⟩ := mem_map.mp listed
    cases isType
    exact (Protocol.readDocument_wellFormed known done).1.types _ among
  · obtain ⟨⟨_, after⟩, done, rfl⟩ := map_ok.mp (mapError_ok.mp read)
    obtain ⟨_, among, rfl⟩ := mem_map.mp listed
    cases isType
    exact (Schema.readDocument_wellFormed known done).2.types _ among
  · cases read

theorem Built.wellFormed (built : Built registry) :
    ∀ type ∈ registry.types, (Schema.named type).WellFormed registry.catalog := by
  refine @Built.keeps registry (fun registry => ∀ type ∈ registry.types,
    (Schema.named type).WellFormed registry.catalog) (fun formed read merged => ?_) nofun built
  obtain ⟨_, _, batched⟩ := readBatch_batched read
  have new := readBatch_wellFormed formed read
  obtain ⟨_, extended, rfl⟩ := map_ok.mp merged
  intro type member
  obtain ⟨entry, isEntry, isType⟩ := mem_filterMap.mp member
  rcases (Registry.extend_ok extended).2.1 entry isEntry with old | added
  · have grown := (formed type (mem_filterMap.mpr ⟨entry, old, isType⟩)).append
    rw [batched.catalog]
    exact grown _
  · exact new type (mem_filterMap.mpr ⟨entry, added, isType⟩)

/-- Every registry that a run builds is closed and coherent: all that is reached from an entry is
registered with the text it has there; registering more keeps the entries and puts others behind
them; and in the bindings every reference is to a declaration of the same file. -/
theorem built_closed_and_coherent {registry : Registry} (built : Built registry) :
    (∀ entry ∈ registry.entries, ∃ root, entry.type = some root ∧
      ∀ node, registry.catalog.Reaches root node →
        ∃ other, registry.find? node.name.text = some other ∧
          other.canonical = (Schema.named node).canonical registry.catalog) ∧
    (∀ files documents group, (register files registry documents).result = .ok group →
      registry.entries <+: group.entries) ∧
    (∀ package file, Binding.build registry.catalog package (Emitter.offers registry) = .ok file →
      ∀ declaration ∈ file.declarations, ∀ name, declaration.node.Refers name →
        ∃ other ∈ file.declarations, other.node.name = name) := by
  have coherent := built.coherent
  refine ⟨?_, ?_, fun _ _ => Binding.build_refers coherent⟩
  · intro entry member
    obtain ⟨root, isType, _⟩ := coherent.typed entry member
    exact ⟨root, isType, coherent.complete entry member root isType⟩
  · intro files documents group registered
    obtain ⟨_, _, _, inOrder⟩ := register_registers registered
    exact isPrefix_registerInOrder inOrder

def chainRegistry : Registry :=
  ⟨[Schema.chain], [Descriptor.ofType [Schema.chain] "chain.avsc" ⟨0, Schema.chainName⟩]⟩

theorem built_chainRegistry : Built chainRegistry := by
  have scope : Registry.empty.scope = Scope.empty := rfl
  have attempted : attempt default .empty
      ⟨.schema, "chain.avsc", some (Schema.chainTree.render .compact)⟩ = .merged chainRegistry 1 := by
    simp only [attempt, Document.load, readBatch, Registry.readSchema, scope,
      Schema.readDocument_chainTree, ok_map, ok_mapError]
    rfl
  have registered : (register default .empty
      [⟨.schema, "chain.avsc", some (Schema.chainTree.render .compact)⟩]).result =
        .ok chainRegistry := by
    rw [register]
    simp only [pass, attempted]
  exact .register .empty registered

theorem chainRegistry_closed :
    Built chainRegistry ∧ ∀ entry ∈ chainRegistry.entries, ∃ root, entry.type = some root ∧
      ∀ node, chainRegistry.catalog.Reaches root node →
        ∃ other, chainRegistry.find? node.name.text = some other ∧
          other.canonical = (Schema.named node).canonical chainRegistry.catalog :=
  ⟨built_chainRegistry, (built_closed_and_coherent built_chainRegistry).1⟩

end Avro.Pipeline
