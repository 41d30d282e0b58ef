import Avro.Pipeline.Steps
import Avro.Proofs.Registry.Coherent

/-!
# References in bindings

The bindings of a coherent registry refer to nothing but their own declarations, each by the
identifier it is declared with.
-/

set_option autoImplicit false

open List

namespace Avro.Binding

inductive Node.Refers : Node → TypeName → Prop where
  | reference (name : TypeName) : Refers (.reference name) name
  | array {items} {name : TypeName} (inner : Refers items name) : Refers (.array items) name
  | map {values} {name : TypeName} (inner : Refers values name) : Refers (.map values) name
  | oneOf {variants optional variant} {name : TypeName} (member : variant ∈ variants)
      (inner : Refers variant name) : Refers (.oneOf variants optional) name
  | object {own name : TypeName} {doc isError fields field} (member : field ∈ fields)
      (inner : Refers field.type name) : Refers (.object own doc isError fields) name

theorem nodeOf_union (identifiers : Identifiers) (branches : List Schema) (props : Members) :
    ∃ variants optional, nodeOf identifiers (.union branches props) = .oneOf variants optional ∧
      variants ⊆ nodesOf identifiers branches := by
  unfold nodeOf
  split
  next first second left right nodes =>
    rw [nodes]
    split
    · exact ⟨[second], true, rfl, by simp⟩
    · split
      · exact ⟨[first], true, rfl, by simp⟩
      · exact ⟨[first, second], false, rfl, List.Subset.refl _⟩
  next => exact ⟨_, _, rfl, List.Subset.refl _⟩

mutual

theorem nodeOf_refers {identifiers : Identifiers} (schema : Schema) {name : TypeName}
    (refers : (nodeOf identifiers schema).Refers name) :
    ∃ reference ∈ schema.references, name = typeName identifiers reference.name := by
  match schema with
  | .primitive kind props =>
    rw [nodeOf] at refers
    cases refers
  | .container .array items props =>
    rw [nodeOf] at refers
    cases refers with
    | array inner => exact nodeOf_refers items inner
  | .container .map values props =>
    rw [nodeOf] at refers
    cases refers with
    | map inner => exact nodeOf_refers values inner
  | .union branches props =>
    obtain ⟨variants, optional, same, subset⟩ := nodeOf_union identifiers branches props
    rw [same] at refers
    cases refers with
    | oneOf member inner => exact nodesOf_refers branches (subset member) inner
  | .named reference =>
    rw [nodeOf] at refers
    cases refers
    exact ⟨reference, mem_singleton.mpr rfl, rfl⟩

theorem nodesOf_refers {identifiers} (schemas : List Schema) {node} {name : TypeName}
    (member : node ∈ nodesOf identifiers schemas) (refers : node.Refers name) :
    ∃ reference ∈ Schema.allReferences schemas, name = typeName identifiers reference.name := by
  match schemas with
  | [] => cases member
  | schema :: rest =>
    rw [nodesOf, mem_cons] at member
    rcases member with rfl | later
    · obtain ⟨reference, mentioned, named⟩ := nodeOf_refers schema refers
      exact ⟨reference, mem_append_left _ mentioned, named⟩
    · obtain ⟨reference, mentioned, named⟩ := nodesOf_refers rest later refers
      exact ⟨reference, mem_append_right _ mentioned, named⟩

end

theorem declarationNode_refers {identifiers definition} {name : TypeName}
    (refers : (declarationNode identifiers definition).Refers name) :
    ∃ reference ∈ definition.references, name = typeName identifiers reference.name := by
  unfold declarationNode at refers
  split at refers
  next isError fields body =>
    cases refers with
    | object member inner =>
      obtain ⟨field, isField, rfl⟩ := mem_map.mp member
      obtain ⟨reference, mentioned, named⟩ := nodeOf_refers field.type inner
      refine ⟨reference, mem_flatMap.mpr ⟨field, ?_, mentioned⟩, named⟩
      rw [body]
      exact isField
  next => cases refers
  next => cases refers

theorem declarationNode_name (identifiers : Identifiers) (definition : Definition) :
    (declarationNode identifiers definition).name = typeName identifiers definition.name := by
  unfold declarationNode
  split <;> rfl

theorem declare_ok {catalog identifiers reference declaration}
    (declared : declare catalog identifiers reference = .ok declaration) :
    ∃ definition, catalog.find? reference = some definition ∧
      declaration.node = declarationNode identifiers definition := by
  unfold declare at declared
  split at declared
  next definition _ found =>
    cases declared
    exact ⟨definition, found, rfl⟩
  next => cases declared

theorem typeName_congr {names : List FullName} {name other : FullName} (same : name.text = other.text)
    (listed : other ∈ names) : typeName (assignNames names) name = typeName (assignNames names) other := by
  have present : ((assignNames names).lookup other.text).isSome := by
    rw [Scope.lookup_isSome_iff_mem, assignNames, map_map]
    exact mem_map.mpr ⟨other, listed, rfl⟩
  obtain ⟨identifier, found⟩ := Option.isSome_iff_exists.mp present
  simp only [typeName, same, found, Option.getD_some]

theorem build_ok {catalog package offers file} (built : build catalog package offers = .ok file) :
    ∃ references, namedOffers offers = .ok references ∧
      (∀ declaration ∈ file.declarations, ∃ reference ∈ references,
        declare catalog (assignNames (references.map Reference.name)) reference = .ok declaration) ∧
      ∀ reference ∈ references, ∃ declaration ∈ file.declarations,
        declare catalog (assignNames (references.map Reference.name)) reference = .ok declaration := by
  obtain ⟨references, offered, built⟩ := bind_ok.mp built
  obtain ⟨declarations, declared, built⟩ := bind_ok.mp built
  cases built
  exact ⟨references, offered, mapM_ok declared⟩

private theorem namedOffers_offers {registry : Registry}
    (typed : ∀ entry ∈ registry.entries, entry.type.isSome) :
    namedOffers (Emitter.offers registry) = .ok registry.types := by
  obtain ⟨catalog, entries⟩ := registry
  induction entries with
  | nil => rfl
  | cons _ _ ih =>
    obtain ⟨first, others⟩ := forall_mem_cons.mp typed
    obtain ⟨type, isType⟩ := Option.isSome_iff_exists.mp first
    have later := ih others
    simp only [Emitter.offers, Registry.types] at later ⊢
    simp only [map_cons, isType, namedOffers, later, ok_map, filterMap_cons]

/-- Every reference in the bindings of a coherent registry is to one of their declarations. -/
theorem build_refers {registry : Registry} (coherent : registry.Coherent) {package : Text}
    {file : File} (built : build registry.catalog package (Emitter.offers registry) = .ok file) :
    ∀ declaration ∈ file.declarations, ∀ name, declaration.node.Refers name →
      ∃ other ∈ file.declarations, other.node.name = name := by
  obtain ⟨references, offered, sound, complete⟩ := build_ok built
  have typed (entry : Descriptor) (member : entry ∈ registry.entries) : entry.type.isSome := by
    obtain ⟨type, isType, _⟩ := coherent.typed entry member
    rw [isType]
    rfl
  cases offered.symm.trans (namedOffers_offers typed)
  intro declaration member name refers
  obtain ⟨root, isRoot, declared⟩ := sound declaration member
  obtain ⟨definition, found, node⟩ := declare_ok declared
  rw [node] at refers
  obtain ⟨reference, mentioned, rfl⟩ := declarationNode_refers refers
  obtain ⟨entry, isEntry, isType⟩ := mem_filterMap.mp isRoot
  obtain ⟨other, foundOther, _⟩ :=
    coherent.complete entry isEntry root isType reference (.next (.here root) found mentioned)
  have isOther := mem_of_find?_eq_some foundOther
  have sameName : other.name = reference.name.text := by simpa using find?_some foundOther
  obtain ⟨type, otherType, ⟨definition, foundType, named⟩, otherName, _⟩ :=
    coherent.typed other isOther
  have listed : type ∈ registry.types := mem_filterMap.mpr ⟨other, isOther, otherType⟩
  obtain ⟨target, isTarget, declaredTarget⟩ := complete type listed
  obtain ⟨_, foundTarget, targetNode⟩ := declare_ok declaredTarget
  cases foundType.symm.trans foundTarget
  refine ⟨target, isTarget, ?_⟩
  rw [targetNode, declarationNode_name, named]
  exact (typeName_congr (sameName.symm.trans otherName) (mem_map_of_mem listed)).symm

end Avro.Binding
