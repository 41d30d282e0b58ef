import Avro.Proofs.Registry.Names
import Avro.Proofs.Schema.Writes

/-!
# Coherent registries

In a coherent registry every type that can be reached from a registered one is registered too, with
the text it has there. Merging a batch that was read with the registry keeps it so.
-/

set_option autoImplicit false

open List

namespace Avro

/-- A type is reached from another one through the fields of definitions, and through items, values
and branches. -/
inductive Catalog.Reaches (catalog : Catalog) : Reference → Reference → Prop where
  | here (root : Reference) : Reaches catalog root root
  | next {root node next definition} (path : Reaches catalog root node)
      (found : catalog.find? node = some definition) (mentioned : next ∈ definition.references) :
      Reaches catalog root next

theorem Catalog.Reaches.holds {catalog : Catalog} (closed : catalog.Closed) {root node : Reference}
    (reaches : catalog.Reaches root node) (held : catalog.Holds root) : catalog.Holds node := by
  induction reaches with
  | here => exact held
  | next _ found mentioned => exact closed _ (mem_of_getElem? found) _ mentioned

theorem Catalog.Reaches.of_append {catalog : Catalog} (closed : catalog.Closed) {root node more}
    (reaches : Catalog.Reaches (catalog ++ more) root node) (held : catalog.Holds root) :
    catalog.Reaches root node := by
  induction reaches with
  | here => exact .here root
  | next _ found mentioned ih =>
    obtain ⟨definition, foundBefore, _⟩ := ih.holds closed held
    cases (find?_append foundBefore more).symm.trans found
    exact .next ih foundBefore mentioned

namespace Registry

/-- Everything that a registry holds, and that its types lead to, is registered as it is. -/
structure Coherent (registry : Registry) : Prop where
  closed : registry.catalog.Closed
  typed : ∀ entry ∈ registry.entries, ∃ type, entry.type = some type ∧
    registry.catalog.Holds type ∧ entry.name = type.name.text ∧
    entry.canonical = (Schema.named type).canonical registry.catalog
  complete : ∀ entry ∈ registry.entries, ∀ type, entry.type = some type →
    ∀ node, registry.catalog.Reaches type node →
      ∃ other, registry.find? node.name.text = some other ∧
        other.canonical = (Schema.named node).canonical registry.catalog

theorem coherent_empty : empty.Coherent where
  closed := nofun
  typed := nofun
  complete := nofun

/-- A batch of the types of some definitions, which go behind the catalog of a registry. More may
follow that are not in the batch. -/
structure Batched (registry : Registry) (batch : Batch) (definitions more : List Definition) :
    Prop where
  catalog : batch.catalog = registry.catalog ++ (definitions ++ more)
  types : ∃ source, batch.types =
    (Scope.references registry.catalog.length definitions).map
      (Descriptor.ofType batch.catalog source)
  listed : ∀ definition ∈ definitions, ∀ reference ∈ definition.references,
    reference ∈ registry.types ∨
      reference ∈ Scope.references registry.catalog.length definitions
  others : ∀ definition ∈ more, ∀ reference ∈ definition.references,
    reference ∈ registry.types ∨
      reference ∈ Scope.references registry.catalog.length (definitions ++ more)

theorem offered_of_scope {registry : Registry} {after definitions}
    (extended : registry.scope.Extends after definitions) {reference}
    (offered : after.Offers reference) :
    reference ∈ registry.types ∨
      reference ∈ Scope.references registry.catalog.length definitions := by
  obtain ⟨entry, member, mentioned⟩ := offered
  rw [extended.known, extended.own] at member
  rcases mem_append.mp member with known | own
  · obtain ⟨descriptor, isEntry, found⟩ := mem_filterMap.mp known
    obtain ⟨type, isType, rfl⟩ := Option.map_eq_some_iff.mp found
    cases mem_singleton.mp mentioned
    exact .inl (mem_filterMap.mpr ⟨descriptor, isEntry, isType⟩)
  · obtain ⟨type, isDefined, rfl⟩ := mem_map.mp own
    cases mem_singleton.mp mentioned
    exact .inr isDefined

theorem readSchema_batched {registry : Registry} {source content : Text} {batch : Batch}
    (read : registry.readSchema source content = .ok batch) :
    ∃ definitions, registry.Batched batch definitions [] := by
  obtain ⟨⟨schema, after⟩, done, rfl⟩ := map_ok.mp read
  unfold Schema.readDocument at done
  split at done
  next => cases done
  next =>
    obtain ⟨definitions, extended, offered⟩ := (Schema.read_ok_iff.mp done).offers.1
    refine ⟨definitions, ?_, ⟨source, ?_⟩, ?_, nofun⟩
    · rw [append_nil]
      exact extended.catalog
    · dsimp only
      rw [defined_of_scope extended]
    · intro definition member reference mentioned
      exact offered_of_scope extended (offered definition member reference mentioned)

theorem readProtocol_batched {registry : Registry} {source content : Text} {batch : Batch}
    (read : registry.readProtocol source content = .ok batch) :
    ∃ definitions more, registry.Batched batch definitions more := by
  obtain ⟨⟨protocol, after⟩, done, rfl⟩ := map_ok.mp read
  unfold Protocol.readDocument at done
  split at done
  next => cases done
  next =>
    obtain ⟨_, _, _, _, _, _, typesRead, types, _, messagesRead, _⟩ := Protocol.readMembers_ok done
    obtain ⟨definitions, extended, offered⟩ := Protocol.readTypes_develops typesRead
    obtain ⟨more, continued, offeredLater⟩ := (Protocol.readMessages_reads messagesRead).1.offers.1
    have whole := extended.trans continued
    refine ⟨definitions, more, whole.catalog, ⟨source, ?_⟩, ?_, ?_⟩
    · dsimp only
      rw [types, extended.drop_defined]
      rfl
    · intro definition member reference mentioned
      exact offered_of_scope extended (offered definition member reference mentioned)
    · intro definition member reference mentioned
      exact offered_of_scope whole (offeredLater definition member reference mentioned)
  next => cases done

/-! ## Merging -/

theorem extend_ok {entries types result} (extended : Descriptor.extend entries types = .ok result) :
    entries <+: result ∧ (∀ entry ∈ result, entry ∈ entries ∨ entry ∈ types) ∧
      ∀ descriptor ∈ types, ∃ other,
        result.find? (fun existing => existing.name = descriptor.name) = some other ∧
          other.canonical = descriptor.canonical := by
  induction types generalizing entries with
  | nil =>
    cases extended
    exact ⟨prefix_refl _, fun _ => .inl, nofun⟩
  | cons descriptor _ ih =>
    unfold Descriptor.extend at extended
    split at extended
    next absent =>
      obtain ⟨isPrefix, known, present⟩ := ih extended
      refine ⟨(prefix_append _ _).trans isPrefix, ?_, ?_⟩
      · intro entry member
        rcases known entry member with earlier | later
        · rw [mem_append, mem_singleton] at earlier
          exact earlier.imp_right fun new => mem_cons.mpr (.inl new)
        · exact .inr (mem_cons_of_mem _ later)
      · refine forall_mem_cons.mpr ⟨⟨descriptor, ?_, rfl⟩, present⟩
        refine isPrefix.find?_eq_some ?_
        rw [List.find?_append, absent]
        simp
    next existing found =>
      split at extended
      next same =>
        obtain ⟨isPrefix, known, present⟩ := ih extended
        refine ⟨isPrefix, ?_, ?_⟩
        · exact fun entry member => (known entry member).imp_right (mem_cons_of_mem _)
        · exact forall_mem_cons.mpr ⟨⟨existing, isPrefix.find?_eq_some found, same⟩, present⟩
      next => cases extended

section Merge

variable {registry : Registry} {batch : Batch} {definitions more : List Definition}

theorem Coherent.holds_types (coherent : registry.Coherent) {reference : Reference}
    (member : reference ∈ registry.types) : registry.catalog.Holds reference := by
  obtain ⟨entry, isEntry, isType⟩ := mem_filterMap.mp member
  obtain ⟨type, found, held, _⟩ := coherent.typed entry isEntry
  cases found.symm.trans isType
  exact held

theorem Batched.closed (batched : registry.Batched batch definitions more)
    (coherent : registry.Coherent) : batch.catalog.Closed := by
  have held {reference : Reference} (known : reference ∈ registry.types ∨
      reference ∈ Scope.references registry.catalog.length (definitions ++ more)) :
      batch.catalog.Holds reference := by
    rw [batched.catalog]
    rcases known with registered | defined
    · exact (coherent.holds_types registered).append _
    · obtain ⟨definition, _, found, named⟩ :=
        Catalog.find?_references registry.catalog (definitions ++ more) reference defined
      exact ⟨definition, found, named⟩
  intro definition member reference mentioned
  rw [batched.catalog, mem_append, mem_append] at member
  rcases member with earlier | listed | other
  · rw [batched.catalog]
    exact (coherent.closed definition earlier reference mentioned).append _
  · refine held ((batched.listed definition listed reference mentioned).imp_right ?_)
    intro defined
    rw [Scope.references_append]
    exact mem_append_left _ defined
  · exact held (batched.others definition other reference mentioned)

theorem Batched.reaches (batched : registry.Batched batch definitions more)
    (coherent : registry.Coherent) {root node : Reference}
    (reaches : batch.catalog.Reaches root node)
    (listed : root ∈ Scope.references registry.catalog.length definitions) :
    node ∈ Scope.references registry.catalog.length definitions ∨
      ∃ type ∈ registry.types, registry.catalog.Reaches type node := by
  induction reaches with
  | here => exact .inl listed
  | @next node next definition _ found mentioned ih =>
    rw [batched.catalog] at found
    rcases ih with own | ⟨type, registered, path⟩
    · obtain ⟨_, isListed, foundOwn, _⟩ :=
        Catalog.find?_references registry.catalog definitions node own
      rw [← append_assoc] at found
      cases (Catalog.find?_append foundOwn more).symm.trans found
      refine (batched.listed definition isListed next mentioned).symm.imp_right ?_
      exact fun registered => ⟨next, registered, .here next⟩
    · obtain ⟨_, foundBefore, _⟩ := path.holds coherent.closed (coherent.holds_types registered)
      cases (Catalog.find?_append foundBefore _).symm.trans found
      exact .inr ⟨type, registered, .next path foundBefore mentioned⟩

theorem isPrefix_merge {after : Registry} (merged : registry.merge batch = .ok after) :
    registry.entries <+: after.entries := by
  obtain ⟨entries, extended, rfl⟩ := map_ok.mp merged
  exact (extend_ok extended).1

theorem Coherent.merge (coherent : registry.Coherent)
    (batched : registry.Batched batch definitions more) {after : Registry}
    (merged : registry.merge batch = .ok after) : after.Coherent := by
  obtain ⟨entries, extended, rfl⟩ := map_ok.mp merged
  obtain ⟨isPrefix, known, present⟩ := extend_ok extended
  obtain ⟨source, types⟩ := batched.types
  have closed := batched.closed coherent
  have stable {reference : Reference} (held : registry.catalog.Holds reference) :
      (Schema.named reference).canonical batch.catalog =
        (Schema.named reference).canonical registry.catalog := by
    rw [batched.catalog]
    exact Schema.canonical_append coherent.closed held _
  have reached {type node : Reference} (registered : type ∈ registry.types)
      (path : registry.catalog.Reaches type node) :
      ∃ other, entries.find? (fun entry => entry.name = node.name.text) = some other ∧
        other.canonical = (Schema.named node).canonical batch.catalog := by
    obtain ⟨entry, isEntry, isType⟩ := mem_filterMap.mp registered
    obtain ⟨other, found, same⟩ := coherent.complete entry isEntry type isType node path
    have held := path.holds coherent.closed (coherent.holds_types registered)
    exact ⟨other, isPrefix.find?_eq_some found, same.trans (stable held).symm⟩
  refine ⟨closed, ?_, ?_⟩
  · intro entry member
    rcases known entry member with earlier | later
    · obtain ⟨type, isType, held, named, canonical⟩ := coherent.typed entry earlier
      refine ⟨type, isType, ?_, named, canonical.trans (stable held).symm⟩
      rw [batched.catalog]
      exact held.append _
    · rw [types] at later
      obtain ⟨type, listed, rfl⟩ := mem_map.mp later
      obtain ⟨definition, _, found, named⟩ :=
        Catalog.find?_references registry.catalog definitions type listed
      refine ⟨type, rfl, ⟨definition, ?_, named⟩, rfl, rfl⟩
      rw [batched.catalog, ← append_assoc]
      exact Catalog.find?_append found more
  · intro entry member type isType node path
    rcases known entry member with earlier | later
    · have registered : type ∈ registry.types := mem_filterMap.mpr ⟨entry, earlier, isType⟩
      rw [batched.catalog] at path
      exact reached registered (path.of_append coherent.closed (coherent.holds_types registered))
    · rw [types] at later
      obtain ⟨root, listed, rfl⟩ := mem_map.mp later
      cases isType
      rcases batched.reaches coherent path listed with own | ⟨_, registered, rest⟩
      · refine present (Descriptor.ofType batch.catalog source node) ?_
        rw [types]
        exact mem_map_of_mem own
      · exact reached registered rest

end Merge

end Registry

end Avro
