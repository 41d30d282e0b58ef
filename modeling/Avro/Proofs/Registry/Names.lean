import Avro.Proofs.Protocol.Reading
import Avro.Registry

/-!
# The names of a registry

Which names a document brings along does not depend on the registry it is read against, and a
registry after a merge has exactly the names it had and those of the batch.
-/

set_option autoImplicit false

open List

namespace Avro

open Descriptor

def Batch.names (batch : Batch) : List Text := batch.types.map name

theorem Batch.names_ofTypes (catalog : Catalog) (source : Text) (types : List Reference) :
    Batch.names ⟨catalog, types.map (ofType catalog source)⟩ =
      types.map (·.name.text) := by
  simp only [names, map_map]
  rfl

namespace Registry

variable {narrow before : Registry}

def Knows (registry : Registry) (name : Text) : Prop :=
  ∃ entry ∈ registry.entries, entry.name = name ∧ entry.type.isSome

theorem knows_scope_iff {registry : Registry} {name : Text} :
    registry.scope.Knows name ↔ registry.Knows name := by
  rw [Scope.Knows, Scope.lookup_isSome_iff_mem, scope, Scope.start, Knows]
  simp only [mem_map, mem_filterMap, Option.map_eq_some_iff]
  constructor
  · rintro ⟨_, ⟨entry, member, type, found, rfl⟩, rfl⟩
    exact ⟨entry, member, rfl, by rw [found]; rfl⟩
  · rintro ⟨entry, member, rfl, isSome⟩
    obtain ⟨type, found⟩ := Option.isSome_iff_exists.mp isSome
    exact ⟨_, ⟨entry, member, type, found, rfl⟩, rfl⟩

theorem defined_of_scope {registry : Registry} {after definitions}
    (extended : registry.scope.Extends after definitions) :
    after.defined = Scope.references registry.catalog.length definitions := by
  rw [extended.defined]
  rfl

/-- What is true of reading a document with the registry `wide` if reading it with `narrow` gave a
batch. -/
def Follows (narrow wide : Registry) (batch : Batch) : Except SchemaError Batch → Prop
  | .ok other => other.names = batch.names
  | .error error => (∀ name, narrow.Knows name → wide.Knows name) → error.isUndefined = false

theorem covers_scope {wide : Registry} (more : ∀ name, narrow.Knows name → wide.Knows name) :
    wide.scope.Covers narrow.scope := fun name knows =>
  knows_scope_iff.mpr (more name (knows_scope_iff.mp knows))

theorem readSchema_follows (wide : Registry) {source content : Text} {batch : Batch}
    (read : narrow.readSchema source content = .ok batch) :
    Follows narrow wide batch (wide.readSchema source content) := by
  obtain ⟨⟨schema, after⟩, done, rfl⟩ := map_ok.mp read
  unfold readSchema
  unfold Schema.readDocument at done ⊢
  cases decoded : Json.decode content with
  | error => exact fun _ => rfl
  | ok value =>
    simp only [decoded] at done
    have reads := Schema.read_ok_iff.mp done
    have same : wide.scope.names = narrow.scope.names := rfl
    have follows := (reads.follows same).unmap
    dsimp only
    cases again : Schema.read wide.scope [] value with
    | error =>
      rw [again] at follows
      exact fun more => follows (covers_scope more)
    | ok =>
      rw [again] at follows
      have rereads := Schema.read_ok_iff.mp again
      obtain ⟨_, extended, _⟩ := reads.offers.1
      obtain ⟨_, widely, _⟩ := rereads.offers.1
      simp only [ok_map, Follows, Batch.names_ofTypes, defined_of_scope extended,
        defined_of_scope widely, Scope.map_text_references, reads.declared extended,
        rereads.declared widely]

theorem readProtocol_follows (wide : Registry) {source content : Text} {batch : Batch}
    (read : narrow.readProtocol source content = .ok batch) :
    Follows narrow wide batch (wide.readProtocol source content) := by
  obtain ⟨⟨protocol, after⟩, done, rfl⟩ := map_ok.mp read
  unfold readProtocol
  unfold Protocol.readDocument at done ⊢
  split at done
  next => cases done
  next members decoded =>
    have same : wide.scope.names = narrow.scope.names := rfl
    have follows := Protocol.readMembers_follows done same
    cases again : Protocol.readMembers wide.scope members with
    | error =>
      rw [again] at follows
      exact fun more => follows (covers_scope more)
    | ok =>
      obtain ⟨_, _, _, _, spaced, _⟩ := Protocol.readMembers_ok done
      obtain ⟨_, _, _, _, spacedAgain, _⟩ := Protocol.readMembers_ok again
      simp only [ok_map, Follows, Batch.names_ofTypes, Protocol.readMembers_declared done,
        Protocol.readMembers_declared again, spaced, spacedAgain]
  next => cases done

/-- A registry goes on from an earlier one with types of the given names. A name that was there
before keeps its entry. -/
structure Grows (before after : Registry) (added : List Text) : Prop where
  names : ∀ name, name ∈ after.names ↔ name ∈ before.names ∨ name ∈ added
  knows : ∀ name, after.Knows name ↔ before.Knows name ∨ name ∈ added ∧ name ∉ before.names

theorem Grows.refl (registry : Registry) {added : List Text} (present : added ⊆ registry.names) :
    registry.Grows registry added where
  names _ := ⟨.inl, fun listed => listed.elim id fun new => present new⟩
  knows _ := ⟨.inl, fun knows => knows.elim id fun new => absurd (present new.1) new.2⟩

theorem Grows.trans {middle after first second} (start : before.Grows middle first)
    (continued : middle.Grows after second) : before.Grows after (first ++ second) where
  names name := by rw [continued.names, start.names, mem_append, or_assoc]
  knows name := by
    rw [continued.knows, start.knows, start.names, mem_append]
    grind

theorem Grows.knows_mono {first second fewer more} (narrowly : before.Grows first fewer)
    (widely : before.Grows second more) (subset : fewer ⊆ more) (name : Text)
    (knows : first.Knows name) : second.Knows name := by
  rw [narrowly.knows] at knows
  rw [widely.knows]
  exact knows.imp_right fun new => ⟨subset new.1, new.2⟩

private theorem grows_cons (catalog : Catalog) (entries : List Descriptor) {descriptor : Descriptor}
    (typed : descriptor.type.isSome) (fresh : descriptor.name ∉ entries.map name) :
    Grows ⟨catalog, entries⟩ ⟨catalog, entries ++ [descriptor]⟩ [descriptor.name] where
  names name := by simp [Registry.names]
  knows name := by
    simp only [Knows, Registry.names, mem_append, mem_singleton]
    constructor
    · rintro ⟨entry, member | rfl, rfl, isSome⟩
      · exact .inl ⟨entry, member, rfl, isSome⟩
      · exact .inr ⟨rfl, fresh⟩
    · rintro (⟨entry, member, rfl, isSome⟩ | ⟨rfl, _⟩)
      · exact ⟨entry, .inl member, rfl, isSome⟩
      · exact ⟨descriptor, .inr rfl, rfl, typed⟩

private theorem extend_grows {catalog other entries types result}
    (typed : ∀ descriptor ∈ types, descriptor.type.isSome)
    (extended : extend entries types = .ok result) :
    Grows ⟨catalog, entries⟩ ⟨other, result⟩ (types.map name) := by
  induction types generalizing entries with
  | nil =>
    cases extended
    have same := Grows.refl ⟨catalog, result⟩ (nil_subset _)
    exact ⟨same.names, same.knows⟩
  | cons descriptor _ ih =>
    have ⟨first, others⟩ := forall_mem_cons.mp typed
    unfold extend at extended
    split at extended
    next absent =>
      refine (grows_cons catalog entries first ?_).trans (ih others extended)
      simpa using absent
    next existing found =>
      split at extended
      next =>
        have same : existing.name = descriptor.name := by simpa using find?_some found
        have listed : [descriptor.name] ⊆ entries.map name :=
          cons_subset.mpr
            ⟨mem_map.mpr ⟨existing, mem_of_find?_eq_some found, same⟩, nil_subset _⟩
        exact (Grows.refl ⟨catalog, entries⟩ listed).trans (ih others extended)
      next => cases extended

theorem merge_grows {after : Registry} {batch : Batch}
    (typed : ∀ descriptor ∈ batch.types, descriptor.type.isSome)
    (merged : before.merge batch = .ok after) : before.Grows after batch.names := by
  obtain ⟨entries, extended, rfl⟩ := map_ok.mp merged
  exact extend_grows typed extended

end Registry

end Avro
