import Avro.Proofs.Name
import Avro.Proofs.Schema.Rewriting

/-!
# Mentions

A type that has been written is written by its name from then on, inside its own namespace by its
simple name. That may be the name of a primitive type, or of a type in the namespace where it is
mentioned. A mention is faithful if neither is so.
-/

set_option autoImplicit false

open List

namespace Avro

open Scope

namespace Catalog

def Distinct (catalog : Catalog) : Prop := (catalog.map (·.name.text)).Nodup

theorem Distinct.eq_of_text {catalog : Catalog} (distinct : catalog.Distinct)
    {first second : Reference} (held : catalog.Holds first) (also : catalog.Holds second)
    (same : first.name.text = second.name.text) : first = second := by
  obtain ⟨definition, found, named⟩ := held
  obtain ⟨other, foundOther, namedOther⟩ := also
  rw [Catalog.find?] at found foundOther
  have inside : first.place < catalog.length := (List.getElem?_eq_some_iff.mp found).1
  have places : first.place = second.place := by
    refine (getElem?_inj (by simpa using inside) distinct).mp ?_
    rw [getElem?_map, getElem?_map, found, foundOther, Option.map_some, Option.map_some,
      named, namedOther, same]
  rw [places] at found
  cases found.symm.trans foundOther
  cases first
  cases second
  cases places
  cases named.symm.trans namedOther
  rfl

end Catalog

namespace Schema

theorem Reads.nodup_names {scope after part meaning} (reads : Reads scope part meaning after)
    (distinct : scope.names.Nodup) : after.names.Nodup := by
  induction reads with
  | primitive | name | primitiveObject | nameObject | noBranches | noFields => exact distinct
  | union _ _ ih | container _ _ _ ih | wrapped _ _ _ ih | field _ _ _ _ ih =>
    exact ih distinct
  | leaf _ _ _ defined =>
    rw [names_install]
    exact nodup_define defined distinct
  | record _ _ defined _ _ ih =>
    rw [names_install]
    exact ih (nodup_define defined distinct)
  | moreBranches _ _ firstIH othersIH | moreFields _ _ _ firstIH othersIH =>
    exact othersIH (firstIH distinct)

/-- A mention that is read as the type it stands for. -/
structure Mention.Faithful (mention : Mention) : Prop where
  notPrimitive : Primitive.ofName? (writtenName mention.space mention.reference.name) = none
  notHidden : mention.reference.name.space = [] → mention.space ≠ [] →
    Name.qualify mention.space mention.reference.name.simple ∉ mention.seen

end Schema

namespace Scope

/-- The names of a document are those of types of a catalog that have been written. -/
structure Names (scope : Scope) (catalog : Catalog) (types : List Reference) : Prop
    extends scope.Tells types where
  held : ∀ reference ∈ types, catalog.Holds reference

section Lookup

variable {scope : Scope} {catalog : Catalog} {types : List Reference}
  (names : scope.Names catalog types) {text : Text}

include names

theorem Names.mem_names_iff : text ∈ scope.names ↔ text ∈ Schema.Seen.add [] types := by
  rw [names.toTells.names, Schema.Seen.add, append_nil, mem_reverse]

theorem Names.find?_of_mem (member : text ∈ Schema.Seen.add [] types) :
    ∃ reference, scope.find? text = some (.named reference) ∧ catalog.Holds reference ∧
      reference.name.text = text := by
  have known := find?_isSome_iff.mpr (.inl (names.mem_names_iff.mpr member))
  obtain ⟨schema, found⟩ := Option.isSome_iff_exists.mp known
  have listed := mem_of_find? found
  rw [names.known, names.own, nil_append] at listed
  obtain ⟨reference, among, same⟩ := mem_map.mp listed
  cases same
  exact ⟨reference, found, names.held reference among, rfl⟩

private theorem Names.find?_of_not_mem (absent : text ∉ Schema.Seen.add [] types) :
    scope.find? text = none := by
  rw [← Option.not_isSome_iff_eq_none, find?_isSome_iff, names.mem_names_iff, Knows, names.known]
  exact fun present => present.elim absent Bool.false_ne_true

end Lookup

end Scope

namespace Schema

section Resolve

variable {scope : Scope} {catalog : Catalog} {types : List Reference}
  (names : scope.Names catalog types) (distinct : catalog.Distinct) {reference : Reference}
  (legal : reference.name.Legal) (held : catalog.Holds reference)
  (written : reference.name.text ∈ Seen.add [] types)

include names distinct held written

theorem find?_written : scope.find? reference.name.text = some (.named reference) := by
  obtain ⟨other, found, alsoHeld, same⟩ := names.find?_of_mem written
  rw [found, distinct.eq_of_text alsoHeld held same]

include legal

private theorem resolve?_own :
    scope.resolve? reference.name.simple reference.name.space = some (.named reference) := by
  have full : expand reference.name.simple reference.name.space = reference.name.text := by
    rw [expand, Name.split_simple legal.simple]
    rfl
  rw [resolve?, full, find?_written names distinct held written]
  rfl

private theorem resolve?_qualified (inside : reference.name.space ≠ []) (space : Text) :
    scope.resolve? reference.name.text space = some (.named reference) := by
  have full : expand reference.name.text space = reference.name.text := by
    rw [expand, Name.split_qualified legal.simple inside]
    rfl
  rw [resolve?, full, find?_written names distinct held written]
  rfl

theorem resolve?_outside {space : Text} (outside : reference.name.space = []) (inside : space ≠ []) :
    scope.resolve? reference.name.text space = some (.named reference) ↔
      Name.qualify space reference.name.simple ∉ Seen.add [] types := by
  have simple := FullName.text_of_space_nil outside
  have split := Name.split_simple legal.simple space
  have full : expand reference.name.text space =
      Name.qualify space reference.name.simple := by
    rw [simple, expand, split]
  have nonempty : space.isEmpty = false := by
    rwa [← Bool.not_eq_true, List.isEmpty_iff]
  have longer : Name.qualify space reference.name.simple ≠ reference.name.text := by
    intro same
    have lengths := congrArg List.length same
    have dot : (Text.ofString ".").length = 1 := rfl
    rw [simple, Name.qualify, nonempty] at lengths
    simp only [Bool.false_eq_true, if_false, length_append, dot] at lengths
    omega
  have fallback : (!(Name.split reference.name.text space).1.isEmpty &&
      decide (Name.qualify space reference.name.simple ≠ reference.name.text)) = true := by
    rw [simple, split] at *
    simp [nonempty, longer]
  rw [resolve?, full]
  simp only [fallback, if_true]
  by_cases taken : Name.qualify space reference.name.simple ∈ Seen.add [] types
  · obtain ⟨other, found, _, same⟩ := names.find?_of_mem taken
    rw [found, Option.some_or, Option.some.injEq, Schema.named.injEq]
    refine iff_of_false ?_ (fun absent => absent taken)
    rintro rfl
    exact longer same.symm
  · rw [names.find?_of_not_mem taken, Option.none_or, find?_written names distinct held written]
    exact iff_of_true rfl taken

theorem readName_writtenName (space : Text) :
    readName scope space (writtenName space reference.name) = .ok (.named reference) ↔
      Mention.Faithful ⟨space, reference, Seen.add [] types⟩ := by
  have resolves : scope.resolve? (writtenName space reference.name) space =
      some (.named reference) ↔ (reference.name.space = [] → space ≠ [] →
        Name.qualify space reference.name.simple ∉ Seen.add [] types) := by
    rw [writtenName]
    split
    · rename_i own
      subst own
      rw [resolve?_own names distinct legal held written]
      exact iff_of_true rfl fun outside inside => absurd outside inside
    · rename_i foreign
      by_cases outside : reference.name.space = []
      · have inside : space ≠ [] := fun same => foreign (outside.trans same.symm)
        rw [resolve?_outside names distinct legal held written outside inside]
        exact ⟨fun free _ _ => free, fun free => free outside inside⟩
      · rw [resolve?_qualified names distinct legal held written outside]
        exact iff_of_true rfl fun same => absurd same outside
  rw [readName_ok_iff, resolves]
  constructor
  · rintro (⟨_, _, same⟩ | ⟨other, free⟩)
    · cases same
    · exact ⟨other, free⟩
  · exact fun faithful => .inr ⟨faithful.notPrimitive, faithful.notHidden⟩

end Resolve

end Schema

end Avro
