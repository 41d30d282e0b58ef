import Avro.Proofs.Registry.Merging

/-!
# Order and batches do not matter

Whether all that several clients bring is registered depends on the descriptors alone, and so do the
names and texts that the registry then holds.
-/

set_option autoImplicit false

open List

namespace Avro

open Registry

namespace Descriptor

variable {entries types : List Descriptor}

theorem extend_append (entries types more : List Descriptor) :
    extend entries (types ++ more) = extend entries types >>= fun middle => extend middle more := by
  induction types generalizing entries with
  | nil => rfl
  | cons _ _ ih =>
    simp only [cons_append, extend]
    split
    · exact ih _
    · split
      · exact ih _
      · rfl

private theorem extend_ok_iff (distinct : (entries.map Descriptor.name).Nodup) :
    (∃ result, extend entries types = .ok result) ↔ Agree (entries ++ types) := by
  constructor
  · rintro ⟨result, extended⟩
    exact (extend_newcomers distinct extended).1
  · intro agree
    cases extended : extend entries types with
    | ok result => exact ⟨result, rfl⟩
    | error =>
      obtain ⟨before, descriptor, existing, clash, _⟩ := extend_firstClash distinct extended
      exact absurd clash.clashes (agree.not_clashes clash.next)

theorem Agree.of_subset {first second} (agree : Agree second) (within : first ⊆ second) :
    Agree first := by
  intro descriptor member other among
  exact agree descriptor (within member) other (within among)

private theorem Agree.text?_eq {first second} (agree : Agree second)
    (same : ∀ descriptor, descriptor ∈ first ↔ descriptor ∈ second) (name : Text) :
    text? first name = text? second name := by
  refine text?_eq_of_names (by simp only [mem_map, same]) fun _ _ told toldToo => ?_
  obtain ⟨descriptor, found, rfl⟩ := Option.map_eq_some_iff.mp told
  obtain ⟨twin, foundToo, rfl⟩ := Option.map_eq_some_iff.mp toldToo
  obtain ⟨member, rfl⟩ := mem_of_first? found
  obtain ⟨among, named⟩ := mem_of_first? foundToo
  exact agree twin among descriptor ((same descriptor).mp member) named.symm

end Descriptor

namespace Registry

variable {registry after : Registry} {batches others : List Batch}

/-- Merges batches one after another, up to the first that is refused. -/
def mergeEach (registry : Registry) (batches : List Batch) : Except Conflict Registry :=
  batches.foldlM merge registry

private theorem mergeEach_cons (registry : Registry) (batch : Batch) (batches : List Batch) :
    registry.mergeEach (batch :: batches) =
      registry.merge batch >>= fun middle => middle.mergeEach batches := by
  simp [mergeEach]

theorem entries_mergeEach (registry : Registry) (batches : List Batch) :
    (registry.mergeEach batches).map entries =
      Descriptor.extend registry.entries (batches.flatMap Batch.types) := by
  induction batches generalizing registry with
  | nil => rfl
  | cons batch _ ih =>
    rw [mergeEach_cons, flatMap_cons, Descriptor.extend_append, merge]
    cases Descriptor.extend registry.entries batch.types with
    | error => rfl
    | ok => exact ih _

theorem extend_of_mergeEach (merged : registry.mergeEach batches = .ok after) :
    Descriptor.extend registry.entries (batches.flatMap Batch.types) = .ok after.entries := by
  rw [← entries_mergeEach, merged]
  rfl

theorem mergeEach_ok_iff (distinct : registry.names.Nodup) :
    (∃ after, registry.mergeEach batches = .ok after) ↔
      Descriptor.Agree (registry.entries ++ batches.flatMap Batch.types) := by
  rw [← Descriptor.extend_ok_iff distinct, ← entries_mergeEach]
  constructor
  · rintro ⟨after, merged⟩
    exact ⟨after.entries, map_ok.mpr ⟨after, merged, rfl⟩⟩
  · rintro ⟨entries, extended⟩
    obtain ⟨after, merged, _⟩ := map_ok.mp extended
    exact ⟨after, merged⟩

theorem mem_names_mergeEach (distinct : registry.names.Nodup)
    (merged : registry.mergeEach batches = .ok after) (name : Text) :
    name ∈ after.names ↔
      name ∈ (registry.entries ++ batches.flatMap Batch.types).map Descriptor.name := by
  have found := (Descriptor.extend_newcomers distinct (extend_of_mergeEach merged)).2.1 name
  rw [← not_iff_not, names, ← Descriptor.first?_eq_none_iff, ← Descriptor.first?_eq_none_iff, found]

/-- A registry that started empty and has been through any batches is given some descriptors more,
in two orders and cut into batches in two ways. None of the one batches is refused exactly if none
of the others is, and then the two registries hold the same names, each once, with the same texts. -/
theorem mergeEach_perm (earlier : List Batch)
    (same : (batches.flatMap Batch.types).Perm (others.flatMap Batch.types)) :
    let registry := empty.mergeAll earlier
    ((∃ after, registry.mergeEach batches = .ok after) ↔
      ∃ after, registry.mergeEach others = .ok after) ∧
    ∀ first second, registry.mergeEach batches = .ok first → registry.mergeEach others = .ok second →
      first.names.Nodup ∧ second.names.Nodup ∧ first.names.Perm second.names ∧
        ∀ name, (first.find? name).map Descriptor.canonical =
          (second.find? name).map Descriptor.canonical := by
  intro registry
  have none : empty.names.Nodup := nodup_nil
  have distinct : registry.names.Nodup := nodup_mergeAll none earlier
  have members : ∀ descriptor, descriptor ∈ registry.entries ++ batches.flatMap Batch.types ↔
      descriptor ∈ registry.entries ++ others.flatMap Batch.types := by
    intro descriptor
    rw [mem_append, mem_append, same.mem_iff]
  constructor
  · rw [mergeEach_ok_iff distinct, mergeEach_ok_iff distinct]
    constructor
    · exact fun agree => agree.of_subset fun descriptor => (members descriptor).mpr
    · exact fun agree => agree.of_subset fun descriptor => (members descriptor).mp
  · intro first second merged mergedToo
    have distinctFirst := Descriptor.nodup_extend distinct (extend_of_mergeEach merged)
    have distinctSecond := Descriptor.nodup_extend distinct (extend_of_mergeEach mergedToo)
    refine ⟨distinctFirst, distinctSecond, ?_, ?_⟩
    · refine (perm_ext_iff_of_nodup distinctFirst distinctSecond).mpr fun name => ?_
      rw [← names, ← names, mem_names_mergeEach distinct merged,
        mem_names_mergeEach distinct mergedToo]
      simp only [mem_map, members]
    · intro name
      have agree := (mergeEach_ok_iff distinct).mp ⟨second, mergedToo⟩
      have here := (Descriptor.extend_newcomers distinct (extend_of_mergeEach merged)).2.1 name
      have there := (Descriptor.extend_newcomers distinct (extend_of_mergeEach mergedToo)).2.1 name
      exact (congrArg _ here).trans ((agree.text?_eq members name).trans (congrArg _ there.symm))

/-- Three clients bring two types, one of them twice. Whoever comes first is the source on record. -/
theorem mergeEach_perm_threeClients :
    let left : Descriptor := ⟨"A", "one", "left", none⟩
    let right : Descriptor := ⟨"A", "one", "right", none⟩
    let other : Descriptor := ⟨"B", "two", "left", none⟩
    let joined : List Batch := [⟨[], [left, other]⟩, ⟨[], [right]⟩]
    let apart : List Batch := [⟨[], [right]⟩, ⟨[], [other]⟩, ⟨[], [left]⟩]
    empty.mergeEach joined = .ok ⟨[], [left, other]⟩ ∧
      empty.mergeEach apart = .ok ⟨[], [right, other]⟩ ∧
      ∀ name, ((⟨[], [left, other]⟩ : Registry).find? name).map Descriptor.canonical =
        ((⟨[], [right, other]⟩ : Registry).find? name).map Descriptor.canonical := by
  intro left right other joined apart
  have same : (joined.flatMap Batch.types).Perm (apart.flatMap Batch.types) := by decide
  have together : empty.mergeEach joined = .ok ⟨[], [left, other]⟩ := rfl
  have alone : empty.mergeEach apart = .ok ⟨[], [right, other]⟩ := rfl
  exact ⟨together, alone, ((mergeEach_perm [] same).2 _ _ together alone).2.2.2⟩

end Registry

end Avro
