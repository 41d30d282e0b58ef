import Mathlib.Data.List.Nodup
import Avro.Proofs.Registry.Coherent

/-!
# Merging batch after batch

No name is registered twice, and an entry is the first descriptor of its name among all that were
accepted. A batch is refused exactly if one of its descriptors disagrees with an earlier one.
-/

set_option autoImplicit false

open List

namespace Avro

namespace Descriptor

variable {descriptor : Descriptor}

def first? (descriptors : List Descriptor) (name : Text) : Option Descriptor :=
  descriptors.find? fun descriptor => descriptor.name = name

/-- The text of the first of a name. -/
def text? (descriptors : List Descriptor) (name : Text) : Option Text :=
  (first? descriptors name).map canonical

def Agree (descriptors : List Descriptor) : Prop :=
  ∀ descriptor ∈ descriptors, ∀ other ∈ descriptors,
    other.name = descriptor.name → other.canonical = descriptor.canonical

/-- A descriptor has the name of an earlier one and another text. -/
def Clashes (earlier : List Descriptor) (descriptor : Descriptor) : Prop :=
  ∃ other ∈ earlier, other.name = descriptor.name ∧ other.canonical ≠ descriptor.canonical

section Lookup

variable {entries types : List Descriptor} {descriptor existing : Descriptor} {name : Text}

theorem first?_eq_none_iff : first? entries name = none ↔ name ∉ entries.map Descriptor.name := by
  simp [first?]

theorem mem_of_first? (found : first? entries name = some existing) :
    existing ∈ entries ∧ existing.name = name :=
  ⟨mem_of_find?_eq_some found, by simpa using find?_some found⟩

theorem first?_append (first second : List Descriptor) :
    first? (first ++ second) name = (first? first name).or (first? second name) :=
  List.find?_append

theorem first?_cons (descriptor : Descriptor) (rest : List Descriptor) :
    first? (descriptor :: rest) name =
      if descriptor.name = name then some descriptor else first? rest name := by
  simp only [first?, find?_cons]
  split <;> simp_all

theorem first?_skip (taken : descriptor.name ∈ entries.map Descriptor.name) :
    first? (entries ++ descriptor :: types) name = first? (entries ++ types) name := by
  rw [first?_append, first?_append, first?_cons]
  split
  · rename_i same
    cases found : first? entries name with
    | none => exact absurd (same ▸ taken) (first?_eq_none_iff.mp found)
    | some => rfl
  · rfl

theorem text?_isSome_iff : (text? entries name).isSome ↔ name ∈ entries.map Descriptor.name := by
  simp [text?, first?]

theorem text?_eq_of_names (named : name ∈ entries.map Descriptor.name ↔
      name ∈ types.map Descriptor.name)
    (alike : ∀ text textToo, text? entries name = some text → text? types name = some textToo →
      text = textToo) : text? entries name = text? types name := by
  rw [← text?_isSome_iff, ← text?_isSome_iff] at named
  cases told : text? entries name with
  | none => exact (Option.not_isSome_iff_eq_none.mp (mt named.mpr (by simp [told]))).symm
  | some text =>
    obtain ⟨textToo, toldToo⟩ := Option.isSome_iff_exists.mp (named.mp (by simp [told]))
    rw [toldToo, alike text textToo told toldToo]

end Lookup

section Agreement

variable {entries types : List Descriptor} {descriptor existing : Descriptor}

theorem Agree.clashes_iff (agree : Agree entries) : Clashes entries descriptor ↔
    ∃ existing, first? entries descriptor.name = some existing ∧
      existing.canonical ≠ descriptor.canonical := by
  constructor
  · rintro ⟨other, member, same, differs⟩
    cases found : first? entries descriptor.name with
    | none =>
      refine absurd ?_ (first?_eq_none_iff.mp found)
      exact mem_map.mpr ⟨other, member, same⟩
    | some existing =>
      obtain ⟨present, named⟩ := mem_of_first? found
      have equal := agree existing present other member (same.trans named.symm)
      exact ⟨existing, rfl, fun agrees => differs (equal.trans agrees)⟩
  · rintro ⟨existing, found, differs⟩
    obtain ⟨present, named⟩ := mem_of_first? found
    exact ⟨existing, present, named, differs⟩

private theorem agree_snoc : Agree (entries ++ [descriptor]) ↔
    Agree entries ∧ ¬ Clashes entries descriptor := by
  simp only [Agree, Clashes]
  grind

theorem Agree.of_append (agree : Agree (entries ++ types)) : Agree entries :=
  fun descriptor member other among =>
    agree descriptor (mem_append_left _ member) other (mem_append_left _ among)

private theorem exists_twin (taken : descriptor.name ∈ entries.map Descriptor.name)
    (agrees : ¬ Clashes entries descriptor) {other : Descriptor}
    (member : other ∈ entries ++ descriptor :: types) :
    ∃ twin ∈ entries ++ types, twin.name = other.name ∧ twin.canonical = other.canonical := by
  rw [mem_append, mem_cons] at member
  rcases member with inEntries | rfl | inTypes
  · exact ⟨other, mem_append_left _ inEntries, rfl, rfl⟩
  · obtain ⟨existing, present, named⟩ := mem_map.mp taken
    have same : existing.canonical = other.canonical :=
      Decidable.byContradiction fun differs => agrees ⟨existing, present, named, differs⟩
    exact ⟨existing, mem_append_left _ present, named, same⟩
  · exact ⟨other, mem_append_right _ inTypes, rfl, rfl⟩

theorem subset_skip : entries ++ types ⊆ entries ++ descriptor :: types :=
  ((sublist_cons_self _ _).append_left _).subset

private theorem clashes_skip (taken : descriptor.name ∈ entries.map Descriptor.name)
    (agrees : ¬ Clashes entries descriptor) {other : Descriptor} :
    Clashes (entries ++ descriptor :: types) other ↔ Clashes (entries ++ types) other := by
  constructor
  · rintro ⟨earlier, member, shared, differs⟩
    obtain ⟨twin, among, named, same⟩ := exists_twin taken agrees member
    exact ⟨twin, among, named.trans shared, same ▸ differs⟩
  · rintro ⟨earlier, member, clash⟩
    exact ⟨earlier, subset_skip member, clash⟩

theorem agree_skip (taken : descriptor.name ∈ entries.map Descriptor.name)
    (agrees : ¬ Clashes entries descriptor) :
    Agree (entries ++ descriptor :: types) ↔ Agree (entries ++ types) := by
  constructor
  · intro agree first member second among
    exact agree first (subset_skip member) second (subset_skip among)
  · intro agree first member second among same
    obtain ⟨firstTwin, inFirst, firstNamed, firstSame⟩ := exists_twin taken agrees member
    obtain ⟨secondTwin, inSecond, secondNamed, secondSame⟩ := exists_twin taken agrees among
    rw [← firstSame, ← secondSame]
    exact agree firstTwin inFirst secondTwin inSecond (by rw [firstNamed, secondNamed, same])

theorem agree_of_nodup (distinct : (entries.map Descriptor.name).Nodup) : Agree entries := by
  intro descriptor member other among same
  rw [inj_on_of_nodup_map distinct among member same]

end Agreement

/-! ## One batch -/

/-- A conflict is about the first of some types that clashes with what stands before it, and about
the first descriptor of that name. -/
structure FirstClash (entries types before : List Descriptor) (descriptor existing : Descriptor) :
    Prop where
  next : before ++ [descriptor] <+: types
  agree : Agree (entries ++ before)
  clashes : Clashes (entries ++ before) descriptor
  first : first? (entries ++ before) descriptor.name = some existing

/-- Of some types those whose name is neither known nor that of an earlier one, in order. -/
structure Newcomers (known : List Text) (types added : List Descriptor) : Prop where
  inOrder : added.Sublist types
  distinct : (known ++ added.map Descriptor.name).Nodup
  mem_iff : ∀ descriptor, descriptor ∈ added ↔
    descriptor.name ∉ known ∧ first? types descriptor.name = some descriptor

theorem Newcomers.cons {known types added}
    (newcomers : Newcomers (known ++ [descriptor.name]) types added)
    (fresh : descriptor.name ∉ known) :
    Newcomers known (descriptor :: types) (descriptor :: added) where
  inOrder := newcomers.inOrder.cons_cons descriptor
  distinct := by
    have distinct := newcomers.distinct
    rwa [append_assoc] at distinct
  mem_iff other := by
    rw [mem_cons, newcomers.mem_iff, first?_cons, mem_append, mem_singleton]
    grind

theorem Newcomers.skip {known types added} (newcomers : Newcomers known types added)
    (taken : descriptor.name ∈ known) : Newcomers known (descriptor :: types) added where
  inOrder := newcomers.inOrder.cons descriptor
  distinct := newcomers.distinct
  mem_iff other := by
    rw [newcomers.mem_iff, first?_cons]
    grind

section Clash

variable {entries types before : List Descriptor} {first descriptor existing : Descriptor}

theorem FirstClash.push
    (clash : FirstClash (entries ++ [first]) types before descriptor existing) :
    FirstClash entries (first :: types) (first :: before) descriptor existing := by
  obtain ⟨next, agree, clashes, found⟩ := clash
  rw [append_assoc, singleton_append] at agree clashes found
  exact ⟨prefix_cons_inj first |>.mpr next, agree, clashes, found⟩

theorem FirstClash.skip (clash : FirstClash entries types before descriptor existing)
    (taken : first.name ∈ entries.map Descriptor.name) (agrees : ¬ Clashes entries first) :
    FirstClash entries (first :: types) (first :: before) descriptor existing where
  next := prefix_cons_inj first |>.mpr clash.next
  agree := (agree_skip taken agrees).mpr clash.agree
  clashes := (clashes_skip taken agrees).mpr clash.clashes
  first := (first?_skip taken).trans clash.first

end Clash

section Extend

variable {entries types result : List Descriptor}

theorem Agree.not_clashes {before : List Descriptor} (agree : Agree (entries ++ types))
    (next : before ++ [descriptor] <+: types) : ¬ Clashes (entries ++ before) descriptor := by
  obtain ⟨rest, rfl⟩ := next
  rw [← append_assoc, ← append_assoc] at agree
  exact (agree_snoc.mp agree.of_append).2

theorem not_clashes_of_first? {existing : Descriptor} (agree : Agree entries)
    (found : first? entries descriptor.name = some existing)
    (same : existing.canonical = descriptor.canonical) :
    descriptor.name ∈ entries.map Descriptor.name ∧ ¬ Clashes entries descriptor := by
  obtain ⟨present, named⟩ := mem_of_first? found
  refine ⟨mem_map.mpr ⟨existing, present, named⟩, fun clashes => ?_⟩
  obtain ⟨other, again, differs⟩ := agree.clashes_iff.mp clashes
  cases found.symm.trans again
  exact differs same

theorem nodup_snoc (distinct : (entries.map Descriptor.name).Nodup)
    (fresh : descriptor.name ∉ entries.map Descriptor.name) :
    ((entries ++ [descriptor]).map Descriptor.name).Nodup := by
  rw [map_append, nodup_append]
  grind

theorem extend_newcomers (distinct : (entries.map Descriptor.name).Nodup)
    (extended : extend entries types = .ok result) :
    Agree (entries ++ types) ∧ (∀ name, first? result name = first? (entries ++ types) name) ∧
      ∃ added, result = entries ++ added ∧ Newcomers (entries.map Descriptor.name) types added := by
  fun_induction extend entries types with
  | case1 entries =>
    cases extended
    rw [append_nil]
    refine ⟨agree_of_nodup distinct, fun _ => rfl, [], (append_nil _).symm, .refl _, ?_, ?_⟩
    · rwa [map_nil, append_nil]
    · simp [first?]
  | case2 entries descriptor rest absent ih =>
    have fresh := first?_eq_none_iff.mp absent
    obtain ⟨agree, first, added, same, newcomers⟩ := ih (nodup_snoc distinct fresh) extended
    rw [append_assoc, singleton_append] at agree same
    rw [map_append] at newcomers
    refine ⟨agree, fun name => ?_, descriptor :: added, same, newcomers.cons fresh⟩
    rw [first, append_assoc, singleton_append]
  | case3 entries descriptor rest existing found same ih =>
    obtain ⟨taken, agrees⟩ := not_clashes_of_first? (agree_of_nodup distinct) found same
    obtain ⟨agree, first, added, grown, newcomers⟩ := ih distinct extended
    refine ⟨(agree_skip taken agrees).mpr agree, fun name => ?_, added, grown, newcomers.skip taken⟩
    rw [first, first?_skip taken]
  | case4 => cases extended

theorem nodup_extend (distinct : (entries.map Descriptor.name).Nodup)
    (extended : extend entries types = .ok result) : (result.map Descriptor.name).Nodup := by
  obtain ⟨_, _, added, rfl, newcomers⟩ := extend_newcomers distinct extended
  rw [map_append]
  exact newcomers.distinct

theorem extend_firstClash {conflict : Conflict} (distinct : (entries.map Descriptor.name).Nodup)
    (failed : extend entries types = .error conflict) :
    ∃ before descriptor existing, FirstClash entries types before descriptor existing ∧
      conflict = existing.conflictWith descriptor := by
  fun_induction extend entries types with
  | case1 => cases failed
  | case2 entries descriptor rest absent ih =>
    obtain ⟨before, other, existing, clash, reported⟩ :=
      ih (nodup_snoc distinct (first?_eq_none_iff.mp absent)) failed
    exact ⟨descriptor :: before, other, existing, clash.push, reported⟩
  | case3 entries descriptor rest existing found same ih =>
    obtain ⟨taken, agrees⟩ := not_clashes_of_first? (agree_of_nodup distinct) found same
    obtain ⟨before, other, existing, clash, reported⟩ := ih distinct failed
    exact ⟨descriptor :: before, other, existing, clash.skip taken agrees, reported⟩
  | case4 entries descriptor rest existing found differs =>
    cases failed
    have agree := agree_of_nodup distinct
    refine ⟨[], descriptor, existing, ⟨⟨rest, rfl⟩, ?_, ?_, ?_⟩, rfl⟩ <;> rw [append_nil]
    · exact agree
    · exact agree.clashes_iff.mpr ⟨existing, found, differs⟩
    · exact found

private theorem extend_fails_iff (distinct : (entries.map Descriptor.name).Nodup) :
    (∃ conflict, extend entries types = .error conflict) ↔
      ∃ before descriptor, before ++ [descriptor] <+: types ∧
        Clashes (entries ++ before) descriptor := by
  constructor
  · rintro ⟨conflict, failed⟩
    obtain ⟨before, descriptor, _, clash, _⟩ := extend_firstClash distinct failed
    exact ⟨before, descriptor, clash.next, clash.clashes⟩
  · rintro ⟨before, descriptor, next, clashes⟩
    cases extended : extend entries types with
    | error conflict => exact ⟨conflict, rfl⟩
    | ok => exact absurd clashes ((extend_newcomers distinct extended).1.not_clashes next)

end Extend

end Descriptor

/-! ## Any number of batches -/

namespace Registry

def afterMerge (registry : Registry) (batch : Batch) : Registry :=
  match registry.merge batch with
  | .ok after => after
  | .error _ => registry

def mergeAll (registry : Registry) (batches : List Batch) : Registry :=
  batches.foldl afterMerge registry

section Merge

variable {registry after : Registry} {batch : Batch}

private theorem nodup_afterMerge (distinct : registry.names.Nodup) (batch : Batch) :
    (registry.afterMerge batch).names.Nodup := by
  rw [afterMerge]
  split
  · rename_i after merged
    obtain ⟨entries, extended, rfl⟩ := map_ok.mp merged
    exact Descriptor.nodup_extend distinct extended
  · exact distinct

theorem nodup_mergeAll (distinct : registry.names.Nodup) (batches : List Batch) :
    (registry.mergeAll batches).names.Nodup := by
  induction batches generalizing registry with
  | nil => exact distinct
  | cons batch _ ih => exact ih (nodup_afterMerge distinct batch)

end Merge

end Registry

/-! ## The ledger -/

namespace Ledger

open Descriptor

variable {ledger after : Ledger} {batch : Batch} {name : Text} {descriptor : Descriptor}
  {added types result log : List Descriptor} {pending : List (Text × Descriptor)}

def names (ledger : Ledger) : List Text := ledger.entries.map Descriptor.name

/-- The index maps exactly the names of the entries to their positions. -/
structure Indexed (ledger : Ledger) : Prop where
  distinct : ledger.names.Nodup
  index : ∀ name place, ledger.index.lookup name = some place ↔ ledger.names[place]? = some name
  keys : (ledger.index.map Prod.fst).Nodup

private theorem indexed_empty : empty.Indexed := ⟨nodup_nil, by simp [empty, names], nodup_nil⟩

theorem Indexed.lookup?_eq (indexed : ledger.Indexed) (name : Text) :
    ledger.lookup? name = first? ledger.entries name := by
  cases found : first? ledger.entries name with
  | none =>
    have absent : ledger.index.lookup name = none := by
      rw [Option.eq_none_iff_forall_not_mem]
      intro place present
      exact first?_eq_none_iff.mp found (mem_of_getElem? ((indexed.index name place).mp present))
    rw [lookup?, absent]
    rfl
  | some existing =>
    obtain ⟨member, rfl⟩ := mem_of_first? found
    obtain ⟨place, here⟩ := mem_iff_getElem?.mp member
    have listed : ledger.names[place]? = some existing.name := by
      rw [names, getElem?_map, here]
      rfl
    rw [lookup?, (indexed.index _ _).mpr listed]
    exact here

private theorem lookup_eq_some_iff {index : List (Text × Nat)} (keys : (index.map Prod.fst).Nodup)
    {place : Nat} : index.lookup name = some place ↔ (name, place) ∈ index := by
  induction index with
  | nil => simp
  | cons entry rest ih =>
    obtain ⟨key, value⟩ := entry
    obtain ⟨fresh, keys⟩ := nodup_cons.mp keys
    rw [lookup_cons, mem_cons, Prod.mk.injEq]
    by_cases same : name = key
    · subst same
      have absent : (name, place) ∉ rest := fun member => fresh (mem_map.mpr ⟨_, member, rfl⟩)
      simp [absent, eq_comm]
    · rw [beq_false_of_ne same, ih keys]
      simp [same]

theorem Indexed.copy (indexed : ledger.Indexed) : ledger.copy.Indexed := by
  have reversed : ledger.copy.index = ledger.index.reverse := by simp [Ledger.copy]
  have keys : (ledger.copy.index.map Prod.fst).Nodup := by
    rw [reversed, map_reverse]
    exact nodup_reverse.mpr indexed.keys
  refine ⟨indexed.distinct, fun name place => ?_, keys⟩
  rw [lookup_eq_some_iff keys, reversed, mem_reverse, ← lookup_eq_some_iff indexed.keys]
  exact indexed.index name place

/-- What the second loop does to the index and the entries keeps them in step. -/
theorem Indexed.snoc (indexed : ledger.Indexed) (fresh : descriptor.name ∉ ledger.names) :
    Indexed { ledger with
      index := (descriptor.name, ledger.entries.length) :: ledger.index
      entries := ledger.entries ++ [descriptor] } where
  distinct := nodup_snoc indexed.distinct fresh
  index name place := by
    have length : ledger.names.length = ledger.entries.length := length_map _
    simp only [names, map_append, map_singleton, lookup_cons, ← length]
    rw [← names, getElem?_append]
    by_cases same : name = descriptor.name
    · subst same
      have elsewhere : ledger.names[place]? ≠ some descriptor.name :=
        fun found => fresh (mem_of_getElem? found)
      grind
    · rw [beq_false_of_ne same, indexed.index name place]
      grind
  keys := by
    refine nodup_cons.mpr ⟨fun known => ?_, indexed.keys⟩
    obtain ⟨⟨_, place⟩, member, rfl⟩ := mem_map.mp known
    exact fresh (mem_of_getElem?
      ((indexed.index _ place).mp ((lookup_eq_some_iff indexed.keys).mpr member)))

/-- The map of the first loop holds what is to be added, under new names. -/
structure Pending (ledger : Ledger) (pending : List (Text × Descriptor))
    (added : List Descriptor) : Prop where
  lookup : ∀ name, pending.lookup name = first? added name
  distinct : ((ledger.entries ++ added).map Descriptor.name).Nodup

theorem Pending.known (waits : ledger.Pending pending added) (indexed : ledger.Indexed)
    (name : Text) : (pending.lookup name).or (ledger.lookup? name) =
      first? (ledger.entries ++ added) name := by
  rw [waits.lookup, indexed.lookup?_eq, first?_append]
  have distinct := waits.distinct
  rw [map_append, nodup_append] at distinct
  cases early : first? ledger.entries name with
  | none => rw [Option.or_none, Option.none_or]
  | some existing =>
    obtain ⟨member, rfl⟩ := mem_of_first? early
    have absent : first? added existing.name = none := by
      refine first?_eq_none_iff.mpr fun listed => ?_
      exact distinct.2.2 _ (mem_map_of_mem member) _ listed rfl
    rw [absent]
    rfl

theorem Pending.push (waits : ledger.Pending pending added)
    (fresh : descriptor.name ∉ (ledger.entries ++ added).map Descriptor.name) :
    ledger.Pending ((descriptor.name, descriptor) :: pending) (added ++ [descriptor]) where
  lookup name := by
    rw [lookup_cons, first?_append, ← waits.lookup, first?_cons]
    by_cases same : name = descriptor.name
    · subst same
      have absent : pending.lookup descriptor.name = none := by
        rw [waits.lookup, first?_eq_none_iff]
        rw [map_append, mem_append] at fresh
        exact fun listed => fresh (.inr listed)
      simp [absent]
    · have other : ¬ descriptor.name = name := fun equal => same equal.symm
      simp [beq_false_of_ne same, other, first?]
  distinct := by
    rw [← append_assoc]
    exact nodup_snoc waits.distinct fresh

private theorem get_bind {α : Type} (next : Ledger → Update α) (ledger : Ledger) :
    (MonadState.get >>= next) ledger = next ledger ledger := rfl

/-- The first loop leaves the ledger alone. It finds what a registry of the entries would add, or
the same conflict. -/
private theorem survey_eq (indexed : ledger.Indexed) (waits : ledger.Pending pending added) :
    (∀ conflict, extend (ledger.entries ++ added) types = .error conflict →
      survey pending added types ledger = .error conflict ledger) ∧
    (∀ result, extend (ledger.entries ++ added) types = .ok result →
      ∃ news, survey pending added types ledger = .ok news ledger ∧
        result = ledger.entries ++ news) := by
  induction types generalizing pending added with
  | nil =>
    constructor
    · intro conflict failed
      cases failed
    · intro result extended
      cases extended
      exact ⟨added, rfl, rfl⟩
  | cons descriptor rest ih =>
    rw [survey, get_bind, waits.known indexed, extend, ← first?]
    cases found : first? (ledger.entries ++ added) descriptor.name with
    | none =>
      have later := ih (waits.push (first?_eq_none_iff.mp found))
      rwa [← append_assoc] at later
    | some existing =>
      dsimp only
      split
      · exact ih waits
      · constructor
        · intro conflict failed
          cases failed
          rfl
        · intro result extended
          cases extended

private theorem enter_indexed (indexed : ledger.Indexed)
    (distinct : ((ledger.entries ++ added).map Descriptor.name).Nodup) :
    ∃ index, enter added ledger = .ok () ⟨ledger.catalog, ledger.entries ++ added, index⟩ ∧
      Indexed ⟨ledger.catalog, ledger.entries ++ added, index⟩ := by
  induction added generalizing ledger with
  | nil =>
    rw [append_nil]
    exact ⟨ledger.index, rfl, indexed⟩
  | cons descriptor _ ih =>
    have fresh : descriptor.name ∉ ledger.names := fun known =>
      (nodup_append.mp (map_append .. ▸ distinct)).2.2 _ known _ mem_cons_self rfl
    have later := ih (indexed.snoc fresh)
    simp only [append_assoc, singleton_append] at later
    exact later distinct

/-- The ledger refines the registry of its entries: a batch has the same outcome for both. -/
theorem merge_refines (indexed : ledger.Indexed) (batch : Batch) :
    (∃ conflict, ledger.registry.merge batch = .error conflict ∧
      merge batch ledger = .error conflict ledger) ∨
    ∃ after, ledger.registry.merge batch = .ok after.registry ∧
      merge batch ledger = .ok () after ∧ after.Indexed := by
  have nothing : ledger.Pending [] [] := ⟨fun _ => rfl, by rw [append_nil]; exact indexed.distinct⟩
  have surveyed := @survey_eq ledger [] batch.types [] indexed nothing
  rw [append_nil] at surveyed
  cases extended : extend ledger.entries batch.types with
  | error conflict =>
    refine .inl ⟨conflict, map_error.mpr extended, ?_⟩
    simp only [merge, bind, EStateM.bind, surveyed.1 conflict extended]
  | ok =>
    obtain ⟨news, found, rfl⟩ := surveyed.2 _ extended
    obtain ⟨_, _, _, same, newcomers⟩ := extend_newcomers indexed.distinct extended
    obtain rfl := append_cancel_left same
    obtain ⟨index, entered, done⟩ := enter_indexed indexed (map_append .. ▸ newcomers.distinct)
    refine .inr ⟨⟨batch.catalog, ledger.entries ++ news, index⟩, map_ok.mpr ⟨_, extended, rfl⟩, ?_,
      done.distinct, done.index, done.keys⟩
    simp only [merge, bind, EStateM.bind, found, entered]
    rfl

/-- The histories of a ledger, each with the descriptors that it has accepted: it starts empty, a
batch is merged or refused, and it goes on from a copy. -/
inductive Reached : Ledger → List Descriptor → Prop
  | new : Reached .empty []
  | merged {ledger after : Ledger} {log : List Descriptor} {batch : Batch}
      (earlier : Reached ledger log) (done : merge batch ledger = .ok () after) :
      Reached after (log ++ batch.types)
  | refused {ledger after : Ledger} {log : List Descriptor} {batch conflict}
      (earlier : Reached ledger log) (failed : merge batch ledger = .error conflict after) :
      Reached after log
  | copied {ledger : Ledger} {log : List Descriptor} (earlier : Reached ledger log) :
      Reached ledger.copy log

theorem extend_of_merge (refined : ledger.registry.merge batch = .ok after.registry) :
    extend ledger.entries batch.types = .ok after.entries := by
  obtain ⟨_, extended, same⟩ := map_ok.mp refined
  exact extended.trans (congrArg _ (congrArg Registry.entries same))

theorem Reached.indexed (reached : Reached ledger log) :
    ledger.Indexed ∧ ∀ name, first? ledger.entries name = first? log name := by
  induction reached with
  | new => exact ⟨indexed_empty, fun _ => rfl⟩
  | @merged _ _ _ batch _ done ih =>
    obtain ⟨indexed, first⟩ := ih
    rcases merge_refines indexed batch with ⟨_, _, failed⟩ | ⟨_, refined, merged, still⟩
    · cases done.symm.trans failed
    · cases done.symm.trans merged
      refine ⟨still, fun name => ?_⟩
      rw [(extend_newcomers indexed.distinct (extend_of_merge refined)).2.1, first?_append,
        first?_append, first]
  | @refused _ _ _ batch _ _ failed ih =>
    rcases merge_refines ih.1 batch with ⟨_, _, again⟩ | ⟨_, _, merged, _⟩
    · cases failed.symm.trans again
      exact ih
    · cases failed.symm.trans merged
  | copied _ ih => exact ⟨ih.1.copy, ih.2⟩

/-- A ledger with any history maps each name to one position, and finds there what it has accepted
first under that name. The next batch is refused exactly if one of its descriptors clashes with an
earlier one; then the first that does is reported, against the first of its name, and nothing
changes. Otherwise the entries stay, and the first descriptor of each new name goes behind them. -/
theorem merge_of_reached (reached : Reached ledger log) (batch : Batch) :
    ledger.Indexed ∧ (∀ name, ledger.lookup? name = first? log name) ∧
    ((∃ conflict after, merge batch ledger = .error conflict after) ↔
      ∃ before descriptor, before ++ [descriptor] <+: batch.types ∧
        Clashes (ledger.entries ++ before) descriptor) ∧
    (∀ conflict after, merge batch ledger = .error conflict after → after = ledger ∧
      ∃ before descriptor existing,
        FirstClash ledger.entries batch.types before descriptor existing ∧
        conflict = existing.conflictWith descriptor) ∧
    (∀ after, merge batch ledger = .ok () after → after.Indexed ∧
      ∃ added, after.entries = ledger.entries ++ added ∧
        Newcomers ledger.names batch.types added) := by
  obtain ⟨indexed, first⟩ := reached.indexed
  refine ⟨indexed, fun name => (indexed.lookup?_eq name).trans (first name), ?_⟩
  rw [← extend_fails_iff indexed.distinct]
  rcases merge_refines indexed batch with
    ⟨conflict, refined, failed⟩ | ⟨after, refined, done, still⟩
  · have clashes := map_error.mp refined
    refine ⟨iff_of_true ⟨conflict, ledger, failed⟩ ⟨conflict, clashes⟩, ?_, fun _ done => ?_⟩
    · intro _ _ again
      cases failed.symm.trans again
      exact ⟨rfl, extend_firstClash indexed.distinct clashes⟩
    · cases failed.symm.trans done
  · have extended := extend_of_merge refined
    refine ⟨iff_of_false ?_ ?_, fun _ _ failed => ?_, fun _ again => ?_⟩
    · rintro ⟨_, _, failed⟩
      cases done.symm.trans failed
    · rintro ⟨_, failed⟩
      cases extended.symm.trans failed
    · cases done.symm.trans failed
    · cases done.symm.trans again
      exact ⟨still, (extend_newcomers indexed.distinct extended).2.2⟩

/-- A clash behind a new name takes nothing into a copy of a ledger. -/
theorem merge_of_reached_forked :
    let known : Descriptor := ⟨"A", "1", "x", none⟩
    let clash : Descriptor := ⟨"A", "2", "y", none⟩
    ∃ ledger after, Reached ledger [known] ∧ ledger.lookup? "A" = some known ∧
      merge ⟨[], [⟨"B", "1", "y", none⟩, clash]⟩ ledger =
        .error (known.conflictWith clash) after ∧ after = ledger := by
  intro known clash
  have reached : Reached (copy ⟨[], [known], [("A", 0)]⟩) [known] :=
    .copied (@Reached.merged .empty _ [] ⟨[], [known]⟩ .new rfl)
  obtain ⟨_, finds, _, unchanged, _⟩ :=
    merge_of_reached reached ⟨[], [⟨"B", "1", "y", none⟩, clash]⟩
  exact ⟨_, _, reached, finds "A", rfl, (unchanged _ _ rfl).1⟩

end Ledger

end Avro
