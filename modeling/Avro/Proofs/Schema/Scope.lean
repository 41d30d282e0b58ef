import Avro.Proofs.Schema.Reads

/-!
# What a document adds to its scope

`Scope.Extends` says that a scope goes on from an earlier one with some definitions, each known to
the document by its full name and each at the next free place of the catalog.
-/

set_option autoImplicit false

open List

namespace Avro

namespace Scope

variable {scope after before : Scope} {schema : Schema} {place : Nat}
  {definitions second first : List Definition} {reference : Reference} {name : Text}

def names (scope : Scope) : List Text := scope.own.map Prod.fst

def Knows (scope : Scope) (name : Text) : Prop := (scope.known.lookup name).isSome

/-- The full names that a name as written in a namespace is looked up by, in this order. -/
def candidates (name space : Text) : List Text :=
  if (Name.split name space).1.isEmpty ∨ expand name space = name then [expand name space]
  else [expand name space, name]

theorem lookup_isSome_iff_mem {α : Type} {entries : List (Text × α)} :
    (entries.lookup name).isSome ↔ name ∈ entries.map Prod.fst := by
  rw [lookup_isSome_iff]
  constructor
  · rintro ⟨entry, member, same⟩
    exact mem_map.mpr ⟨entry, member, (eq_of_beq same).symm⟩
  · intro listed
    obtain ⟨entry, member, rfl⟩ := mem_map.mp listed
    exact ⟨entry, member, beq_self_eq_true _⟩

theorem find?_isSome_iff : (scope.find? name).isSome ↔ name ∈ scope.names ∨ scope.Knows name := by
  rw [names, ← lookup_isSome_iff_mem, Knows, find?]
  cases scope.own.lookup name <;> simp

theorem resolve?_eq_findSome? (scope : Scope) (name space : Text) :
    scope.resolve? name space = (candidates name space).findSome? scope.find? := by
  rw [resolve?, candidates]
  by_cases inside : (Name.split name space).1.isEmpty ∨ expand name space = name
  · have noFallback : (!(Name.split name space).1.isEmpty && expand name space ≠ name) = false := by
      rcases inside with isEmpty | same
      · simp [isEmpty]
      · simp [same]
    rw [if_pos inside, noFallback]
    cases found : scope.find? (expand name space) <;> simp [found]
  · have fallback : (!(Name.split name space).1.isEmpty && expand name space ≠ name) = true := by
      simpa using inside
    rw [if_neg inside, fallback]
    cases found : scope.find? (expand name space) with
    | some => simp [found]
    | none => cases plain : scope.find? name <;> simp [found, plain]

theorem resolve?_isSome_iff {space : Text} :
    (scope.resolve? name space).isSome ↔
      ∃ full ∈ candidates name space, full ∈ scope.names ∨ scope.Knows full := by
  rw [resolve?_eq_findSome?, isSome_findSome?, any_eq_true]
  simp only [find?_isSome_iff]

theorem mem_of_lookup {α : Type} {entries : List (Text × α)} {value : α}
    (found : entries.lookup name = some value) : (name, value) ∈ entries := by
  obtain ⟨before, after, rfl, _⟩ := lookup_eq_some_iff.mp found
  exact mem_append_right _ (mem_cons_self ..)

theorem mem_of_find? (found : scope.find? name = some schema) :
    (name, schema) ∈ scope.known ++ scope.own := by
  rw [find?] at found
  cases own : scope.own.lookup name with
  | some =>
    rw [own] at found
    cases found
    exact mem_append_right _ (mem_of_lookup own)
  | none =>
    rw [own] at found
    exact mem_append_left _ (mem_of_lookup found)

theorem mem_of_resolve? {space : Text} (resolved : scope.resolve? name space = some schema) :
    ∃ full ∈ candidates name space, (full, schema) ∈ scope.known ++ scope.own := by
  rw [resolve?_eq_findSome?] at resolved
  obtain ⟨full, candidate, found⟩ := exists_of_findSome?_eq_some resolved
  exact ⟨full, candidate, mem_of_find? found⟩

theorem declare_ok_iff :
    scope.declare name schema = .ok after ↔
      name ∉ scope.names ∧ after = { scope with own := scope.own ++ [(name, schema)] } := by
  rw [names, ← lookup_isSome_iff_mem, declare]
  cases scope.own.lookup name <;> simp [eq_comm]

/-- The types that a list of definitions makes from a place of the catalog on. -/
def references : Nat → List Definition → List Reference
  | _, [] => []
  | place, definition :: rest => ⟨place, definition.name⟩ :: references (place + 1) rest

theorem references_append (place : Nat) (first second : List Definition) :
    references place (first ++ second) =
      references place first ++ references (place + first.length) second := by
  induction first generalizing place with
  | nil => rfl
  | cons _ _ ih =>
    simp only [cons_append, references, ih, length_cons]
    rw [Nat.add_right_comm, Nat.add_assoc]

theorem map_text_references (place : Nat) (definitions : List Definition) :
    (references place definitions).map (·.name.text) = definitions.map (·.name.text) := by
  induction definitions generalizing place with
  | nil => rfl
  | cons _ _ ih => simp only [references, map_cons, ih]

theorem length_references (place : Nat) (definitions : List Definition) :
    (references place definitions).length = definitions.length := by
  rw [← length_map (·.name.text), map_text_references, length_map]

theorem mem_references_iff {type : Reference} :
    type ∈ references place definitions ↔
      ∃ offset definition, definitions[offset]? = some definition ∧
        type = ⟨place + offset, definition.name⟩ := by
  induction definitions generalizing place with
  | nil => simp [references]
  | cons definition _ ih =>
    rw [references, mem_cons, ih]
    constructor
    · rintro (rfl | ⟨offset, other, found, rfl⟩)
      · exact ⟨0, definition, rfl, rfl⟩
      · exact ⟨offset + 1, other, found, by rw [Nat.add_assoc, Nat.add_comm 1]⟩
    · rintro ⟨offset, other, found, rfl⟩
      cases offset with
      | zero =>
        cases found
        exact .inl rfl
      | succ offset => exact .inr ⟨offset, other, found, by rw [Nat.add_assoc, Nat.add_comm 1]⟩

theorem name_of_mem_references (member : reference ∈ references place definitions) :
    ∃ definition ∈ definitions, reference.name = definition.name := by
  obtain ⟨_, definition, found, rfl⟩ := mem_references_iff.mp member
  exact ⟨definition, mem_of_getElem? found, rfl⟩

theorem references_congr (same : first.map (·.name) = second.map (·.name)) :
    references place first = references place second := by
  induction first generalizing place second with
  | nil =>
    cases second with
    | nil => rfl
    | cons => cases same
  | cons _ _ ih =>
    cases second with
    | nil => cases same
    | cons =>
      simp only [map_cons, List.cons.injEq] at same
      simp only [references, same.1, ih same.2]

def entry (reference : Reference) : Text × Schema := (reference.name.text, .named reference)

def entries (place : Nat) (definitions : List Definition) : List (Text × Schema) :=
  (references place definitions).map entry

private theorem entries_append (place : Nat) (first second : List Definition) :
    entries place (first ++ second) =
      entries place first ++ entries (place + first.length) second := by
  rw [entries, references_append, map_append, entries, entries]

private theorem map_fst_entries (place : Nat) (definitions : List Definition) :
    (entries place definitions).map Prod.fst = definitions.map (·.name.text) := by
  rw [entries, map_map, ← map_text_references place]
  rfl

/-- A scope goes on from an earlier one with some definitions. -/
structure Extends (before after : Scope) (definitions : List Definition) : Prop where
  catalog : after.catalog = before.catalog ++ definitions
  known : after.known = before.known
  own : after.own = before.own ++ entries before.catalog.length definitions

def extend (scope : Scope) (definitions : List Definition) : Scope where
  catalog := scope.catalog ++ definitions
  known := scope.known
  own := scope.own ++ entries scope.catalog.length definitions

theorem extends_extend (scope : Scope) (definitions : List Definition) :
    scope.Extends (scope.extend definitions) definitions := ⟨rfl, rfl, rfl⟩

theorem Extends.eq_extend (extended : before.Extends after definitions) :
    after = before.extend definitions := by
  cases after
  rw [extend, ← extended.catalog, ← extended.known, ← extended.own]

theorem length_extend (scope : Scope) (definitions : List Definition) :
    (scope.extend definitions).catalog.length = scope.catalog.length + definitions.length :=
  length_append

theorem extend_inj : scope.extend first = scope.extend second ↔ first = second := by
  refine ⟨fun same => ?_, congrArg _⟩
  exact append_cancel_left (congrArg Scope.catalog same)

theorem Extends.refl (scope : Scope) : scope.Extends scope [] where
  catalog := (append_nil _).symm
  known := rfl
  own := (append_nil _).symm

theorem Extends.trans {middle : Scope} (start : before.Extends middle first)
    (continued : middle.Extends after second) :
    before.Extends after (first ++ second) where
  catalog := by rw [continued.catalog, start.catalog, append_assoc]
  known := continued.known.trans start.known
  own := by
    rw [continued.own, start.own, start.catalog, entries_append, length_append,
      append_assoc]

theorem extend_nil (scope : Scope) : scope.extend [] = scope :=
  (Extends.refl scope).eq_extend.symm

theorem extend_append (scope : Scope) (first second : List Definition) :
    (scope.extend first).extend second = scope.extend (first ++ second) :=
  ((extends_extend scope first).trans (extends_extend _ second)).eq_extend

theorem Extends.names (extends_ : before.Extends after definitions) :
    after.names = before.names ++ definitions.map (·.name.text) := by
  rw [Scope.names, extends_.own, map_append, map_fst_entries, Scope.names]

theorem Extends.knows (extends_ : before.Extends after definitions) (name : Text) :
    after.Knows name ↔ before.Knows name := by
  rw [Knows, Knows, extends_.known]

theorem define_ok_iff {definition : Definition} :
    scope.define definition = .ok (reference, after) ↔
      definition.name.text ∉ scope.names ∧ reference = ⟨scope.catalog.length, definition.name⟩ ∧
        scope.Extends after [definition] := by
  rw [define, map_ok]
  constructor
  · rintro ⟨declared, accepted, same⟩
    obtain ⟨fresh, rfl⟩ := declare_ok_iff.mp accepted
    cases same
    exact ⟨fresh, rfl, ⟨rfl, rfl, rfl⟩⟩
  · rintro ⟨fresh, rfl, extended⟩
    refine ⟨_, declare_ok_iff.mpr ⟨fresh, rfl⟩, ?_⟩
    obtain ⟨catalog, known, own⟩ := extended
    cases after
    simp only at catalog known own
    subst catalog known own
    rfl

theorem nodup_define {inner head} (defined : scope.define head = .ok (reference, inner))
    (distinct : scope.names.Nodup) : inner.names.Nodup := by
  obtain ⟨fresh, _, extended⟩ := define_ok_iff.mp defined
  rw [extended.names, nodup_append]
  refine ⟨distinct, pairwise_singleton _ _, ?_⟩
  rintro name earlier _ new rfl
  rw [mem_singleton.mp new] at earlier
  exact fresh earlier

theorem Extends.install {first rest} (extended : before.Extends after (first :: rest))
    (placed : reference.place = before.catalog.length) (body : Body) :
    before.Extends (after.install reference body) ({ first with body := body } :: rest) where
  catalog := by
    simp only [Scope.install, Catalog.install, extended.catalog, placed]
    rw [modify_eq_take_drop]
    simp
  known := extended.known
  own := extended.own.trans (congrArg (_ ++ List.map entry ·) (references_congr rfl))

theorem Extends.complete {inner head} (extended : inner.Extends after definitions)
    (defined : scope.define head = .ok (reference, inner)) (body : Body) :
    scope.Extends (after.install reference body) ({ head with body := body } :: definitions) := by
  obtain ⟨_, rfl, begun⟩ := define_ok_iff.mp defined
  exact (begun.trans extended).install rfl body

theorem install_extend (scope : Scope) (first : Definition) (rest : List Definition)
    (name : FullName) (body : Body) :
    (scope.extend (first :: rest)).install ⟨scope.catalog.length, name⟩ body =
      scope.extend ({ first with body := body } :: rest) :=
  ((extends_extend scope (first :: rest)).install rfl body).eq_extend

theorem names_install (scope : Scope) (reference : Reference) (body : Body) :
    (scope.install reference body).names = scope.names := rfl

def typeOf? : Text × Schema → Option Reference
  | (_, .named reference) => some reference
  | _ => none

private theorem filterMap_entries (place : Nat) (definitions : List Definition) :
    (entries place definitions).filterMap typeOf? = references place definitions := by
  rw [entries, filterMap_map]
  exact filterMap_some

theorem Extends.defined (extended : before.Extends after definitions) :
    after.defined = before.defined ++ references before.catalog.length definitions := by
  have defined (scope : Scope) : scope.defined = scope.own.filterMap typeOf? := by
    unfold Scope.defined
    congr 1
  rw [defined, defined, extended.own, filterMap_append, filterMap_entries]

theorem Extends.drop_defined (extended : before.Extends after definitions) :
    after.defined.drop before.defined.length = references before.catalog.length definitions := by
  rw [extended.defined, drop_left]

end Scope

end Avro
