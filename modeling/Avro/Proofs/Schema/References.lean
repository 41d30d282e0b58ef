import Avro.Proofs.Schema.Scope

/-!
# What definitions refer to

A catalog is closed if every reference in it points to a definition of the name that the reference
gives. Reading keeps it so.
-/

set_option autoImplicit false

open List

namespace Avro

variable {reference : Reference} {after : Scope}

namespace Schema

mutual

/-- The named types of an expression, without those inside their definitions. -/
def references : Schema → List Reference
  | .primitive _ _ => []
  | .container _ inner _ => inner.references
  | .union branches _ => allReferences branches
  | .named reference => [reference]

def allReferences : List Schema → List Reference
  | [] => []
  | schema :: rest => schema.references ++ allReferences rest

end

theorem mem_allReferences {schemas : List Schema} :
    reference ∈ allReferences schemas ↔ ∃ schema ∈ schemas, reference ∈ schema.references := by
  induction schemas with
  | nil => simp [allReferences]
  | cons _ _ ih => simp [allReferences, ih]

def Meaning.references : Meaning → List Reference
  | .schema read => read.references
  | .branches read => allReferences read
  | .fields read => read.flatMap (·.type.references)
  | .field read => read.type.references

end Schema

def Definition.references (definition : Definition) : List Reference :=
  definition.body.fields.flatMap (·.type.references)

namespace Catalog

/-- A reference points to a definition of its name. -/
def Holds (catalog : Catalog) (reference : Reference) : Prop :=
  ∃ definition, catalog.find? reference = some definition ∧ definition.name = reference.name

def Closed (catalog : Catalog) : Prop :=
  ∀ definition ∈ catalog, ∀ reference ∈ definition.references, catalog.Holds reference

theorem find?_append {catalog : Catalog} {definition : Definition}
    (found : catalog.find? reference = some definition) (more : List Definition) :
    Catalog.find? (catalog ++ more) reference = some definition := by
  have inside : reference.place < catalog.length := (List.getElem?_eq_some_iff.mp found).1
  rw [find?, getElem?_append_left inside]
  exact found

theorem Holds.append {catalog : Catalog} (held : catalog.Holds reference) (more : List Definition) :
    Catalog.Holds (catalog ++ more) reference := by
  obtain ⟨definition, found, named⟩ := held
  exact ⟨definition, find?_append found more, named⟩

theorem find?_references (before definitions : List Definition) :
    ∀ reference ∈ Scope.references before.length definitions, ∃ definition ∈ definitions,
      Catalog.find? (before ++ definitions) reference = some definition ∧
        definition.name = reference.name := by
  induction definitions generalizing before with
  | nil => exact nofun
  | cons definition _ ih =>
    intro reference member
    rw [Scope.references, mem_cons] at member
    rcases member with rfl | later
    · refine ⟨definition, mem_cons_self .., ?_, rfl⟩
      rw [find?, getElem?_append_right (Nat.le_refl _), Nat.sub_self]
      rfl
    · obtain ⟨other, listed, found, named⟩ :=
        ih (before ++ [definition]) reference (by simpa using later)
      exact ⟨other, mem_cons_of_mem _ listed, by simpa using found, named⟩

end Catalog

namespace Scope

variable {before : Scope} {definitions : List Definition}

/-- A reference can be had through a name that is known or defined. -/
def Offers (scope : Scope) (reference : Reference) : Prop :=
  ∃ entry ∈ scope.known ++ scope.own, reference ∈ entry.2.references

private theorem offers_of_resolve? {scope : Scope} {name space schema}
    (resolved : scope.resolve? name space = some schema) :
    ∀ reference ∈ schema.references, scope.Offers reference := by
  intro reference member
  obtain ⟨full, _, listed⟩ := mem_of_resolve? resolved
  exact ⟨_, listed, member⟩

theorem Extends.offers (extended : before.Extends after definitions)
    (offered : before.Offers reference) : after.Offers reference := by
  obtain ⟨entry, member, mentioned⟩ := offered
  refine ⟨entry, ?_, mentioned⟩
  rw [extended.known, extended.own, ← append_assoc]
  exact mem_append_left _ member

theorem Extends.offers_defined (extended : before.Extends after definitions)
    (defined : reference ∈ references before.catalog.length definitions) :
    after.Offers reference := by
  refine ⟨(reference.name.text, .named reference), ?_, mem_singleton.mpr rfl⟩
  rw [extended.own]
  exact mem_append_right _ (mem_append_right _ (mem_map_of_mem defined))

theorem holds_of_offers (offered : (empty.extend definitions).Offers reference) :
    Catalog.Holds definitions reference := by
  obtain ⟨entry, member, mentioned⟩ := offered
  obtain ⟨type, defined, rfl⟩ := mem_map.mp member
  cases mem_singleton.mp mentioned
  obtain ⟨definition, _, found, named⟩ := Catalog.find?_references [] definitions reference defined
  exact ⟨definition, found, named⟩

/-- A scope goes on from an earlier one, and the definitions it has got refer to nothing but what is
in scope. -/
def Develops (before after : Scope) : Prop :=
  ∃ definitions, before.Extends after definitions ∧
    ∀ definition ∈ definitions, ∀ reference ∈ definition.references, after.Offers reference

theorem Develops.refl (scope : Scope) : scope.Develops scope := ⟨[], .refl scope, nofun⟩

theorem Develops.trans {middle : Scope} (start : before.Develops middle)
    (continued : middle.Develops after) : before.Develops after := by
  obtain ⟨_, first, firstOffered⟩ := start
  obtain ⟨_, others, othersOffered⟩ := continued
  refine ⟨_, first.trans others, ?_⟩
  intro definition member reference mentioned
  rcases mem_append.mp member with earlier | later
  · exact others.offers (firstOffered definition earlier reference mentioned)
  · exact othersOffered definition later reference mentioned

theorem Develops.offers (develops : before.Develops after) (offered : before.Offers reference) :
    after.Offers reference := by
  obtain ⟨_, extended, _⟩ := develops
  exact extended.offers offered

theorem Develops.install {scope inner : Scope} {head : Definition} (body : Body)
    (defined : scope.define head = .ok (reference, inner)) (develops : inner.Develops after)
    (mentions : ∀ field ∈ body.fields, ∀ mentioned ∈ field.type.references, after.Offers mentioned)
    :
    scope.Develops (after.install reference body) ∧
      (after.install reference body).Offers reference := by
  obtain ⟨_, rfl, _⟩ := define_ok_iff.mp defined
  obtain ⟨_, extended, offered⟩ := develops
  have whole := extended.complete defined body
  refine ⟨⟨_, whole, ?_⟩, whole.offers_defined (mem_cons_self ..)⟩
  intro definition member mentioned listed
  rcases mem_cons.mp member with rfl | later
  · obtain ⟨field, isField, inField⟩ := mem_flatMap.mp listed
    exact mentions field isField mentioned inField
  · exact offered definition later mentioned listed

end Scope

namespace Schema

variable {members : Members}

theorem readLeaf_fields {kind : Kind} {readBody owner body} (isLeaf : kind.readLeaf? = some readBody)
    (read : readBody owner members = .ok body) : body.fields = [] := by
  cases kind with
  | record | error => cases isLeaf
  | enum =>
    cases isLeaf
    obtain ⟨symbols, _, read⟩ := bind_ok.mp read
    obtain ⟨default, _, read⟩ := bind_ok.mp read
    cases read
    rfl
  | fixed =>
    cases isLeaf
    unfold readFixed at read
    split at read
    next =>
      split at read
      next =>
        cases read
        rfl
      next => cases read
    next => cases read

theorem readFieldRest_type {name type field}
    (completed : readFieldRest members name type = .ok field) : field.type = type := by
  unfold readFieldRest at completed
  obtain ⟨order, _, completed⟩ := bind_ok.mp completed
  obtain ⟨aliases, _, completed⟩ := bind_ok.mp completed
  cases completed
  rfl

theorem makeUnion_eq {branches union} (made : makeUnion branches = .ok union) :
    union = .union branches [] := by
  unfold makeUnion at made
  split at made
  · cases made
  · cases made
    rfl

/-- What has been read refers to nothing but what is in scope afterwards, and neither do the
definitions that the reading has added. -/
theorem Reads.offers {scope part meaning} (reads : Reads scope part meaning after) :
    scope.Develops after ∧ ∀ reference ∈ meaning.references, after.Offers reference := by
  induction reads with
  | primitive | primitiveObject | noBranches | noFields => exact ⟨.refl _, nofun⟩
  | name _ resolved | nameObject _ _ _ _ resolved =>
    exact ⟨.refl _, Scope.offers_of_resolve? resolved⟩
  | union _ made ih =>
    cases makeUnion_eq made
    exact ih
  | container _ _ _ ih | wrapped _ _ _ ih => exact ih
  | field _ _ _ completed ih =>
    refine ⟨ih.1, ?_⟩
    rw [Meaning.references, readFieldRest_type completed]
    exact ih.2
  | leaf isLeaf _ _ defined bodied =>
    obtain ⟨develops, offered⟩ := Scope.Develops.install _ defined (.refl _)
      (by rw [readLeaf_fields isLeaf bodied]; exact nofun)
    exact ⟨develops, forall_mem_singleton.mpr offered⟩
  | record _ _ defined _ _ ih =>
    obtain ⟨develops, offered⟩ := Scope.Develops.install (.record _ _) defined ih.1
      fun field isField reference inField =>
        ih.2 reference (mem_flatMap.mpr ⟨field, isField, inField⟩)
    exact ⟨develops, forall_mem_singleton.mpr offered⟩
  | moreBranches _ _ firstIH othersIH | moreFields _ _ _ firstIH othersIH =>
    refine ⟨firstIH.1.trans othersIH.1, ?_⟩
    intro reference member
    rcases mem_append.mp member with earlier | later
    · exact othersIH.1.offers (firstIH.2 reference earlier)
    · exact othersIH.2 reference later

end Schema

end Avro
