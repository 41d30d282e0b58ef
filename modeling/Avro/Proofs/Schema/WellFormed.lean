import Avro.Proofs.Schema.References

/-!
# Well-formed schemas

A schema is well-formed if every schema that it leads to is one that may be written down. A document
can only answer for what it defines itself, so what it defines is `Proper` over what it was offered;
that is enough if what it was offered is well-formed.
-/

set_option autoImplicit false

open List

namespace Avro

variable {reference : Reference}

/-- What a named type has to be: names are legal, and no field or symbol occurs twice. -/
def Body.Formed : Body → Prop
  | .record _ fields =>
    (∀ field ∈ fields, Name.isLegal field.name = true) ∧ (fields.map (·.name)).Nodup
  | .enum symbols default =>
    (∀ symbol ∈ symbols, Name.isLegal symbol = true) ∧ symbols.Nodup ∧
      ∀ symbol, default = some symbol → symbol ∈ symbols
  | .fixed size => 0 ≤ (size : Int) ∧ (size : Int) ≤ Number.maxInt64

def Definition.Formed (definition : Definition) : Prop :=
  Name.isLegal definition.name.simple = true ∧ definition.body.Formed

namespace Schema

/-- Branches that make a union: none is a union, and no two have the same full name. -/
def Apart (branches : List Schema) : Prop :=
  (∀ branch ∈ branches, branch.isUnion = false) ∧ (branches.map fullName).Nodup

def Formed (catalog : Catalog) : Schema → Prop
  | .union branches _ => Apart branches
  | .named reference => ∃ definition, catalog.find? reference = some definition ∧
    definition.name = reference.name ∧ definition.Formed
  | _ => True

/-- What can be reached from a schema. -/
inductive Leads (catalog : Catalog) (root : Schema) : Schema → Prop
  | here : Leads catalog root root
  | inner {kind schema props} (path : Leads catalog root (.container kind schema props)) :
      Leads catalog root schema
  | branch {branches props branch} (path : Leads catalog root (.union branches props))
      (among : branch ∈ branches) : Leads catalog root branch
  | field {reference definition field} (path : Leads catalog root (.named reference))
      (found : catalog.find? reference = some definition) (among : field ∈ definition.body.fields) :
      Leads catalog root field.type

def WellFormed (catalog : Catalog) (schema : Schema) : Prop :=
  ∀ node, Leads catalog schema node → node.Formed catalog

/-- An expression whose unions are as they have to be, over types that are allowed. -/
inductive Proper (allowed : Reference → Prop) : Schema → Prop
  | primitive (kind : Primitive) (props : Members) : Proper allowed (.primitive kind props)
  | container {schema} (kind : Container) (props : Members) (inner : Proper allowed schema) :
      Proper allowed (.container kind schema props)
  | union {branches} (props : Members) (each : ∀ branch ∈ branches, Proper allowed branch)
      (apart : Apart branches) : Proper allowed (.union branches props)
  | named {reference : Reference} (among : allowed reference) : Proper allowed (.named reference)

variable {allowed more : Reference → Prop} {catalog : Catalog}

theorem Proper.mono {schema : Schema} (proper : schema.Proper allowed)
    (within : ∀ reference, allowed reference → more reference) : schema.Proper more := by
  induction proper with
  | primitive kind props => exact .primitive kind props
  | container kind props _ ih => exact .container kind props ih
  | union props _ apart ih => exact .union props ih apart
  | named among => exact .named (within _ among)

theorem Proper.withProps {schema : Schema} (proper : schema.Proper allowed) (props : Members) :
    (schema.withProps props).Proper allowed := by
  cases proper with
  | primitive kind => exact .primitive kind _
  | container kind _ inner => exact .container kind _ inner
  | union _ each apart => exact .union _ each apart
  | named among => exact .named among

theorem branchFault?_eq_none_iff {seen branches} :
    branchFault? seen branches = none ↔
      Apart branches ∧ ∀ branch ∈ branches, branch.fullName ∉ seen := by
  induction branches generalizing seen with
  | nil => simp [branchFault?, Apart]
  | cons _ _ ih =>
    rw [branchFault?]
    split
    · rename_i nested
      simp [Apart, nested]
    · rename_i flat
      split
      · rename_i before
        simp [before]
      · rename_i fresh
        rw [ih]
        simp only [Apart, map_cons, nodup_cons, mem_map, mem_cons, not_or]
        grind

theorem proper_makeUnion {branches : List Schema} {union : Schema}
    (each : ∀ branch ∈ branches, branch.Proper allowed) (made : makeUnion branches = .ok union) :
    union.Proper allowed := by
  rw [makeUnion] at made
  split at made
  · cases made
  · rename_i faultless
    cases made
    exact .union [] each (branchFault?_eq_none_iff.mp faultless).1

theorem Leads.mentioned {root : Schema} :
    ∀ {schema : Schema}, Leads catalog root schema → reference ∈ schema.references →
      Leads catalog root (.named reference)
  | .primitive _ _, _, mentioned => by cases mentioned
  | .container _ _ _, path, mentioned => path.inner.mentioned mentioned
  | .union branches _, path, mentioned => by
    obtain ⟨branch, among, inBranch⟩ := mem_allReferences.mp mentioned
    exact (path.branch among).mentioned inBranch
  | .named _, path, mentioned => by
    cases mem_singleton.mp mentioned
    exact path

theorem WellFormed.proper {root : Schema} (formed : root.WellFormed catalog) :
    ∀ {schema : Schema}, Leads catalog root schema →
      (∀ reference ∈ schema.references, allowed reference) → schema.Proper allowed
  | .primitive kind props, _, _ => .primitive kind props
  | .container kind _ props, path, offered =>
    .container kind props (formed.proper path.inner offered)
  | .union branches props, path, offered => by
    refine .union props (fun branch among => ?_) (formed _ path)
    refine formed.proper (path.branch among) fun reference mentioned => ?_
    exact offered reference (mem_allReferences.mpr ⟨branch, among, mentioned⟩)
  | .named _, _, offered => .named (offered _ (mem_singleton.mpr rfl))

end Schema

structure Definition.Proper (allowed : Reference → Prop) (definition : Definition) : Prop where
  formed : definition.Formed
  fields : ∀ field ∈ definition.body.fields, field.type.Proper allowed

theorem Definition.Proper.mono {allowed more : Reference → Prop} {definition : Definition}
    (proper : definition.Proper allowed)
    (within : ∀ reference, allowed reference → more reference) : definition.Proper more where
  formed := proper.formed
  fields field among := (proper.fields field among).mono within

namespace Scope

variable {before middle after : Scope} {definitions : List Definition}

theorem offers_iff (extended : before.Extends after definitions) :
    after.Offers reference ↔
      before.Offers reference ∨ reference ∈ references before.catalog.length definitions := by
  constructor
  · rintro ⟨entry, member, mentioned⟩
    rw [extended.known, extended.own, ← append_assoc, mem_append] at member
    rcases member with earlier | new
    · exact .inl ⟨entry, earlier, mentioned⟩
    · obtain ⟨type, defined, rfl⟩ := mem_map.mp new
      cases mem_singleton.mp mentioned
      exact .inr defined
  · rintro (earlier | new)
    · exact extended.offers earlier
    · exact extended.offers_defined new

def Proper (scope : Scope) : Prop :=
  ∀ entry ∈ scope.known ++ scope.own, entry.2.Proper scope.Offers

/-- A scope goes on from an earlier one with proper definitions of new names. -/
structure Grows (before after : Scope) (definitions : List Definition) : Prop where
  extends_ : before.Extends after definitions
  proper : ∀ definition ∈ definitions, definition.Proper after.Offers
  distinct : before.names.Nodup → after.names.Nodup

theorem Grows.refl (scope : Scope) : scope.Grows scope [] where
  extends_ := .refl scope
  proper := nofun
  distinct := id

theorem Grows.trans {first second : List Definition} (start : before.Grows middle first)
    (continued : middle.Grows after second) : before.Grows after (first ++ second) where
  extends_ := start.extends_.trans continued.extends_
  proper := by
    intro definition member
    rcases mem_append.mp member with earlier | later
    · exact (start.proper definition earlier).mono fun _ => continued.extends_.offers
    · exact continued.proper definition later
  distinct := continued.distinct ∘ start.distinct

end Scope

namespace Schema

theorem Formed.append {catalog : Catalog} {node : Schema} (formed : node.Formed catalog)
    (added : List Definition) : node.Formed (catalog ++ added) := by
  cases node with
  | named =>
    obtain ⟨definition, found, named⟩ := formed
    exact ⟨definition, Catalog.find?_append found added, named⟩
  | _ => exact formed

theorem WellFormed.append {catalog : Catalog} {root : Schema} (formed : root.WellFormed catalog)
    (added : List Definition) : root.WellFormed (catalog ++ added) := by
  intro node leads
  have before : Leads catalog root node := by
    induction leads with
    | here => exact .here
    | inner _ ih => exact ih.inner
    | branch _ among ih => exact ih.branch among
    | field _ found among ih =>
      obtain ⟨_, foundBefore, _⟩ := formed _ ih
      cases (Catalog.find?_append foundBefore added).symm.trans found
      exact ih.field foundBefore among
  exact (formed node before).append added

section Reading

variable {before after : Scope} {definitions : List Definition}
  (grows : before.Grows after definitions)
  (known : ∀ entry ∈ before.known ++ before.own, entry.2.WellFormed before.catalog)

def LedBefore (before after : Scope) (node : Schema) : Prop :=
  ∃ entry ∈ before.known ++ before.own, Leads after.catalog entry.2 node

include grows

theorem ledBefore_or_defined (offered : after.Offers reference) :
    LedBefore before after (.named reference) ∨
      ∃ definition ∈ definitions, after.catalog.find? reference = some definition ∧
        definition.name = reference.name := by
  rcases (Scope.offers_iff grows.extends_).mp offered with ⟨entry, member, mentioned⟩ | new
  · exact .inl ⟨entry, member, Leads.here.mentioned mentioned⟩
  · rw [grows.extends_.catalog]
    exact .inr (Catalog.find?_references before.catalog definitions reference new)

/-- From a proper schema, only proper ones and those known before are reached. -/
theorem Proper.led {root node : Schema} (proper : root.Proper after.Offers)
    (leads : Leads after.catalog root node) :
    node.Proper after.Offers ∨ LedBefore before after node := by
  -- on the way from the root; once it has met a type from before, it stays among those
  induction leads with
  | here => exact .inl proper
  | inner _ ih =>
    rcases ih with proper | ⟨entry, member, path⟩
    · cases proper with
      | container _ _ inner => exact .inl inner
    · exact .inr ⟨entry, member, path.inner⟩
  | branch _ among ih =>
    rcases ih with proper | ⟨entry, member, path⟩
    · cases proper with
      | union _ each => exact .inl (each _ among)
    · exact .inr ⟨entry, member, path.branch among⟩
  | field _ found among ih =>
    rcases ih with proper | ⟨entry, member, path⟩
    · cases proper with
      | named offered =>
        rcases ledBefore_or_defined grows offered with ⟨entry, member, path⟩ | ⟨_, listed, same, _⟩
        · exact .inr ⟨entry, member, path.field found among⟩
        · cases found.symm.trans same
          exact .inl ((grows.proper _ listed).fields _ among)
    · exact .inr ⟨entry, member, path.field found among⟩

include known

theorem LedBefore.formed {node : Schema} (led : LedBefore before after node) :
    node.Formed after.catalog := by
  obtain ⟨entry, member, path⟩ := led
  rw [grows.extends_.catalog] at path ⊢
  exact (known entry member).append definitions node path

theorem Proper.wellFormed {schema : Schema} (proper : schema.Proper after.Offers) :
    schema.WellFormed after.catalog := by
  intro node leads
  rcases proper.led grows leads with proper | led
  · cases proper with
    | primitive | container => trivial
    | union _ _ apart => exact apart
    | named offered =>
      rcases ledBefore_or_defined grows offered with led | ⟨definition, listed, found, named⟩
      · exact led.formed grows known
      · exact ⟨definition, found, named, (grows.proper definition listed).formed⟩
  · exact led.formed grows known

end Reading

end Schema

end Avro
