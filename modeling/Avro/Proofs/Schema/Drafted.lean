import Avro.Proofs.Schema.Regular

/-!
# Drafted schemas

A schema is drafted over some types if it mentions no others and would keep the rules of reading
once its names are seen to be legal and its custom properties to have no reserved keys.
-/

set_option autoImplicit false

open List

namespace Avro

open Json (Plain)

variable {reserved : List Text}

/-- No property of an expression has a reserved key. The properties of a union are not written. -/
inductive Schema.Unreserved : Schema → Prop
  | primitive {kind} {props : Members} (free : props.Free reservedKeys) :
      Unreserved (.primitive kind props)
  | container {kind schema} {props : Members} (inner : Unreserved schema)
      (free : props.Free reservedKeys) : Unreserved (.container kind schema props)
  | union {branches props} (each : ∀ branch ∈ branches, Unreserved branch) :
      Unreserved (.union branches props)
  | named {reference} : Unreserved (.named reference)

structure Field.Unreserved (field : Field) : Prop where
  free : field.props.Free Schema.fieldReservedKeys
  type : field.type.Unreserved

structure Definition.Unreserved (definition : Definition) : Prop where
  free : definition.props.Free Schema.reservedKeys
  fields : ∀ field ∈ definition.body.fields, field.Unreserved

def LegalNames (types : List Reference) : Prop := ∀ type ∈ types, type.name.Legal

/-- An expression over some types that keeps all other rules. -/
structure Schema.Drafted (types : List Reference) (schema : Schema) : Prop where
  told : ∀ reference ∈ schema.references, reference ∈ types
  regular : LegalNames types → schema.Unreserved → schema.Regular True

structure Field.Drafted (types : List Reference) (field : Field) : Prop where
  told : ∀ reference ∈ field.type.references, reference ∈ types
  regular : LegalNames types → field.Unreserved → field.Regular True

structure Definition.Drafted (types : List Reference) (definition : Definition) : Prop where
  told : ∀ reference ∈ definition.references, reference ∈ types
  regular : LegalNames types → definition.name.Legal → definition.Unreserved →
    definition.Regular True

theorem Members.custom_of_plain {props : Members} (plain : Plain (.obj props))
    (free : props.Free reserved) : props.Custom True reserved :=
  ⟨plain.mono False.elim, free⟩

theorem Members.Free.of_setAll {members more : Members} (free : (members.setAll more).Free reserved)
    :
    members.Free reserved := by
  rw [Members.setAll] at free
  induction more generalizing members with
  | nil => exact free
  | cons member _ ih =>
    have longer := ih free
    intro earlier among taken
    have keys := Members.map_fst_set members member.1 member.2
    have listed : earlier.1 ∈ (members.set member.1 member.2).map Prod.fst := by
      rw [keys]
      exact mem_append_left _ (mem_map_of_mem among)
    obtain ⟨other, present, same⟩ := mem_map.mp listed
    exact longer other present (same ▸ taken)

theorem Members.custom_setAll {members more : Members} (free : (members.setAll more).Free reserved)
    (custom : members.Custom True reserved) (plain : Plain (.obj more)) :
    (members.setAll more).Custom True reserved :=
  ⟨custom.tidy.setAll (plain.mono False.elim), free⟩

namespace Schema

variable {types : List Reference} {props : Members}

/-! ## Expressions -/

theorem Drafted.primitive (kind : Primitive) (tidy : Json.Tidy True (.obj props)) :
    Drafted types (.primitive kind props) where
  told := forall_mem_nil _
  regular := by
    intro _ unreserved
    obtain ⟨free⟩ := unreserved
    exact .primitive kind ⟨tidy, free⟩

theorem Drafted.container {kind} {schema : Schema} (inner : schema.Drafted types) :
    Drafted types (.container kind schema []) where
  told := inner.told
  regular := by
    intro legal unreserved
    cases unreserved with
    | container unreserved => exact .container (inner.regular legal unreserved) (custom_nil _)

theorem Drafted.named {reference : Reference} (told : reference ∈ types) :
    Drafted types (.named reference) where
  told := forall_mem_singleton.mpr told
  regular := fun legal _ => .named (legal reference told)

theorem Drafted.union {branches union} (each : ∀ branch ∈ branches, branch.Drafted types)
    (made : makeUnion branches = .ok union) : union.Drafted types := by
  have sound := branchFault?_of_makeUnion made
  cases makeUnion_eq made
  refine ⟨fun reference member => ?_, fun legal unreserved => ?_⟩
  · obtain ⟨branch, among, mentioned⟩ := mem_allReferences.mp member
    exact (each branch among).told reference mentioned
  · cases unreserved with
    | union unreserved =>
      refine .union (fun branch among => ?_) sound (fun _ => trivial)
      exact (each branch among).regular legal (unreserved branch among)

theorem Drafted.withProps {schema : Schema} {more : Members} (drafted : schema.Drafted types)
    (plain : Plain (.obj more)) : (schema.withProps more).Drafted types := by
  refine ⟨?_, fun legal unreserved => ?_⟩
  · have same : (schema.withProps more).references = schema.references := by
      cases schema <;> simp only [Schema.withProps, references]
    rw [same]
    exact drafted.told
  · cases schema with
    | primitive kind =>
      obtain ⟨free⟩ := unreserved
      cases drafted.regular legal (.primitive free.of_setAll) with
      | primitive _ custom => exact .primitive kind (Members.custom_setAll free custom plain)
    | container =>
      cases unreserved with
      | container inner free =>
        cases drafted.regular legal (.container inner free.of_setAll) with
        | container regular custom =>
          exact .container regular (Members.custom_setAll free custom plain)
    | union =>
      cases unreserved with
      | union each =>
        cases drafted.regular legal (.union each) with
        | union regular sound => exact .union regular sound (fun _ => trivial)
    | named => exact drafted.regular legal unreserved

end Schema

end Avro
