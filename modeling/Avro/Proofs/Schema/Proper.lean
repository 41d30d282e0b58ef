import Avro.Proofs.Schema.Coverage
import Avro.Proofs.Schema.Regular
import Avro.Proofs.Schema.WellFormed

/-!
# What is read is proper

What a part means is proper over what is on offer after it, and so are the definitions that it adds.
A record is on offer while its fields are read.
-/

set_option autoImplicit false

open List

namespace Avro

structure Field.Proper (allowed : Reference → Prop) (field : Field) : Prop where
  legal : Name.isLegal field.name = true
  type : field.type.Proper allowed

theorem Field.Proper.mono {allowed more} {field : Field} (proper : field.Proper allowed)
    (within : ∀ reference, allowed reference → more reference) : field.Proper more :=
  ⟨proper.legal, proper.type.mono within⟩

theorem Body.formed_record {allowed isError fields} (each : ∀ field ∈ fields, field.Proper allowed)
    (distinct : (fields.map (·.name)).Nodup) : (Body.record isError fields).Formed :=
  ⟨fun field member => (each field member).legal, distinct⟩

theorem Body.Regular.formed {ints : Prop} {body : Body} (regular : body.Regular ints) :
    body.Formed := by
  cases regular with
  | record each distinct => exact ⟨fun field member => (each field member).legal, distinct⟩
  | enum legal distinct among => exact ⟨legal, distinct, among⟩
  | fixed small => exact ⟨Int.natCast_nonneg _, small⟩

namespace Scope

variable {before after : Scope} {definitions : List Definition}

theorem Proper.extends_ (proper : before.Proper) (extended : before.Extends after definitions) :
    after.Proper := by
  intro entry member
  rw [extended.known, extended.own, ← append_assoc, mem_append] at member
  rcases member with earlier | new
  · exact (proper entry earlier).mono fun _ => extended.offers
  · obtain ⟨reference, defined, rfl⟩ := mem_map.mp new
    exact .named (extended.offers_defined defined)

theorem Proper.resolve? {scope : Scope} {name space schema} (proper : scope.Proper)
    (resolved : scope.resolve? name space = some schema) : schema.Proper scope.Offers := by
  obtain ⟨full, _, listed⟩ := mem_of_resolve? resolved
  exact proper _ listed

theorem proper_start {catalog known} (formed : ∀ entry ∈ known, entry.2.WellFormed catalog) :
    (start catalog known).Proper := by
  intro entry member
  have listed : entry ∈ known := by simpa [start] using member
  exact (formed entry listed).proper .here fun reference mentioned => ⟨entry, member, mentioned⟩

theorem Grows.install {scope inner : Scope} {head reference} {body : Body}
    (defined : scope.define head = .ok (reference, inner))
    (legal : Name.isLegal head.name.simple = true) (grows : inner.Grows after definitions)
    (formed : body.Formed) (fields : ∀ field ∈ body.fields, field.type.Proper after.Offers) :
    scope.Grows (after.install reference body) ({ head with body := body } :: definitions) ∧
      (after.install reference body).Offers reference := by
  obtain ⟨_, rfl, _⟩ := define_ok_iff.mp defined
  have whole := grows.extends_.complete defined body
  refine ⟨⟨whole, ?_, ?_⟩, whole.offers_defined (mem_cons_self ..)⟩
  · intro definition member
    rcases mem_cons.mp member with rfl | later
    · exact ⟨⟨legal, formed⟩, fields⟩
    · exact grows.proper definition later
  · exact fun distinct => grows.distinct (nodup_define defined distinct)

end Scope

namespace Schema

def Meaning.Proper (allowed : Reference → Prop) : Meaning → Prop
  | .schema read => read.Proper allowed
  | .branches read => ∀ branch ∈ read, branch.Proper allowed
  | .fields read => ∀ field ∈ read, field.Proper allowed
  | .field read => read.Proper allowed

theorem Meaning.Proper.mono {allowed more} {meaning : Meaning} (proper : meaning.Proper allowed)
    (within : ∀ reference, allowed reference → more reference) : meaning.Proper more := by
  cases meaning with
  | schema => exact Schema.Proper.mono proper within
  | branches | fields => exact fun one among => (proper one among).mono within
  | field => exact Field.Proper.mono proper within

theorem readHead_legal {kind members space head} (read : readHead kind members space = .ok head) :
    Name.isLegal head.name.simple = true := by
  obtain ⟨written, _, read⟩ := bind_ok.mp read
  obtain ⟨outer, _, read⟩ := bind_ok.mp read
  obtain ⟨name, named, read⟩ := bind_ok.mp read
  obtain ⟨aliases, _, read⟩ := bind_ok.mp read
  cases read
  simp only [legalName] at named
  split at named
  · cases named
  · rename_i legal
    split at named
    · cases named
    · cases named
      simpa using legal

theorem Reads.proper {scope after part meaning} (reads : Reads scope part meaning after)
    (proper : scope.Proper) :
    (∃ definitions, scope.Grows after definitions) ∧ meaning.Proper after.Offers := by
  induction reads with
  | primitive | primitiveObject => exact ⟨⟨_, .refl _⟩, Proper.primitive _ _⟩
  | name _ resolved | nameObject _ _ _ _ resolved =>
    exact ⟨⟨_, .refl _⟩, proper.resolve? resolved⟩
  | union _ made ih =>
    obtain ⟨grows, each⟩ := ih proper
    exact ⟨grows, proper_makeUnion each made⟩
  | leaf isLeaf _ headed defined bodied =>
    have formed := (readLeaf_regular True isLeaf bodied).formed
    obtain ⟨grows, offered⟩ := Scope.Grows.install defined (readHead_legal headed) (.refl _) formed
      (by rw [readLeaf_fields isLeaf bodied]; exact nofun)
    exact ⟨⟨_, grows⟩, Proper.named offered⟩
  | record _ headed defined _ items ih =>
    obtain ⟨_, _, begun⟩ := Scope.define_ok_iff.mp defined
    obtain ⟨⟨_, grows⟩, each⟩ := ih (proper.extends_ begun)
    have distinct := (readFields_distinct (readFields_ok_iff.mpr items)).1
    obtain ⟨grows, offered⟩ := Scope.Grows.install defined (readHead_legal headed) grows
      (Body.formed_record each distinct) fun field member => (each field member).type
    exact ⟨⟨_, grows⟩, Proper.named offered⟩
  | container _ _ _ ih =>
    obtain ⟨grows, inner⟩ := ih proper
    exact ⟨grows, Proper.container _ _ inner⟩
  | wrapped _ _ _ ih => exact ih proper
  | noBranches | noFields => exact ⟨⟨_, .refl _⟩, nofun⟩
  | moreBranches _ _ firstIH othersIH | moreFields _ _ _ firstIH othersIH =>
    obtain ⟨⟨_, grows⟩, first⟩ := firstIH proper
    obtain ⟨⟨_, growsOn⟩, others⟩ := othersIH (proper.extends_ grows.extends_)
    refine ⟨⟨_, grows.trans growsOn⟩, forall_mem_cons.mpr ⟨?_, others⟩⟩
    first
      | exact Schema.Proper.mono first fun _ => growsOn.extends_.offers
      | exact Field.Proper.mono first fun _ => growsOn.extends_.offers
  | field called typed inner completed ih =>
    obtain ⟨grows, type⟩ := ih proper
    have named := (Reads.field called typed inner completed).field_name
    refine ⟨grows, readFieldName_legal named, ?_⟩
    rw [readFieldRest_type completed]
    exact type

end Schema

end Avro
