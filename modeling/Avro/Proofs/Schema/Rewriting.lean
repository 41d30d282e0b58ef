import Avro.Proofs.Schema.Writes

/-!
# Writing what was read

A document that knows nothing but its own types is written in the order in which it was read: in
full where a type was defined, and by name wherever it was named.
-/

set_option autoImplicit false

open List

namespace Avro

variable {scope : Scope} {types : List Reference}

/-- The document knows exactly some types, all of them its own. -/
structure Scope.Tells (scope : Scope) (types : List Reference) : Prop where
  known : scope.known = []
  own : scope.own = types.map Scope.entry

namespace Scope

theorem tells_empty : Scope.empty.Tells [] := ⟨rfl, rfl⟩

theorem Tells.names (tells : scope.Tells types) : scope.names = types.map (·.name.text) := by
  rw [Scope.names, tells.own, map_map]
  rfl

theorem Tells.extends_ {before after : Scope} {definitions} (tells : before.Tells types)
    (extended : before.Extends after definitions) :
    after.Tells (types ++ references before.catalog.length definitions) where
  known := extended.known.trans tells.known
  own := by rw [extended.own, tells.own, map_append, entries]

theorem Tells.resolve? (tells : scope.Tells types) {name space schema}
    (resolved : scope.resolve? name space = some schema) :
    ∃ reference ∈ types, schema = .named reference := by
  obtain ⟨full, _, listed⟩ := mem_of_resolve? resolved
  rw [tells.known, tells.own, nil_append] at listed
  obtain ⟨reference, known, same⟩ := mem_map.mp listed
  exact ⟨reference, known, (congrArg Prod.snd same).symm⟩

end Scope

theorem Catalog.find?_middle (before later : List Definition) (definition : Definition)
    (name : FullName) :
    Catalog.find? (before ++ definition :: later) ⟨before.length, name⟩ = some definition := by
  rw [find?, getElem?_append_right (Nat.le_refl _), Nat.sub_self]
  rfl

namespace Schema

theorem Seen.mem_add_nil {reference : Reference} (member : reference ∈ types) :
    reference.name.text ∈ Seen.add [] types := by
  rw [Seen.add, append_nil, mem_reverse]
  exact mem_map_of_mem member

def Part.space : Part → Text
  | .schema space _ => space
  | .branches space _ => space
  | .fields owner _ _ => owner.space
  | .field space _ => space

def Meaning.piece : Meaning → Piece
  | .schema whole => .schema whole
  | .branches all => .schemas all
  | .fields all => .fields all
  | .field one => .schema one.type

/-- A document is told again: the definitions that a reading has added are those that writing its
meaning writes in full, and at the same places. -/
def Retold (scope : Scope) (part : Part) (meaning : Meaning) (definitions : List Definition) : Prop :=
  ∀ (types : List Reference) (before later : List Definition), scope.Tells types →
    before.length = scope.catalog.length →
    (∀ reference ∈ types, Catalog.Holds (before ++ definitions ++ later) reference) →
    ∃ trees mentions, Writes (before ++ definitions ++ later) part.space meaning.piece
      (Seen.add [] types) trees (Scope.references before.length definitions) mentions

variable {part : Part} {catalog : Catalog} {news : List Reference} {mentions : List Mention}
  {space : Text}

theorem Writes.exists_one {schema seen trees}
    (writes : Writes catalog space (.schema schema) seen trees news mentions) :
    ∃ tree, trees = .one tree := by
  cases writes <;> exact ⟨_, rfl⟩

theorem Writes.exists_many {schemas seen trees}
    (writes : Writes catalog space (.schemas schemas) seen trees news mentions) :
    ∃ list, trees = .many list := by
  cases writes <;> exact ⟨_, rfl⟩

theorem Writes.exists_fields {fields seen trees}
    (writes : Writes catalog space (.fields fields) seen trees news mentions) :
    ∃ list, trees = .many list := by
  cases writes <;> exact ⟨_, rfl⟩

theorem Retold.name {name schema} (resolved : scope.resolve? name space = some schema) :
    Retold scope part (.schema schema) [] := by
  intro types before later tells _ held
  obtain ⟨reference, member, rfl⟩ := tells.resolve? resolved
  exact ⟨_, _, .mention (held reference member) (Seen.mem_add_nil member)⟩

theorem Retold.noFields {head : Definition} {fields : List Field} (empty : fields = []) :
    Retold scope (.fields head.name [] []) (.fields fields) [] := by
  subst empty
  exact fun _ _ _ _ _ _ => ⟨_, _, .noFields⟩

theorem Retold.definition {inner after : Scope} {head : Definition} {reference : Reference}
    {body : Body} {items : Part} {rest : List Definition}
    (defined : scope.define head = .ok (reference, inner)) (extended : inner.Extends after rest)
    (within : items.space = head.name.space) (told : Retold inner items (.fields body.fields) rest)
    :
    scope.Extends (after.install reference body) ({ head with body := body } :: rest) ∧
      Retold scope part (.schema (.named reference)) ({ head with body := body } :: rest) := by
  obtain ⟨fresh, rfl, begun⟩ := Scope.define_ok_iff.mp defined
  refine ⟨(begun.trans extended).install rfl body, ?_⟩
  intro types before later tells length held
  have found := Catalog.find?_middle before (rest ++ later) { head with body := body } head.name
  have more := tells.extends_ begun
  rw [tells.names] at fresh
  simp only [Scope.references, ← length] at more ⊢
  simp only [append_assoc, cons_append] at held ⊢
  obtain ⟨trees, mentions, inside⟩ := told _ (before ++ [{ head with body := body }]) later more
    (by rw [begun.catalog, length_append, length_append, length]; rfl) (by
      simp only [append_assoc, cons_append, nil_append]
      exact forall_mem_append.mpr ⟨held, forall_mem_singleton.mpr ⟨_, found, rfl⟩⟩)
  obtain ⟨trees, rfl⟩ := inside.exists_fields
  rw [within, Seen.add_append] at inside
  simp only [append_assoc, cons_append, nil_append, length_append,
    length_cons, length_nil, Nat.zero_add] at inside
  refine ⟨_, _, .definition ?_ found rfl inside⟩
  rw [Seen.add, append_nil, mem_reverse]
  exact fresh

theorem Retold.both {middle next meaning rest first second} (extended : scope.Extends middle first)
    (told : Retold scope part meaning first) (others : Retold middle next rest second)
    {before later : List Definition} (tells : scope.Tells types)
    (length : before.length = scope.catalog.length)
    (held : ∀ reference ∈ types, Catalog.Holds (before ++ (first ++ second) ++ later) reference) :
    ∃ trees more mentions otherMentions,
      Writes (before ++ (first ++ second) ++ later) part.space meaning.piece (Seen.add [] types)
        trees (Scope.references before.length first) mentions ∧
      Writes (before ++ (first ++ second) ++ later) next.space rest.piece
        ((Seen.add [] types).add (Scope.references before.length first)) more
        (Scope.references (before.length + first.length) second) otherMentions := by
  have known := tells.extends_ extended
  have whole : before ++ (first ++ second) ++ later = before ++ first ++ (second ++ later) := by
    simp only [append_assoc]
  have split : before ++ (first ++ second) ++ later = (before ++ first) ++ second ++ later := by
    simp only [append_assoc]
  have heldFirst : ∀ reference ∈ Scope.references before.length first,
      Catalog.Holds (before ++ (first ++ second) ++ later) reference := by
    intro reference member
    obtain ⟨definition, _, found, named⟩ := Catalog.find?_references before first reference member
    rw [whole]
    exact Catalog.Holds.append ⟨definition, found, named⟩ _
  obtain ⟨trees, mentions, writes⟩ := told types before (second ++ later) tells length
    (whole ▸ held)
  obtain ⟨more, otherMentions, continues⟩ := others _ (before ++ first) later known
    (by rw [extended.catalog, length_append, length_append, length]) (by
      rw [← split, ← length]
      exact forall_mem_append.mpr ⟨held, heldFirst⟩)
  rw [← split, Seen.add_append, ← length, length_append] at continues
  rw [← whole] at writes
  exact ⟨trees, more, mentions, otherMentions, writes, continues⟩

/-- A document is written in the order in which it was read. -/
theorem Reads.retold {after meaning} (reads : Reads scope part meaning after) :
    ∃ definitions, scope.Extends after definitions ∧ Retold scope part meaning definitions := by
  induction reads with
  | @primitive _ _ _ kind | @primitiveObject _ _ _ _ kind =>
    exact ⟨[], .refl _, fun _ _ _ _ _ _ => ⟨_, _, .primitive kind _⟩⟩
  | name _ resolved | nameObject _ _ _ _ resolved => exact ⟨[], .refl _, .name resolved⟩
  | union _ made ih =>
    obtain ⟨definitions, extended, told⟩ := ih
    cases makeUnion_eq made
    refine ⟨definitions, extended, fun types before later tells length held => ?_⟩
    obtain ⟨_, _, inner⟩ := told types before later tells length held
    obtain ⟨_, rfl⟩ := inner.exists_many
    exact ⟨_, _, .union _ inner⟩
  | container _ _ inner ih =>
    obtain ⟨definitions, extended, told⟩ := ih
    refine ⟨definitions, extended, fun types before later tells length held => ?_⟩
    obtain ⟨_, _, inner⟩ := told types before later tells length held
    obtain ⟨_, rfl⟩ := inner.exists_one
    exact ⟨_, _, .container _ _ inner⟩
  | leaf isLeaf _ _ defined bodied =>
    exact ⟨_, Retold.definition defined (.refl _) rfl (.noFields (readLeaf_fields isLeaf bodied))⟩
  | @record _ _ _ _ _ isError _ _ _ fields _ _ defined _ _ ih =>
    obtain ⟨definitions, extended, told⟩ := ih
    have told : Retold _ _ (.fields (Body.record isError fields).fields) definitions := told
    exact ⟨_, Retold.definition defined extended rfl told⟩
  | wrapped _ _ _ ih => exact ih
  | noBranches => exact ⟨[], .refl _, fun _ _ _ _ _ _ => ⟨_, _, .noSchemas⟩⟩
  | noFields => exact ⟨[], .refl _, fun _ _ _ _ _ _ => ⟨_, _, .noFields⟩⟩
  | moreBranches _ _ firstIH othersIH | moreFields _ _ _ firstIH othersIH =>
    obtain ⟨front, extended, told⟩ := firstIH
    obtain ⟨back, continued, more⟩ := othersIH
    refine ⟨_, extended.trans continued, fun types before later tells length held => ?_⟩
    obtain ⟨_, _, _, _, first, others⟩ := told.both extended more tells length held
    obtain ⟨_, rfl⟩ := first.exists_one
    rw [Scope.references_append]
    first
      | obtain ⟨_, rfl⟩ := others.exists_many
        exact ⟨_, _, .moreSchemas first others⟩
      | obtain ⟨_, rfl⟩ := others.exists_fields
        exact ⟨_, _, .moreFields first others⟩
  | field _ _ _ completed ih =>
    obtain ⟨definitions, extended, told⟩ := ih
    refine ⟨definitions, extended, fun types before later tells length held => ?_⟩
    rw [Meaning.piece, readFieldRest_type completed]
    exact told types before later tells length held

end Schema

end Avro
