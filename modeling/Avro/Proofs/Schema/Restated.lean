import Avro.Proofs.Schema.SelfContained

/-!
# Writing again what was written and read

A schema that was read from a written form is written in that form again. A mention that is read as
another type than it was written for is written by the same name again.
-/

set_option autoImplicit false

open List

namespace Avro

open Name

open Json (membersAsRead itemsAsRead)

variable {name : FullName} {space : Text}

theorem FullName.Legal.eq_of_qualify (legal : name.Legal) {simple : Text}
    (simply : isLegal simple = true) (same : name.text = qualify space simple) :
    name = ⟨space, simple⟩ := by
  have split : split (qualify space simple) [] = (space, simple) := by
    by_cases outside : space = []
    · subst outside
      exact split_simple simply []
    · have text : qualify space simple = FullName.text ⟨space, simple⟩ := rfl
      rw [text]
      exact split_qualified simply outside []
  have parts := legal.split_text
  rw [same, split] at parts
  cases parts
  rfl

namespace Schema

variable {ints : Prop} {scope : Scope} {definition : Definition} {definitions : List Definition}
  {schema : Schema}

section Names

theorem writtenName_simple (near : name.space = space ∨ name.space = []) :
    writtenName space name = name.simple := by
  rw [writtenName]
  split
  · rfl
  · rename_i foreign
    exact FullName.text_of_space_nil (near.resolve_left foreign)

/-- A legal type found by the name that is written for another one is written by that name, too. -/
private theorem writtenName_of_mem_candidates {other : FullName} (legal : name.Legal)
    (legalOther : other.Legal)
    (candidate : other.text ∈ Scope.candidates (writtenName space name) space) :
    writtenName space other = writtenName space name := by
  by_cases near : name.space = space ∨ name.space = []
  · rw [writtenName_simple near] at candidate ⊢
    have full : Scope.expand name.simple space = qualify space name.simple := by
      rw [Scope.expand, split_simple legal.simple]
    rw [Scope.candidates, full] at candidate
    have either : other.text = qualify space name.simple ∨
        other.text = qualify [] name.simple := by
      split at candidate
      · exact .inl (mem_singleton.mp candidate)
      · simpa [qualify] using candidate
    rcases either with inside | outside
    · rw [legalOther.eq_of_qualify legal.simple inside]
      exact writtenName_simple (.inl rfl)
    · rw [legalOther.eq_of_qualify legal.simple outside]
      exact writtenName_simple (.inr rfl)
  · obtain ⟨foreign, inside⟩ := not_or.mp near
    have written : writtenName space name = name.text := if_neg foreign
    have full : Scope.expand name.text space = name.text := by
      rw [Scope.expand, split_qualified legal.simple inside]
      rfl
    rw [written, Scope.candidates, full, if_pos (.inr rfl)] at candidate
    rw [legalOther.eq_of_text legal (mem_singleton.mp candidate)]

end Names

/-! ## Trees -/

section Again

variable {reserved : List Text} {props : Members}

theorem custom_again (custom : props.Custom ints reserved) :
    (membersAsRead props).Custom False reserved where
  tidy := custom.tidy.plain_asRead
  free := custom.asRead

theorem membersAsRead_again (custom : props.Custom ints reserved) :
    membersAsRead (membersAsRead props) = membersAsRead props :=
  membersAsRead_eq_self (custom_again custom)

theorem aliasMembers_keptAliases (aliases : Option (List Text)) :
    aliasMembers (keptAliases aliases) = aliasMembers aliases := by
  rcases aliases with _ | _ | ⟨first, rest⟩ <;> rfl

theorem cleanTexts_keptAliases {aliases} (clean : CleanTexts aliases) :
    CleanTexts (keptAliases aliases) := by
  rcases aliases with _ | _ | ⟨first, rest⟩
  · exact cleanTexts_none
  · exact cleanTexts_none
  · exact clean

theorem asRead_primitiveTree_again (kind : Primitive) (custom : props.Custom ints reservedKeys) :
    (primitiveTree kind (membersAsRead props)).asRead = (primitiveTree kind props).asRead := by
  cases props with
  | nil => rw [membersAsRead]
  | cons =>
    have isFixed : Fixed reservedKeys (Members.one "type" (.str kind.name)) :=
      fixed_one (by decide) (by decide)
    have tree (some : Members) (nonempty : some ≠ []) : primitiveTree kind some =
        objectTree (.one "type" (.str kind.name)) some none :=
      if_neg (by rwa [List.isEmpty_iff])
    rw [tree _ (cons_ne_nil _ _), tree _ (by rw [membersAsRead]; exact cons_ne_nil _ _),
      asRead_objectTree isFixed custom (by decide) cleanTexts_none,
      asRead_objectTree isFixed (custom_again custom) (by decide) cleanTexts_none,
      membersAsRead_again custom]

private theorem asRead_container_again (kind : Container) {tree other : Json}
    (custom : props.Custom ints reservedKeys) (same : other.asRead = tree.asRead) :
    (containerTree kind other (membersAsRead props)).asRead =
      (containerTree kind tree props).asRead := by
  rw [containerTree, containerTree,
    asRead_objectTree (fixed_container kind _) custom (by decide) cleanTexts_none,
    asRead_objectTree (fixed_container kind _) (custom_again custom) (by decide) cleanTexts_none,
    membersAsRead_again custom, membersAsRead_container, membersAsRead_container, same]

theorem asRead_fieldTree_again {field : Field} (regular : field.Regular ints) {tree other : Json}
    (same : other.asRead = tree.asRead) (type : Schema) :
    (fieldTree (field.asReadWith type) other).asRead = (fieldTree field tree).asRead := by
  -- the type of a field has no part in the tree around it
  have readAgain : (field.asReadWith (.plain .null)).Regular False :=
    { legal := regular.legal
      type := .primitive .null (custom_nil _)
      doc := regular.doc
      default := by
        intro value found
        obtain ⟨written, chosen, rfl⟩ := Option.map_eq_some_iff.mp found
        exact (regular.default written chosen).plain_asRead
      aliases := cleanTexts_keptAliases regular.aliases
      custom := custom_again regular.custom }
  have default : (field.default.map Json.asRead).map Json.asRead = field.default.map Json.asRead := by
    cases chosen : field.default with
    | none => rfl
    | some value =>
      exact congrArg some (regular.default value chosen).plain_asRead.asRead_eq
  have untyped : fieldTree (field.asReadWith type) other =
      fieldTree (field.asReadWith (.plain .null)) other := rfl
  rw [untyped, asRead_fieldTree other readAgain, asRead_fieldTree tree regular, fieldMembersAsRead,
    same, laidOut]
  simp only [Field.asReadWith, membersAsRead_again regular.custom, aliasMembers_keptAliases,
    fieldMembers, default]
  rfl

private theorem regularHead_asReadWith (regular : definition.RegularHead ints) (body : Body) :
    (definition.asReadWith body).RegularHead False where
  legal := regular.legal
  doc := regular.doc
  aliases := cleanTexts_keptAliases regular.aliases
  custom := custom_again regular.custom

theorem asRead_definitionTree_again (space : Text) (regular : definition.RegularHead ints)
    {body : Body} (kind : body.kindName = definition.body.kindName) {trees others : List Json}
    (same : membersAsRead (bodyMembers others body) =
      membersAsRead (bodyMembers trees definition.body)) :
    (definitionTree space (definition.asReadWith body) others).asRead =
      (definitionTree space definition trees).asRead := by
  have head : headMembers space (definition.asReadWith body) = headMembers space definition := by
    simp only [headMembers, Definition.asReadWith, kind]
    rfl
  have bodied : (definition.asReadWith body).body = body := rfl
  rw [asRead_definitionTree space others (regularHead_asReadWith regular body),
    asRead_definitionTree space trees regular, definitionMembers, definitionMembers, head, bodied,
    same, laidOut, laidOut]
  simp only [Definition.asReadWith, membersAsRead_again regular.custom, aliasMembers_keptAliases]

end Again

/-- However a definition is written, it is read with a body of its kind, and fields, if it has any,
are read in a scope in which it has been begun. -/
private theorem read_definitionTree_ok {trees : List Json} (regular : definition.Regular ints)
    (new : definition.name.text ∉ scope.names) (bare : definition.body.fields = [] → trees = [])
    (reading : read scope space (definitionTree space definition trees).asRead =
      .ok (schema, scope.extend definitions)) :
    schema = .named ⟨scope.catalog.length, definition.name⟩ ∧
    ∃ begun body back, definitions = definition.asReadWith body :: back ∧
      readFields (scope.extend [definition.asReadWith begun]) definition.name []
        (itemsAsRead trees) =
          .ok (body.fields, (scope.extend [definition.asReadWith begun]).extend back) ∧
      ∀ others : List Json, itemsAsRead others = itemsAsRead trees →
        (definitionTree space (definition.asReadWith body) others).asRead =
          (definitionTree space definition trees).asRead := by
  cases body : definition.body with
  | record isError =>
    rw [read_recordTree regular body new] at reading
    obtain ⟨⟨fieldsAgain, middle⟩, inside, same⟩ := map_ok.mp reading
    obtain ⟨back, rfl⟩ := exists_extend (read_fields_iff.mpr inside)
    simp only [Scope.extend_append, singleton_append, Scope.install_extend, Prod.mk.injEq,
      Scope.extend_inj] at same
    obtain ⟨rfl, rfl⟩ := same
    refine ⟨rfl, .record isError [], .record isError fieldsAgain, back, rfl, inside, ?_⟩
    intro others same
    refine asRead_definitionTree_again space regular.toRegularHead ?_ ?_
    · rw [body]
      cases isError <;> rfl
    · rw [body, bodyMembers, bodyMembers, Json.membersAsRead_one, Json.membersAsRead_one,
        Json.asRead, Json.asRead, same]
  | enum | fixed =>
    have noFields : definition.body.fields = [] := by
      rw [body]
      rfl
    cases bare noFields
    rw [read_leafTree regular (by simp [body]) new] at reading
    obtain ⟨rfl, same⟩ := Prod.mk.inj (Except.ok.inj reading)
    cases Scope.extend_inj.mp same
    refine ⟨rfl, definition.body, definition.body, [], rfl, ?_, ?_⟩
    · rw [noFields, Scope.extend_nil, Json.itemsAsRead, readFields]
    · intro others same
      refine asRead_definitionTree_again space regular.toRegularHead rfl ?_
      rw [body, bodyMembers, bodyMembers]

/-! ## Documents -/

def Trees.asRead : Trees → Trees
  | .one tree => .one tree.asRead
  | .many trees => .many (itemsAsRead trees)

theorem Trees.asRead_cons {first other rest others}
    (same : (Trees.one other).asRead = (Trees.one first).asRead)
    (also : (Trees.many others).asRead = (Trees.many rest).asRead) :
    (Trees.many (other :: others)).asRead = (Trees.many (first :: rest)).asRead := by
  simp only [Trees.asRead, Json.itemsAsRead, Trees.one.inj same, Trees.many.inj also]

theorem Seen.add_congr {seen : Seen} {first second : List Reference}
    (same : first.map (·.name.text) = second.map (·.name.text)) : seen.add first = seen.add second := by
  rw [Seen.add, Seen.add, same]

section Places

variable {before front back behind : List Definition}

theorem append_front : before ++ (front ++ back) ++ behind = before ++ front ++ (back ++ behind) := by
  simp

theorem append_back : before ++ (front ++ back) ++ behind = before ++ front ++ back ++ behind := by
  simp

private theorem append_begun :
    before ++ (definition :: back) ++ behind = before ++ [definition] ++ back ++ behind := by
  simp

theorem length_both (length : before.length = scope.catalog.length) :
    (before ++ front).length = (scope.extend front).catalog.length := by
  rw [length_append, Scope.length_extend, length]

private theorem length_begun {other : Definition} (length : before.length = scope.catalog.length) :
    (before ++ [definition]).length = (scope.extend [other]).catalog.length := by
  rw [length_append, Scope.length_extend, length]
  rfl

end Places

theorem map_append_congr {news more others rest : List Reference}
    (same : others.map (·.name.text) = news.map (·.name.text))
    (also : rest.map (·.name.text) = more.map (·.name.text)) :
    (others ++ rest).map (·.name.text) = (news ++ more).map (·.name.text) := by
  rw [map_append, map_append, same, also]

section Restated

variable {catalog whole : Catalog} {space : Text} {piece : Piece} {seen : Seen}
  {trees others : Trees} {news more types : List Reference} {mentions later : List Mention}
  {part : Part} {meaning : Meaning}

/-- The names of a document are those that have been written, and all of them are legal. -/
structure Recalls (scope : Scope) (seen : Seen) (types : List Reference) : Prop
    extends scope.Tells types where
  seen : seen = Seen.add [] types
  legal : ∀ type ∈ types, type.name.Legal

/-- A mention is read as a type that is written by the same name, or as a primitive type of that
name. -/
theorem Recalls.mention (recalls : Recalls scope seen types) (legal : name.Legal)
    (read : readName scope space (writtenName space name) = .ok schema)
    (again : Writes whole space (.schema schema) seen others more later) :
    others = .one (.str (writtenName space name)) ∧ more = [] := by
  rcases readName_ok_iff.mp read with ⟨kind, found, rfl⟩ | ⟨_, resolved⟩
  · have named : kind.name = writtenName space name := by simpa using find?_some found
    cases again
    rw [← named]
    exact ⟨rfl, rfl⟩
  · obtain ⟨full, candidate, listed⟩ := Scope.mem_of_resolve? resolved
    rw [recalls.known, recalls.own] at listed
    obtain ⟨reference, known, same⟩ := mem_map.mp listed
    cases same
    have written := Seen.mem_add_nil known
    rw [← recalls.seen] at written
    cases again with
    | mention =>
      rw [writtenName_of_mem_candidates legal (recalls.legal reference known) candidate]
      exact ⟨rfl, rfl⟩
    | definition fresh => exact absurd written fresh

theorem Recalls.names (recalls : Recalls scope seen types) : scope.names = seen.reverse := by
  rw [recalls.toTells.names, recalls.seen, Seen.add, append_nil, reverse_reverse]

theorem Recalls.regular (recalls : Recalls scope seen types) : scope.Regular False := by
  intro entry member
  rw [recalls.known, recalls.own] at member
  obtain ⟨reference, known, rfl⟩ := mem_map.mp member
  exact .named (recalls.legal reference known)

theorem Recalls.extend (recalls : Recalls scope seen types)
    (legal : ∀ definition ∈ definitions, definition.name.Legal)
    (same : definitions.map (·.name.text) = news.map (·.name.text)) :
    Recalls (scope.extend definitions) (seen.add news)
      (types ++ Scope.references scope.catalog.length definitions) where
  toTells := recalls.toTells.extends_ (Scope.extends_extend scope definitions)
  seen := by
    rw [Seen.add_append, ← recalls.seen, Seen.add, Seen.add, Scope.map_text_references, same]
  legal := by
    refine forall_mem_append.mpr ⟨recalls.legal, fun reference member => ?_⟩
    obtain ⟨definition, listed, named⟩ := Scope.name_of_mem_references member
    exact named ▸ legal definition listed

theorem Recalls.begin (recalls : Recalls scope seen types) {reference : Reference}
    (legal : definition.name.Legal) (named : definition.name = reference.name) (body : Body) :
    Recalls (scope.extend [definition.asReadWith body]) (reference.name.text :: seen)
      (types ++ [⟨scope.catalog.length, definition.name⟩]) :=
  @Recalls.extend scope [definition.asReadWith body] seen [reference] types recalls
    (forall_mem_singleton.mpr legal) (congrArg (fun name : FullName => [name.text]) named)

theorem Rereads.plain (rereads : Rereads space piece trees part) (tidy : trees.Tidy) :
    part.Tidy False := by
  cases rereads with
  | schema => exact tidy.plain_asRead
  | schemas | fields =>
    intro value member
    rw [Json.itemsAsRead_eq] at member
    obtain ⟨tree, among, rfl⟩ := mem_map.mp member
    exact (tidy tree among).plain_asRead

theorem Writes.recalls (writes : Writes catalog space piece seen trees news mentions)
    (regular : piece.Regular ints) (each : ∀ definition ∈ catalog, definition.Regular ints)
    (rereads : Rereads space piece trees part) (recalls : Recalls scope seen types)
    (done : part.read scope = .ok (meaning, scope.extend definitions)) :
    Recalls (scope.extend definitions) (seen.add news)
      (types ++ Scope.references scope.catalog.length definitions) := by
  have reads := Part.read_ok_iff.mp done
  obtain ⟨_, gained, extended, sound⟩ :=
    reads.regular (rereads.plain (writes.tidy regular each)) recalls.regular
  cases Scope.extend_inj.mp extended.eq_extend
  refine recalls.extend (fun definition member => (sound definition member).legal) ?_
  have names := writes.names_after regular each rereads recalls.names done
  rw [names_extend, recalls.names, Seen.add, reverse_append, reverse_reverse] at names
  exact append_cancel_left names

theorem exists_extend_both {middle} {next : Part} {rest}
    (begun : part.read scope = .ok (meaning, middle))
    (ended : next.read middle = .ok (rest, scope.extend definitions)) :
    ∃ front back, definitions = front ++ back ∧ middle = scope.extend front := by
  obtain ⟨front, rfl⟩ := exists_extend begun
  obtain ⟨back, same⟩ := exists_extend ended
  rw [Scope.extend_append, Scope.extend_inj] at same
  exact ⟨front, back, same, rfl⟩

/-- What has been read from a written form is written in that form again. -/
theorem Writes.restated (writes : Writes catalog space piece seen trees news mentions)
    (regular : piece.Regular ints) (each : ∀ definition ∈ catalog, definition.Regular ints)
    (rereads : Rereads space piece trees part) (recalls : Recalls scope seen types)
    {before behind : List Definition}
    (done : part.read scope = .ok (meaning, scope.extend definitions))
    (length : before.length = scope.catalog.length)
    (again : Writes (before ++ definitions ++ behind) space meaning.piece seen others more later) :
    others.asRead = trees.asRead ∧ more.map (·.name.text) = news.map (·.name.text) := by
  induction writes generalizing part scope types meaning before definitions behind others more later with
  | primitive kind =>
    cases rereads
    obtain ⟨regular⟩ := regular
    obtain ⟨_, custom⟩ := regular
    obtain ⟨schema, rfl, reading⟩ := read_schema_ok.mp done
    rw [read_primitiveTree kind custom] at reading
    cases (Prod.mk.inj (Except.ok.inj reading)).1
    cases again
    exact ⟨congrArg Trees.one (asRead_primitiveTree_again kind custom), rfl⟩
  | container kind _ _ ih =>
    cases rereads
    obtain ⟨regular⟩ := regular
    cases regular with
    | container inner custom =>
      obtain ⟨schema, rfl, reading⟩ := read_schema_ok.mp done
      rw [read_containerTree custom] at reading
      obtain ⟨⟨schema, _⟩, read, same⟩ := map_ok.mp reading
      cases same
      cases again with
      | container _ _ again =>
        obtain ⟨same, names⟩ := ih (.schema inner) .schema recalls
          (read_schema_ok.mpr ⟨schema, rfl, read⟩) length again
        exact ⟨congrArg Trees.one (asRead_container_again kind custom (Trees.one.inj same)), names⟩
  | union _ _ ih =>
    cases rereads
    obtain ⟨regular⟩ := regular
    cases regular with
    | union branches =>
      obtain ⟨schema, rfl, reading⟩ := read_schema_ok.mp done
      obtain ⟨read, listed, made⟩ := read_arr_ok.mp reading
      cases makeUnion_eq made
      cases again with
      | union _ again =>
        obtain ⟨same, names⟩ := ih (.schemas branches) .schemas recalls
          (read_branches_ok.mpr ⟨read, rfl, listed⟩) length again
        exact ⟨congrArg Trees.one (congrArg Json.arr (Trees.many.inj same)), names⟩
  | mention =>
    cases rereads
    obtain ⟨regular⟩ := regular
    cases regular with
    | named legal =>
      obtain ⟨schema, rfl, reading⟩ := read_schema_ok.mp done
      rw [Json.asRead, (clean_writtenName _ legal).sanitize_eq] at reading
      obtain ⟨rfl, none⟩ := recalls.mention legal (read_str_ok.mp reading).2 again
      exact ⟨rfl, congrArg _ none⟩
  | @definition _ _ definition _ trees _ _ fresh found named inner ih =>
    cases rereads
    have complete := each _ (mem_of_getElem? found)
    obtain ⟨schema, rfl, reading⟩ := read_schema_ok.mp done
    have new : definition.name.text ∉ scope.names := by
      rwa [recalls.names, mem_reverse, named]
    have bare (none : definition.body.fields = []) : trees = [] := by
      rw [none] at inner
      cases inner
      rfl
    obtain ⟨rfl, begun, body, back, rfl, inside, rewritten⟩ :=
      read_definitionTree_ok complete new bare reading
    cases again with
    | mention _ written => exact absurd (named ▸ written) fresh
    | definition _ foundAgain _ innerAgain =>
      rw [← length, append_assoc] at foundAgain
      cases (Catalog.find?_middle before (back ++ behind) _ _).symm.trans foundAgain
      rw [append_begun, named] at innerAgain
      obtain ⟨same, names⟩ := ih (Piece.regular_fields complete.body)
        (.fields fun _ _ => not_mem_nil) (recalls.begin complete.legal named begun)
        (read_fields_iff.mpr inside) (length_begun length) innerAgain
      refine ⟨congrArg Trees.one (rewritten _ (Trees.many.inj same)), ?_⟩
      rw [map_cons, map_cons, names, named]
  | noSchemas | noFields =>
    cases rereads
    first
      | obtain ⟨_, rfl, reading⟩ := read_branches_ok.mp done
      | obtain ⟨_, rfl, reading⟩ := read_fields_ok.mp done
    simp only [Json.itemsAsRead, readBranches, readFields] at reading
    cases (Prod.mk.inj (Except.ok.inj reading)).1
    cases again
    exact ⟨rfl, rfl⟩
  | moreSchemas first _ firstIH othersIH =>
    cases rereads
    cases regular with
    | schemas branches =>
      obtain ⟨regularFirst, regularOthers⟩ := forall_mem_cons.mp branches
      obtain ⟨_, rfl, reading⟩ := read_branches_ok.mp done
      obtain ⟨branch, rest, middle, rfl, readFirst, readOthers⟩ := readBranches_cons_ok.mp reading
      replace readFirst := read_schema_iff.mpr readFirst
      replace readOthers := read_branches_iff.mpr readOthers
      obtain ⟨front, back, rfl, rfl⟩ := exists_extend_both readFirst readOthers
      have between := first.recalls (.schema regularFirst) each .schema recalls readFirst
      rw [← Scope.extend_append] at readOthers
      cases again with
      | moreSchemas firstAgain othersAgain =>
        rw [append_front] at firstAgain
        rw [append_back] at othersAgain
        obtain ⟨sameFirst, namesFirst⟩ :=
          firstIH (.schema regularFirst) .schema recalls readFirst length firstAgain
        rw [Seen.add_congr namesFirst] at othersAgain
        obtain ⟨sameOthers, namesOthers⟩ := othersIH (.schemas regularOthers) .schemas between
          readOthers (length_both length) othersAgain
        exact ⟨Trees.asRead_cons sameFirst sameOthers, map_append_congr namesFirst namesOthers⟩
  | moreFields first _ firstIH othersIH =>
    cases rereads with
    | fields fresh =>
      cases regular with
      | fields fields distinct =>
        obtain ⟨regularFirst, regularOthers⟩ := forall_mem_cons.mp fields
        obtain ⟨apart, distinct⟩ := nodup_cons.mp distinct
        obtain ⟨freshFirst, freshOthers⟩ := forall_mem_cons.mp fresh
        obtain ⟨_, rfl, reading⟩ := read_fields_ok.mp done
        obtain ⟨type, rest, middle, rfl, readFirst, readOthers⟩ :=
          (readFields_fieldTree_ok regularFirst freshFirst).mp reading
        replace readFirst := read_schema_iff.mpr readFirst
        replace readOthers := read_fields_iff.mpr readOthers
        obtain ⟨front, back, rfl, rfl⟩ := exists_extend_both readFirst readOthers
        have between := first.recalls (.schema regularFirst.type) each .schema recalls readFirst
        rw [← Scope.extend_append] at readOthers
        cases again with
        | moreFields firstAgain othersAgain =>
          rw [append_front] at firstAgain
          rw [append_back] at othersAgain
          obtain ⟨sameFirst, namesFirst⟩ :=
            firstIH (.schema regularFirst.type) .schema recalls readFirst length firstAgain
          rw [Seen.add_congr namesFirst] at othersAgain
          obtain ⟨sameOthers, namesOthers⟩ := othersIH (.fields regularOthers distinct)
            (.fields (fresh_rest apart freshOthers)) between readOthers (length_both length)
            othersAgain
          have sameField := asRead_fieldTree_again regularFirst (Trees.one.inj sameFirst) type
          exact ⟨Trees.asRead_cons (congrArg Trees.one sameField) sameOthers,
            map_append_congr namesFirst namesOthers⟩

end Restated

theorem recalls_empty : Recalls .empty [] [] where
  toTells := Scope.tells_empty
  seen := rfl
  legal := forall_mem_nil _

theorem legible_of_readDocument {text : Text}
    (accepted : readDocument .empty text = .ok (schema, scope)) :
    Json.Legible (schema.tree scope.catalog) := by
  obtain ⟨tree, mentions, writes⟩ := writes_of_readDocument accepted
  obtain ⟨regular, each⟩ := regular_of_readDocument accepted
  rw [Schema.tree, writes.treeAfter_eq]
  exact (writes.tidy (.schema regular) each).legible

theorem render_restated {text again after}
    (accepted : readDocument .empty text = .ok (schema, scope)) {layout}
    (reread : readDocument .empty (schema.render scope.catalog layout) = .ok (again, after)) :
    again.render after.catalog layout = schema.render scope.catalog layout := by
  obtain ⟨tree, mentions, writes⟩ := writes_of_readDocument accepted
  obtain ⟨regular, each⟩ := regular_of_readDocument accepted
  obtain ⟨treeAgain, mentionsAgain, writesAgain⟩ := writes_of_readDocument reread
  obtain ⟨regularAgain, eachAgain⟩ := regular_of_readDocument reread
  have tidy : Json.Tidy True tree := writes.tidy (.schema regular) each
  have tidyAgain : Json.Tidy True treeAgain := writesAgain.tidy (.schema regularAgain) eachAgain
  have first : schema.render scope.catalog layout = tree.render layout := by
    rw [render, Schema.tree, writes.treeAfter_eq]
  have second : again.render after.catalog layout = treeAgain.render layout := by
    rw [render, Schema.tree, writesAgain.treeAfter_eq]
  have done : Part.read .empty (.schema [] tree.asRead) =
      .ok (.schema again, Scope.empty.extend after.catalog) := by
    rw [← eq_extend_empty reread, read_schema_iff]
    rwa [first, readDocument, tidy.legible.decode_render] at reread
  rw [← append_nil after.catalog] at writesAgain
  have same := (writes.restated (.schema regular) each .schema recalls_empty done rfl writesAgain).1
  rw [first, second]
  exact Json.render_eq_of_asRead tidyAgain tidy (Trees.one.inj same) layout

end Schema

end Avro
