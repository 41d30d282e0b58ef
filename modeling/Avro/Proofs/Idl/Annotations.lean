import Avro.Proofs.Idl.Insertion
import Avro.Proofs.Idl.Order

/-!
# Annotations of fields

Annotations before the name of a field are properties of the field. Those before its type are
properties of the type, or of the field if the type is a named one. Those of a union are lost.
-/

set_option autoImplicit false

open List

namespace Avro

open Members Scope

/-! ## Where a field is written -/

namespace Schema

variable {catalog : Catalog} {space : Text} {seen : Seen}

theorem Writes.holds {piece trees news mentions}
    (writes : Writes catalog space piece seen trees news mentions) :
    ∀ type ∈ news, catalog.Holds type := by
  induction writes with
  | primitive | mention | noSchemas | noFields => exact forall_mem_nil _
  | container _ _ _ ih | union _ _ ih => exact ih
  | definition _ found named _ ih => exact forall_mem_cons.mpr ⟨⟨_, found, named⟩, ih⟩
  | moreSchemas _ _ first rest | moreFields _ _ first rest =>
    exact forall_mem_append.mpr ⟨first, rest⟩

private theorem mem_fieldsWith {writeNamed field fields} (member : field ∈ fields) :
    ∃ before, fieldTree field (treeWith writeNamed space field.type before).1 ∈
      (fieldsWith writeNamed space fields seen).1 := by
  induction fields generalizing seen with
  | nil => cases member
  | cons _ _ ih =>
    rcases mem_cons.mp member with rfl | later
    · exact ⟨seen, mem_cons_self⟩
    · obtain ⟨before, among⟩ := ih later
      exact ⟨before, mem_cons_of_mem _ among⟩

/-- The properties of a type that is neither a union nor a named one are in its object. -/
private theorem treeWith_props {writeNamed} {schema : Schema} (other : schema.isUnion = false)
    (bare : schema.isNamed = false) (distinct : (schema.props.map Prod.fst).Nodup) {entry}
    (member : entry ∈ schema.props) :
    ∃ object : Members, (treeWith writeNamed space schema seen).1 = .obj object ∧
      object.get? entry.1 = some entry.2 := by
  cases schema with
  | primitive _ props =>
    have some_ : ¬props.isEmpty = true := by
      intro none
      rw [List.isEmpty_iff.mp none] at member
      cases member
    exact ⟨_, if_neg some_, get?_setAll_of_mem distinct member _⟩
  | container => exact ⟨_, rfl, get?_setAll_of_mem distinct member _⟩
  | union => cases other
  | named => cases bare

/-- What is written of the properties that a field and its type have from annotations. -/
private theorem fieldTree_props {writeNamed : WriteNamed} {field : Field} {type : Schema}
    {front back : Members} (typed : field.type = type.withProps front)
    (aliases : field.aliases = none)
    (props : field.props = (if type.isNamed then front else []).setAll back)
    (own : (type.props.map Prod.fst).Nodup) (distinct : ((front ++ back).map Prod.fst).Nodup)
    (custom : ∀ entry ∈ front ++ back, entry.1 ∉ fieldReservedKeys) :
    ∃ object : Members, fieldTree field (treeWith writeNamed space field.type seen).1 = .obj object ∧
      object.get? "name" = some (.str field.name) ∧
      object.get? "type" = some (treeWith writeNamed space field.type seen).1 ∧
      (∀ entry ∈ back, object.get? entry.1 = some entry.2) ∧
      ∀ entry ∈ front, ((object.get? entry.1 = some entry.2 ∨
        ∃ inner : Members, (treeWith writeNamed space field.type seen).1 = .obj inner ∧
          inner.get? entry.1 = some entry.2) ↔ type.isUnion = false) := by
  rw [map_append] at distinct
  obtain ⟨distinctFront, distinctBack, disjoint⟩ := nodup_append.mp distinct
  have fresh : ∀ entry ∈ back, entry.1 ∉ (if type.isNamed then front else []).map Prod.fst := by
    intro entry member listed
    split at listed
    · exact disjoint _ listed _ (mem_map_of_mem member) rfl
    · cases listed
  rw [setAll_of_fresh distinctBack fresh] at props
  have within : field.props.Sublist (front ++ back) := by
    rw [props]
    refine List.Sublist.append ?_ (List.Sublist.refl back)
    split
    · exact List.Sublist.refl front
    · exact nil_sublist front
  have distinctProps : (field.props.map Prod.fst).Nodup := by
    rw [← map_append] at distinct
    exact distinct.sublist (within.map Prod.fst)
  have fixed (key : Text) (reserved : key ∈ fieldReservedKeys) :
      key ∉ field.props.map Prod.fst := by
    intro listed
    obtain ⟨entry, among, rfl⟩ := mem_map.mp listed
    exact custom entry (within.subset among) reserved
  generalize written : (treeWith writeNamed space field.type seen).1 = tree
  have there {entry : Text × Json} (member : entry ∈ field.props) :
      ((fieldMembers field tree).setAll field.props).get? entry.1 = some entry.2 :=
    get?_setAll_of_mem distinctProps member _
  refine ⟨(fieldMembers field tree).setAll field.props, ?_, ?_, ?_, fun entry member => ?_,
    fun entry member => ⟨fun found => ?_, fun other => ?_⟩⟩
  · rw [fieldTree, aliases]
    rfl
  · rw [get?_setAll_of_absent (fixed _ (by decide))]
    rfl
  · rw [get?_setAll_of_absent (fixed _ (by decide))]
    rfl
  · exact there (by rw [props]; exact mem_append_right _ member)
  · cases type with
    | union =>
      have absent : entry.1 ∉ field.props.map Prod.fst := by
        rw [props]
        exact fun listed => disjoint _ (mem_map_of_mem member) _ listed rfl
      have none : (fieldMembers field tree).get? entry.1 = none := by
        refine get?_eq_none_iff.mpr fun listed => ?_
        obtain ⟨other, among, same⟩ := mem_map.mp listed
        exact custom entry (mem_append_left _ member)
          (same ▸ (fixed_fieldMembers tree field other among).1)
      rw [get?_setAll_of_absent absent, none] at found
      rcases found with wrong | ⟨_, isObject, _⟩
      · cases wrong
      · rw [typed] at written
        cases written.trans isObject
    | _ => rfl
  · cases named : type.isNamed with
    | true => exact .inl (there (by rw [props, named]; exact mem_append_left _ member))
    | false =>
      right
      have all : (type.withProps front).props = type.props.setAll front ∧
          (type.withProps front).isUnion = false ∧ (type.withProps front).isNamed = false := by
        cases type with
        | named => cases named
        | union => cases other
        | _ => exact ⟨rfl, rfl, rfl⟩
      rw [← written, typed]
      refine treeWith_props all.2.1 all.2.2 ?_ ?_
      · rw [all.1]
        exact nodup_setAll own front
      · rw [all.1]
        exact mem_of_get? (get?_setAll_of_mem distinctFront member _)

private theorem get?_fields_definitionTree {definition : Definition} {isError fields}
    (isRecord : definition.body = .record isError fields)
    (apart : Text.ofString "fields" ∉ definition.props.map Prod.fst) (trees : List Json) :
    ∃ object : Members, definitionTree space definition trees = .obj object ∧
      object.get? "fields" = some (.arr trees) := by
  refine ⟨_, rfl, ?_⟩
  rw [get?_object apart (by decide), get?_append, get?_headMembers space (by decide), isRecord]
  rfl

end Schema

namespace Protocol

variable {catalog : Catalog} {space : Text}

private theorem typeTrees_split (first second : List Reference) (seen : Schema.Seen) :
    (typeTrees catalog space (first ++ second) seen).1 =
      (typeTrees catalog space first seen).1 ++
        (typeTrees catalog space second (typeTrees catalog space first seen).2).1 := by
  induction first generalizing seen with
  | nil => rfl
  | cons _ _ ih =>
    rw [cons_append, typeTrees, typeTrees]
    split
    · exact ih _
    · exact congrArg (_ :: ·) (ih _)

/-- A definition behind definitions that do not refer to it is written among the types. -/
private theorem mem_typeTrees {before after definition} (closed : Catalog.Closed before)
    (distinct : Catalog.Distinct (before ++ definition :: after)) :
    ∃ depth seen, Schema.definitionTree space definition
      (Schema.fieldsWith (Schema.namedTree (before ++ definition :: after) depth)
        definition.name.space definition.body.fields seen).1 ∈
      (typeTrees (before ++ definition :: after) space
        (references 0 (before ++ definition :: after)) []).1 := by
  obtain ⟨_, _, news, _, writes, written, _⟩ := @exists_writes_types before space closed
    (references 0 before) (fun _ => holds_of_mem_references) (definition :: after) []
  have fresh : definition.name.text ∉ Schema.Seen.add [] news := by
    rw [Catalog.Distinct, map_append] at distinct
    intro seen
    obtain ⟨type, among, same⟩ : ∃ type ∈ news, type.name.text = definition.name.text := by
      simpa [Schema.Seen.add] using seen
    obtain ⟨earlier, found, named⟩ := writes.holds type among
    refine (nodup_append.mp distinct).2.2 _ (mem_map_of_mem (mem_of_getElem? found)) _
      mem_cons_self ?_
    rw [named, same]
  obtain ⟨depth, length⟩ : ∃ depth, (before ++ definition :: after).length = depth + 1 :=
    ⟨before.length + after.length, by rw [length_append]; rfl⟩
  have here := @Schema.namedTree_fresh _ _ space ⟨before.length, definition.name⟩ _ fresh
    (Catalog.find?_middle before after definition definition.name) depth
  refine ⟨depth, definition.name.text :: Schema.Seen.add [] news, ?_⟩
  rw [references_append, typeTrees_split, written, Nat.zero_add]
  refine mem_append_right _ ?_
  rw [references, typeTrees, if_neg fresh, Schema.treeAfter, Schema.treeWith, length, here]
  exact mem_cons_self

end Protocol

/-! ## Where a field is declared -/

namespace Idl

/-- The head of a record: its definition without fields, and the lines of its fields. -/
def openRecord (front : Front) (isError : Bool) (last : Token) (tokens : List Token) :
    Except Fault (Definition × List Token) := do
  let name ← acceptIdentifier last tokens
  let definition ←
    definitionOf front.protocolSpace front.doc front.annotations name.value (.record isError [])
  let opening ← acceptMark '\x7b' last name.rest
  return (definition, opening.rest)

def Front.inside (front : Front) (definition : Definition) : Site :=
  front.site (front.scope.extend [definition]) definition.name.space

/-- The reader comes from one line of a record to another, past those between. -/
inductive ReachesLine (site : Site) (last : Token) : List Token → List Token → Prop
  | here {tokens} (opens : nextIsMark '\x7d' tokens = false) : ReachesLine site last tokens tokens
  | line {tokens rest line} (opens : nextIsMark '\x7d' tokens = false)
      (read : readFieldLine site last tokens = .ok line)
      (reaches : ReachesLine site last line.rest rest) : ReachesLine site last tokens rest

/-- A line of a record declares one field, with annotations before its type and before its name. -/
inductive LineOf (site : Site) (last : Token) (tokens : List Token) :
    Members → Members → Schema → Field → Prop
  | mk {front type back line field} (noted : readAnnotations last tokens = .ok front)
      (typed : readType site last front.rest = .ok type)
      (also : readAnnotations last type.rest = .ok back)
      (read : readFieldLine site last tokens = .ok line) (single : line.value = [field]) :
      LineOf site last tokens front.value back.value type.value field

section Reading

variable {site : Site} {last : Token} {tokens line : List Token}

private theorem readRecord_opens {front isError result}
    (read : readRecord front isError last tokens = .ok result) :
    ∃ (definition : Definition) (lines : List Token) (name : Token)
      (fields : Consumed lines (List Field)),
      openRecord front isError last tokens = .ok (definition, lines) ∧
      readRecordFields (front.inside definition) name definition.name.text last [] lines =
        .ok fields ∧
      result.value =
        front.scope.extend [{ definition with body := .record isError fields.value }] := by
  obtain ⟨name, named, read⟩ := bind_ok.mp read
  obtain ⟨definition, made, read⟩ := bind_ok.mp read
  obtain ⟨⟨reference, scope⟩, defined, read⟩ := bind_ok.mp read
  obtain ⟨opening, opened, read⟩ := bind_ok.mp read
  obtain ⟨fields, listed, read⟩ := bind_ok.mp read
  cases read
  obtain ⟨_, _, rfl, rfl⟩ := defineAt_ok defined
  refine ⟨definition, opening.rest, name.value, fields, ?_, listed, install_extend ..⟩
  exact bind_ok.mpr ⟨name, named, bind_ok.mpr ⟨definition, made, bind_ok.mpr ⟨opening, opened, rfl⟩⟩⟩

theorem readRecordFields_line {name owner before result} (opens : nextIsMark '\x7d' tokens = false)
    (read : readRecordFields site name owner last before tokens = .ok result) :
    ∃ (line : Consumed tokens (List Field)) (fields : Consumed line.rest (List Field)),
      readFieldLine site last tokens = .ok line ∧
      readRecordFields site name owner last (before ++ line.value) line.rest = .ok fields ∧
      result.value = fields.value := by
  cases tokens with
  | nil =>
    rw [readRecordFields] at read
    cases read
  | cons token =>
    have other : ¬token.isMark '\x7d' = true := Bool.eq_false_iff.mp opens
    rw [readRecordFields, if_neg other] at read
    obtain ⟨line, listed, read⟩ := bind_ok.mp read
    split at read
    · cases read
    · obtain ⟨fields, others, read⟩ := bind_ok.mp read
      cases read
      exact ⟨line, fields, listed, others, rfl⟩

theorem subset_readRecordFields {name owner before tokens result}
    (read : readRecordFields site name owner last before tokens = .ok result) :
    before ⊆ result.value := by
  cases closes : nextIsMark '\x7d' tokens with
  | true =>
    cases tokens with
    | nil => cases closes
    | cons token =>
      have isMark : token.isMark '\x7d' = true := closes
      rw [readRecordFields, if_pos isMark] at read
      cases read
      exact fun _ => id
  | false =>
    obtain ⟨line, fields, _, others, same⟩ := readRecordFields_line closes read
    have shorter := line.shorter
    rw [same]
    exact fun field member => subset_readRecordFields others (mem_append_left _ member)
termination_by tokens.length

private theorem ReachesLine.mem {name owner before result found}
    (reaches : ReachesLine site last tokens line) (there : readFieldLine site last line = .ok found)
    (read : readRecordFields site name owner last before tokens = .ok result) :
    found.value ⊆ result.value := by
  induction reaches generalizing before with
  | here opens =>
    obtain ⟨line, fields, listed, others, same⟩ := readRecordFields_line opens read
    cases there.symm.trans listed
    rw [same]
    exact fun field member => subset_readRecordFields others (mem_append_right _ member)
  | line opens listed _ ih =>
    obtain ⟨line, fields, again, others, same⟩ := readRecordFields_line opens read
    cases listed.symm.trans again
    rw [same]
    exact ih there others

theorem foldlM_annotateField {position : Position} {annotations : Members} {plain drawn : Field}
    (custom : ∀ entry ∈ annotations, entry.1 ∉ Schema.fieldReservedKeys)
    (done : annotations.foldlM (annotateField position) plain = .ok drawn) :
    drawn = { plain with props := plain.props.setAll annotations } := by
  induction annotations generalizing plain with
  | nil =>
    cases done
    rfl
  | cons entry _ ih =>
    obtain ⟨here, later⟩ := forall_mem_cons.mp custom
    have noted : annotateField position plain entry =
        .ok { plain with props := plain.props.set entry.1 entry.2 } := by
      unfold annotateField
      dsimp only
      rw [if_neg fun same => here (by rw [same]; decide),
        if_neg fun same => here (by rw [same]; decide)]
    rw [foldlM_cons, noted] at done
    exact ih later done

theorem LineOf.field {front back : Members} {type : Schema} {field : Field}
    (declares : LineOf site last tokens front back type field)
    (custom : ∀ entry ∈ back, entry.1 ∉ Schema.fieldReservedKeys) :
    field.type = type.withProps front ∧ field.aliases = none ∧
      field.props = (if type.isNamed then front else []).setAll back := by
  obtain ⟨noted, typed, also, read, single⟩ := declares
  obtain ⟨annotations, notedToo, read⟩ := bind_ok.mp read
  cases noted.symm.trans notedToo
  obtain ⟨found, typedToo, read⟩ := bind_ok.mp read
  cases typed.symm.trans typedToo
  obtain ⟨fields, listed, read⟩ := bind_ok.mp read
  obtain ⟨closing, _, read⟩ := bind_ok.mp read
  cases read
  obtain ⟨first, read, same⟩ : ∃ first : Consumed _ Field, readVariable _ _ _ last _ = .ok first ∧
      first.value = field := by
    rw [readVariables] at listed
    obtain ⟨first, read, listed⟩ := bind_ok.mp listed
    refine ⟨first, read, ?_⟩
    split at listed
    · obtain ⟨others, _, listed⟩ := bind_ok.mp listed
      cases listed
      exact (List.cons.inj single).1
    · cases listed
      exact (List.cons.inj single).1
  obtain ⟨again, _, drawn, default, alsoToo, _, annotated, _, whole⟩ := readVariable_ok read
  cases also.symm.trans alsoToo
  rw [← same, whole, foldlM_annotateField custom annotated]
  exact ⟨rfl, rfl, rfl⟩

private theorem keeps_distinct {types : List Reference} (tells : site.scope.Tells types) :
    site.Keeps fun schema => (schema.props.map Prod.fst).Nodup where
  plain _ := nodup_nil
  logical := by
    simp only [logicalTypes, forall_mem_cons]
    exact ⟨by decide, by decide, by decide, by decide, forall_mem_nil _⟩
  decimal _ _ := by
    change List.Nodup [Text.ofString "logicalType", "precision", "scale"]
    decide
  resolved found := by
    obtain ⟨_, within⟩ := Site.resolve?_within found
    obtain ⟨_, _, rfl⟩ := tells.resolve? within
    exact nodup_nil
  container _ := nodup_nil
  union _ made := by
    cases Schema.makeUnion_eq made
    exact nodup_nil

end Reading

section Declaring

variable {Failure : Type} {importer : Option (Importer Failure)} {path source : Text}

/-- The documentation of a declaration stands before its annotations or behind them. -/
def docBefore (last : Token) (tokens rest : List Token) : Text :=
  if (peek last tokens).doc.isEmpty then (peek last rest).doc else (peek last tokens).doc

/-- A source declares a record with some annotations, and in it a line with one field. -/
inductive DeclaresField (importer : Option (Importer Failure)) (path source : Text) :
    Members → Definition → Members → Members → Schema → Field → Prop
  | mk {tokens rest lines line : List Token} {token keyword last : Token}
      {head : Consumed tokens ProtocolHead} {draft : Draft} {passed : List (ImportKind × Text)}
      {notes : Passed (token :: rest) Members} {front : Front} {record : Definition}
      {before back : Members} {type : Schema} {field : Field}
      (lexed : lex source = .ok (tokens, last)) (headed : readHead last tokens = .ok head)
      (reaches : Reaches (follow importer (readSource importer (importer.elim 0 (·.limit))) path)
        head.value.name.space last ⟨⟨.empty, [Path.clean path]⟩, []⟩ head.rest passed draft
        (token :: rest))
      (opens : ¬token.isMark '\x7d' = true) (other : ¬token.isKeyword "import" = true)
      (noted : readAnnotations last (token :: rest) = .ok notes)
      (first : notes.rest.head? = some keyword)
      (isRecord : (keyword.isKeyword "record" || keyword.isKeyword "error") = true)
      (told : front = ⟨draft.session.scope, head.value.name.space,
        docBefore last (token :: rest) notes.rest, notes.value⟩)
      (opened : openRecord front (keyword.text = "error") last notes.skip.rest =
        .ok (record, lines))
      (reachesLine : ReachesLine (front.inside record) last lines line)
      (declares : LineOf (front.inside record) last line before back type field) :
      DeclaresField importer path source notes.value record before back type field

theorem Reaches.builds {depth space last start draft after all tokens rest passed}
    (reaches : Reaches (follow importer (readSource importer depth) path) space last draft tokens
      passed after rest) (lexed : lex source = .ok (all, last)) (within : tokens <:+ all)
    (before : Builds (fun _ => True) (fun _ => True) start draft) :
    Builds (fun _ => True) (fun _ => True) start after := by
  induction reaches with
  | here => exact before
  | @import_ _ _ _ _ _ _ _ statement _ _ followed _ ih =>
    refine ih ((statement.suffix.trans (suffix_cons _ _)).trans within) ?_
    exact before.follow builds_readSource (fun event _ => event.permitted_always) followed
  | @declaration _ _ _ _ _ _ declared _ _ read _ ih =>
    refine ih (declared.suffix.trans within) ?_
    exact before.declaration trivial lexed within (declarationRead_readDeclaration read)

private theorem closed_of_grows {scope definitions} (grows : empty.Grows scope definitions) :
    Catalog.Closed definitions := by
  intro definition member reference mentioned
  obtain ⟨field, isField, inField⟩ := mem_flatMap.mp mentioned
  have offered := ((grows.proper definition member).fields field isField).allows _ inField
  rw [grows.extends_.eq_extend] at offered
  exact holds_of_offers offered

private theorem apart_definitionOf {space doc} {annotations : Members} {name body definition key}
    (apart : key ∉ annotations.map Prod.fst)
    (made : definitionOf space doc annotations name body = .ok definition) :
    key ∉ definition.props.map Prod.fst := by
  obtain ⟨heading, annotated, made⟩ := bind_ok.mp made
  cases made
  refine @foldlM_keeps _ _ _ _ _ _ _ (fun heading : Heading => key ∉ heading.props.map Prod.fst)
    not_mem_nil annotated fun entry among before after kept done => ?_
  have other : entry.1 ≠ key := fun same => apart (same ▸ mem_map_of_mem among)
  unfold annotateNamed at done
  dsimp only at done
  split at done
  · split at done
    · cases done
      exact kept
    · cases done
  · split at done
    · split at done
      · cases done
        exact kept
      · cases done
    · cases done
      rw [← has_eq_false_iff] at kept ⊢
      rw [has_set, kept, decide_eq_false other, Bool.or_false]

/-- A declared field is a field of its record, which stands behind definitions that do not refer
to it. -/
theorem DeclaresField.among {notes before back record type field}
    (declares : DeclaresField importer path source notes record before back type field)
    {protocol catalog} (compiled : compile importer path source = .ok (protocol, catalog)) :
    ∃ (earlier later : List Definition) (isError : Bool) (fields : List Field),
      catalog = earlier ++ { record with body := .record isError fields } :: later ∧
      protocol.types = references 0 catalog ∧ Catalog.Distinct catalog ∧
      Catalog.Closed earlier ∧ field ∈ fields := by
  obtain @⟨tokens, rest, lines, line, token, keyword, last, head, draft, passed, notes, front,
    record, _, _, _, field, lexed, headed, reaches, opens, other, noted, first, isRecord, rfl, opened,
    reachesLine, declares⟩ := declares
  obtain ⟨⟨read, session⟩, done, same⟩ := bind_ok.mp compiled
  cases same
  rw [Nat.add_comm] at done
  obtain ⟨_, _, _, final, lexedToo, headedToo, rest, rfl, rfl⟩ := readSource_ok done
  cases lexed.symm.trans lexedToo
  cases headed.symm.trans headedToo
  have rest := (reaches.readDeclarations_eq path _).symm.trans rest
  rw [readDeclarations, if_neg opens, if_neg other] at rest
  split at rest
  · cases rest
  · rename_i declared found
    -- the source up to the record, with the record, and to its end
    have within := reaches.suffix.trans head.suffix
    have builds := reaches.builds lexed head.suffix .here
    have there := builds.declaration trivial lexed within (declarationRead_readDeclaration found)
    have behind := Builds.here.declarations builds_readSource
      (fun event _ => event.permitted_always) trivial lexed (declared.suffix.trans within) rest
    have start : empty.Proper := proper_start (forall_mem_nil _)
    obtain ⟨earlier, grows⟩ := (builds.continues start (forall_mem_nil _)).grows
    have continues := there.continues start (forall_mem_nil _)
    obtain ⟨_, begun⟩ := continues.grows
    obtain ⟨later, after⟩ := (behind.continues (continues.proper start) continues.messages).grows
    obtain ⟨_, notedToo, found⟩ := bind_ok.mp found
    cases noted.symm.trans notedToo
    rw [first] at found
    dsimp only at found
    rw [if_pos isRecord] at found
    obtain ⟨scope, recordRead, rfl⟩ := map_ok.mp found
    obtain ⟨_, _, _, fields, openedToo, listed, value⟩ := readRecord_opens recordRead
    cases opened.symm.trans openedToo
    have among : field ∈ fields.value := by
      obtain ⟨_, _, _, there, single⟩ := declares
      exact reachesLine.mem there listed (single ▸ mem_cons_self)
    have whole : final.session.scope = empty.extend
        (earlier ++ { record with body := .record (keyword.text = "error") fields.value } ::
          later) := by
      rw [after.extends_.eq_extend]
      change scope.value.extend later = _
      rw [value, grows.extends_.eq_extend, extend_append, extend_append]
      rfl
    have names := after.distinct (begun.distinct nodup_nil)
    rw [whole, Schema.names_extend] at names
    refine ⟨earlier, later, keyword.text = "error", fields.value, ?_, ?_, ?_,
      closed_of_grows grows, among⟩
    · rw [whole]
      rfl
    · rw [whole]
      exact (extends_extend .empty _).defined
    · rw [whole]
      exact names

theorem DeclaresField.props {notes before back record type field}
    (declares : DeclaresField importer path source notes record before back type field)
    (custom : ∀ entry ∈ back, entry.1 ∉ Schema.fieldReservedKeys) :
    (field.type = type.withProps before ∧ field.aliases = none ∧
      field.props = (if type.isNamed then before else []).setAll back) ∧
      (type.props.map Prod.fst).Nodup ∧
      ∀ key, key ∉ notes.map Prod.fst → key ∉ record.props.map Prod.fst := by
  obtain ⟨lexed, headed, reaches, _, _, _, _, _, rfl, opened, _, declares⟩ := declares
  refine ⟨declares.field custom, ?_, fun key apart => ?_⟩
  · have builds := reaches.builds lexed (Consumed.suffix _) .here
    obtain ⟨_, grows⟩ := (builds.continues (proper_start (forall_mem_nil _))
      (forall_mem_nil _)).grows
    have tells := (tells_empty.extends_ grows.extends_).extends_
      (extends_extend _ [record])
    obtain ⟨_, typed⟩ := declares
    exact (keeps_distinct tells).readType typed
  · obtain ⟨_, _, opened⟩ := bind_ok.mp opened
    obtain ⟨_, made, opened⟩ := bind_ok.mp opened
    obtain ⟨_, _, opened⟩ := bind_ok.mp opened
    cases opened
    exact apart_definitionOf apart made

/-- Of a declared field, the annotations before its name are in its object. Those before its type
are there or in the object of its type, unless the type is a union: then they are lost. -/
theorem compile_annotations {protocol : Protocol} {catalog : Catalog}
    (compiled : compile importer path source = .ok (protocol, catalog))
    {notes front back : Members} {record : Definition} {type : Schema} {field : Field}
    (declares : DeclaresField importer path source notes record front back type field)
    (distinct : ((front ++ back).map Prod.fst).Nodup)
    (custom : ∀ entry ∈ front ++ back, entry.1 ∉ Schema.fieldReservedKeys)
    (apart : Text.ofString "fields" ∉ notes.map Prod.fst) :
    ∃ (members recordObject object : Members) (types fields : List Json) (tree : Json)
      (body : Body), protocol.tree catalog = .obj members ∧
      members.get? "types" = some (.arr types) ∧ .obj recordObject ∈ types ∧
      Schema.definitionTree protocol.name.space { record with body := body } fields =
        .obj recordObject ∧
      recordObject.get? "fields" = some (.arr fields) ∧ .obj object ∈ fields ∧
      object.get? "name" = some (.str field.name) ∧ object.get? "type" = some tree ∧
      (∀ entry ∈ back, object.get? entry.1 = some entry.2) ∧
      ∀ entry ∈ front, ((object.get? entry.1 = some entry.2 ∨
        ∃ inner : Members, tree = .obj inner ∧ inner.get? entry.1 = some entry.2) ↔
          type.isUnion = false) := by
  obtain ⟨earlier, later, isError, fields, rfl, types, names, closed, among⟩ :=
    declares.among compiled
  obtain ⟨⟨typed, aliases, props⟩, own, keys⟩ :=
    declares.props fun entry member => custom entry (mem_append_right _ member)
  obtain ⟨depth, seen, written⟩ := @Protocol.mem_typeTrees protocol.name.space _ _ _ closed names
  obtain ⟨before, inside⟩ := @Schema.mem_fieldsWith record.name.space seen
    (Schema.namedTree _ depth) field fields among
  obtain ⟨object, isObject, name, type, kept⟩ := @Schema.fieldTree_props record.name.space before
    (Schema.namedTree _ depth) field _ _ _ typed aliases props own distinct custom
  obtain ⟨recordObject, isRecord, listed⟩ := @Schema.get?_fields_definitionTree protocol.name.space
    { record with body := .record isError fields } _ _ rfl (keys _ apart) _
  refine ⟨_, recordObject, object, _, _, _, .record isError fields, rfl,
    ((get?_set ..).trans (if_neg (by decide))).trans
      ((get?_set ..).trans (if_pos rfl)), ?_, isRecord, listed, ?_, name, type, kept⟩
  · rw [← isRecord, types]
    exact written
  · rw [← isObject]
    exact inside

end Declaring

/-! A field that may be null, with an annotation before its type. -/

section Optional

def wordAt (text : Text) (column : Nat) : Token := ⟨.identifier, text, text, [], false, ⟨1, column⟩⟩

def markAt (text : Text) (column : Nat) : Token := ⟨.punctuation, text, text, [], false, ⟨1, column⟩⟩

def optionalSource : Text := "protocol P\x7brecord R\x7b@k(\"v\")int?f;\x7d\x7d"

def optionalEnd : Token := ⟨.endOfFile, [], [], [], false, ⟨1, 36⟩⟩

def behindOptional : List Token :=
  [wordAt "f" 32, markAt ";" 33, markAt "\x7d" 34, markAt "\x7d" 35]

def optionalType : List Token := wordAt "int" 28 :: markAt "?" 31 :: behindOptional

def optionalLine : List Token :=
  markAt "@" 21 :: wordAt "k" 22 :: markAt "(" 23 ::
    ⟨.string, "v", "\"v\"", [], false, ⟨1, 24⟩⟩ :: markAt ")" 27 :: optionalType

def optionalRecord : List Token := wordAt "R" 19 :: markAt "\x7b" 20 :: optionalLine

def optionalSchema : Schema := .union [.plain .null, .plain .int] []

def optionalField : Field :=
  ⟨"f", optionalSchema.withProps [("k", .str "v")], [], none, .ascending, none, []⟩

def optionalFront : Front := ⟨.empty, [], [], []⟩

def optionalHead : Definition := ⟨⟨[], "R"⟩, [], none, [], .record false []⟩

theorem lex_optional : lex optionalSource = .ok (wordAt "protocol" 1 :: wordAt "P" 10 ::
    markAt "\x7b" 11 :: wordAt "record" 12 :: optionalRecord, optionalEnd) := by
  with_unfolding_all rfl

theorem readAnnotations_optional : readAnnotations optionalEnd optionalLine =
    .ok ⟨[("k", .str "v")], optionalType, ⟨[_, _, _, _, _], rfl⟩⟩ := by
  unfold readAnnotations
  rw [readAnnotationsAfter.eq_def]
  refine (if_pos (by decide)).trans ?_
  refine bind_ok.mpr ⟨.next (wordAt "k" 22), rfl, bind_ok.mpr ⟨.next (markAt "(" 23), rfl, ?_⟩⟩
  refine bind_ok.mpr ⟨.next (.str "v"), by rw [readJson.eq_def]; rfl, ?_⟩
  refine bind_ok.mpr ⟨.next (markAt ")" 27), rfl, bind_ok.mpr ⟨(), rfl, ?_⟩⟩
  exact bind_ok.mpr ⟨.stay _, by with_unfolding_all rfl, rfl⟩

theorem readType_optional (site : Site) : readType site optionalEnd optionalType =
    .ok ⟨optionalSchema, behindOptional, ⟨[_, _], rfl⟩, by decide⟩ := by
  have denotes : Denotes site (.whole optionalSchema) optionalType behindOptional :=
    .optional (@Denotes.builtIn _ _ _ "int" _ (.mk (by decide)) rfl) (.mk (by decide)) (by decide)
      ⟨by decide, by decide⟩
  obtain ⟨⟨_, _, _, _⟩, read, rfl, rfl⟩ := denotes.read
  exact read

theorem readFieldLine_optional (site : Site) : readFieldLine site optionalEnd optionalLine = .ok
    ⟨[optionalField], [markAt "\x7d" 34, markAt "\x7d" 35], ⟨[_, _, _, _, _, _, _, _, _], rfl⟩,
      by decide⟩ := by
  refine bind_ok.mpr ⟨_, readAnnotations_optional, bind_ok.mpr ⟨_, readType_optional site, ?_⟩⟩
  refine bind_ok.mpr ⟨.next [optionalField], by with_unfolding_all rfl, ?_⟩
  exact bind_ok.mpr ⟨.next (markAt ";" 33), rfl, rfl⟩

def withOptional : Scope :=
  empty.extend [{ optionalHead with body := .record false [optionalField] }]

private theorem readRecord_optional : readRecord optionalFront false optionalEnd optionalRecord =
    .ok ⟨withOptional, [markAt "\x7d" 35], ⟨optionalRecord.take 12, by decide⟩, by decide⟩ := by
  refine bind_ok.mpr ⟨.next (wordAt "R" 19), rfl, bind_ok.mpr ⟨optionalHead, rfl, ?_⟩⟩
  refine bind_ok.mpr ⟨_, rfl, bind_ok.mpr ⟨.next (markAt "\x7b" 20), rfl, ?_⟩⟩
  refine bind_ok.mpr ⟨⟨[optionalField], [markAt "\x7d" 35], ⟨optionalLine.take 10, by decide⟩,
    by decide⟩, ?_, rfl⟩
  rw [readRecordFields.eq_def]
  refine (if_neg (by decide)).trans (bind_ok.mpr ⟨_, readFieldLine_optional _, ?_⟩)
  exact bind_ok.mpr ⟨.next [optionalField], by rw [readRecordFields]; rfl, rfl⟩

theorem readAnnotations_record :
    readAnnotations optionalEnd (wordAt "record" 12 :: optionalRecord) = .ok (.stay []) := by
  with_unfolding_all rfl

theorem readHead_optional : readHead optionalEnd (wordAt "protocol" 1 :: wordAt "P" 10 ::
    markAt "\x7b" 11 :: wordAt "record" 12 :: optionalRecord) = .ok ⟨⟨⟨[], "P"⟩, [], []⟩,
      wordAt "record" 12 :: optionalRecord, ⟨[_, _, _], rfl⟩, by decide⟩ := by
  with_unfolding_all rfl

theorem compile_optional : compile (none : Option (Importer Unit)) [] optionalSource =
    .ok (⟨⟨[], "P"⟩, [], [], withOptional.defined, []⟩, withOptional.catalog) := by
  have declared : readDeclaration [] ⟨⟨.empty, ["."]⟩, []⟩ optionalEnd
      (wordAt "record" 12 :: optionalRecord) = .ok ⟨⟨⟨withOptional, ["."]⟩, []⟩,
        [markAt "\x7d" 35], ⟨wordAt "record" 12 :: optionalRecord.take 12, by decide⟩,
        by decide⟩ :=
    bind_ok.mpr ⟨_, readAnnotations_record, map_ok.mpr ⟨_, readRecord_optional, rfl⟩⟩
  refine bind_ok.mpr ⟨(⟨⟨[], "P"⟩, [], [], [], []⟩, ⟨withOptional, ["."]⟩), ?_, rfl⟩
  rw [Option.elim_none, readSource, lex_optional]
  dsimp only
  rw [readProtocol, readHead_optional]
  dsimp only
  have start : (⟨.start [] [], [Path.clean []]⟩ : Session) = ⟨.empty, ["."]⟩ := rfl
  rw [start, readDeclarations, if_neg (by decide), if_neg (by decide), declared]
  dsimp only
  rw [readDeclarations, if_pos (by decide)]

/-- The annotation is neither in the object of the field nor in its type. -/
theorem compile_annotations_optional : ∃ protocol catalog,
    compile (none : Option (Importer Unit)) [] optionalSource = .ok (protocol, catalog) ∧
      ∃ (members recordObject object : Members) (types fields : List Json) (tree : Json),
        protocol.tree catalog = .obj members ∧ members.get? "types" = some (.arr types) ∧
        .obj recordObject ∈ types ∧ recordObject.get? "fields" = some (.arr fields) ∧
        .obj object ∈ fields ∧ object.get? "name" = some (.str "f") ∧
        object.get? "type" = some tree ∧ ¬(object.get? "k" = some (.str "v") ∨
        ∃ inner : Members, tree = .obj inner ∧ inner.get? "k" = some (.str "v")) := by
  have declares : DeclaresField (none : Option (Importer Unit)) [] optionalSource [] optionalHead
      [("k", .str "v")] [] optionalSchema optionalField :=
    .mk lex_optional readHead_optional .here (by decide) (by decide) readAnnotations_record rfl
      (by decide) rfl (by with_unfolding_all rfl) (.here rfl)
      (.mk readAnnotations_optional (readType_optional _) (by with_unfolding_all rfl)
        (readFieldLine_optional _) rfl)
  obtain ⟨members, recordObject, object, types, fields, tree, _, isTree, listed, among, _, inside,
    there, name, type, _, front⟩ :=
    compile_annotations compile_optional declares (by decide) (by decide) not_mem_nil
  exact ⟨_, _, compile_optional, members, recordObject, object, types, fields, tree, isTree, listed,
    among, inside, there, name, type, fun kept => nomatch (front _ mem_cons_self).mp kept⟩

end Optional

end Idl

end Avro
