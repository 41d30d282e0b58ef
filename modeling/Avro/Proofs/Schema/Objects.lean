import Avro.Proofs.Schema.Regular
import Avro.Schema.Tree

/-!
# Reading written objects

The objects of the written form have their fixed members first, then the custom properties, then the
aliases. Each part is read from them as it was written.
-/

set_option autoImplicit false

open List

namespace Avro

open Members Json Text

variable {ints : Prop} {reserved : List Text}

/-! ## Members as they are read -/

theorem Json.membersAsRead_append (first second : Members) :
    membersAsRead (first ++ second) = membersAsRead first ++ membersAsRead second := by
  rw [membersAsRead_eq, membersAsRead_eq, membersAsRead_eq, map_append]

theorem Json.membersAsRead_one (key : String) (value : Json) :
    membersAsRead (one key value) = one key value.asRead := by
  rw [one, membersAsRead, membersAsRead, (clean_ofString key).sanitize_eq, one]

theorem Json.Tidy.map_fst_membersAsRead {members : Members} (tidy : Tidy ints (.obj members)) :
    (membersAsRead members).map Prod.fst = members.map Prod.fst := by
  cases tidy with
  | obj clean =>
    rw [membersAsRead_eq, map_map]
    exact map_sanitize_keys clean

theorem Members.Custom.asRead {props : Members} (custom : props.Custom ints reserved) :
    (membersAsRead props).Free reserved := by
  intro member among present
  have keys := custom.tidy.map_fst_membersAsRead
  have listed : member.1 ∈ (membersAsRead props).map Prod.fst := mem_map_of_mem among
  rw [keys] at listed
  obtain ⟨written, inside, same⟩ := mem_map.mp listed
  exact custom.free written inside (same ▸ present)

/-- The aliases that are read back: an empty list is not written. -/
def Schema.keptAliases : Option (List Text) → Option (List Text)
  | some (first :: rest) => some (first :: rest)
  | _ => none

def Field.asReadWith (field : Field) (type : Schema) : Field :=
  { field with
    type := type
    default := field.default.map asRead
    aliases := Schema.keptAliases field.aliases
    props := membersAsRead field.props }

def Definition.asReadWith (definition : Definition) (body : Body) : Definition :=
  { definition with
    aliases := Schema.keptAliases definition.aliases
    props := membersAsRead definition.props
    body := body }

@[simp] theorem Definition.name_asReadWith (definition : Definition) (body : Body) :
    (definition.asReadWith body).name = definition.name := rfl

namespace Schema

variable {key : Text}

theorem sanitize_textMember (key : String) {text : Text} (clean : text.Clean) :
    membersAsRead (textMember key text) = textMember key text := by
  rw [textMember]
  split
  · rw [membersAsRead]
  · rw [membersAsRead_one, asRead, clean.sanitize_eq]

theorem asRead_textArray {texts : List Text} (clean : ∀ text ∈ texts, text.Clean) :
    (textArray texts).asRead = textArray texts := by
  rw [textArray, asRead, itemsAsRead_eq, map_map]
  congr 1
  refine map_congr_left fun text member => ?_
  rw [Function.comp, asRead, (clean text member).sanitize_eq]

private theorem asRead_aliasMembers {aliases} (clean : CleanTexts aliases) :
    membersAsRead (aliasMembers aliases) = aliasMembers aliases := by
  rcases aliases with _ | _ | ⟨first, rest⟩
  · rfl
  · rfl
  · rw [aliasMembers, membersAsRead_one, asRead_textArray (clean _ rfl)]

theorem texts?_map_str (texts : List Text) : texts? (texts.map .str) = some texts := by
  induction texts with
  | nil => rfl
  | cons _ _ ih => rw [map_cons, texts?, ih, Option.map_some]

private theorem textList?_aliasMembers (aliases : Option (List Text)) :
    textList? (aliasMembers aliases) "aliases" = .ok (keptAliases aliases) := by
  rcases aliases with _ | _ | ⟨first, rest⟩
  · rfl
  · rfl
  · have listed : get? (aliasMembers (some (first :: rest))) "aliases" =
        some (textArray (first :: rest)) := rfl
    rw [textList?, listed, textArray]
    simp only [texts?_map_str]
    rfl

/-! ## The layout of objects -/

/-- Members as they are laid out: fixed ones, custom ones, and aliases. -/
def laidOut (fixed props : Members) (aliases : Option (List Text)) : Members :=
  fixed ++ props ++ aliasMembers aliases

/-- The keys of fixed members are reserved, and the aliases come later. -/
def Fixed (reserved : List Text) (fixed : Members) : Prop :=
  ∀ member ∈ fixed, member.1 ∈ reserved ∧ member.1 ≠ "aliases"

theorem mem_aliasMembers {aliases member} (among : member ∈ aliasMembers aliases) :
    member.1 = "aliases" := by
  rcases aliases with _ | _ | ⟨first, rest⟩
  · cases among
  · cases among
  · exact congrArg Prod.fst (mem_singleton.mp among)

section Layout

variable {fixed props front back : Members} {aliases : Option (List Text)}

theorem aliases_absent (other : key ≠ "aliases") : key ∉ (aliasMembers aliases).map Prod.fst := by
  intro listed
  obtain ⟨member, among, rfl⟩ := mem_map.mp listed
  exact other (mem_aliasMembers among)

theorem get?_around (free : props.Free reserved) (isReserved : key ∈ reserved) :
    get? (front ++ props ++ back) key = get? (front ++ back) key := by
  rw [get?_append, get?_append, get?_append, get?_eq_none_iff.mpr (free.absent isReserved),
    Option.or_none]

theorem customProps_around (free : props.Free reserved)
    (isFixed : ∀ member ∈ front ++ back, member.1 ∈ reserved) :
    customProps reserved (front ++ props ++ back) = props := by
  obtain ⟨inFront, inBack⟩ := forall_mem_append.mp isFixed
  have none (fixed : Members) (isFixed : ∀ member ∈ fixed, member.1 ∈ reserved) :
      fixed.filter (fun member => !reserved.contains member.1) = [] := by
    rw [filter_eq_nil_iff]
    intro member among
    simp [isFixed member among]
  have all : props.filter (fun member => !reserved.contains member.1) = props := by
    rw [filter_eq_self]
    intro member among
    simp [free member among]
  simp only [customProps, filter_append, none front inFront, none back inBack, all,
    nil_append, append_nil]

theorem objectTree_eq (isFixed : Fixed reserved fixed) (custom : props.Custom ints reserved)
    (known : ofString "aliases" ∈ reserved) :
    objectTree fixed props aliases = .obj (laidOut fixed props aliases) := by
  cases custom.tidy with
  | obj _ distinct =>
    have fresh : ∀ member ∈ props, member.1 ∉ fixed.map Prod.fst := by
      intro member among present
      obtain ⟨other, inside, same⟩ := mem_map.mp present
      exact custom.free member among (same ▸ (isFixed other inside).1)
    have last : ∀ member ∈ aliasMembers aliases, member.1 ∉ (fixed ++ props).map Prod.fst := by
      intro member among present
      rw [mem_aliasMembers among] at present
      obtain ⟨other, inside, same⟩ := mem_map.mp present
      rcases mem_append.mp inside with early | late
      · exact (isFixed other early).2 same
      · exact custom.free other late (same ▸ known)
    have single : ((aliasMembers aliases).map Prod.fst).Nodup := by
      rcases aliases with _ | _ | ⟨first, rest⟩
      · exact nodup_nil
      · exact nodup_nil
      · exact nodup_cons.mpr ⟨not_mem_nil, nodup_nil⟩
    rw [objectTree, setAll_of_fresh distinct fresh, setAll_of_fresh single last,
      laidOut]

theorem asRead_objectTree (isFixed : Fixed reserved fixed) (custom : props.Custom ints reserved)
    (known : ofString "aliases" ∈ reserved) (clean : CleanTexts aliases) :
    (objectTree fixed props aliases).asRead =
      .obj (laidOut (membersAsRead fixed) (membersAsRead props) aliases) := by
  rw [objectTree_eq isFixed custom known, asRead, laidOut, membersAsRead_append,
    membersAsRead_append, asRead_aliasMembers clean, laidOut]

theorem get?_laidOut (free : props.Free reserved) (isReserved : key ∈ reserved)
    (other : key ≠ "aliases") : (laidOut fixed props aliases).get? key = fixed.get? key := by
  rw [laidOut, get?_around free isReserved, get?_append,
    get?_eq_none_iff.mpr (aliases_absent other), Option.or_none]

theorem textList?_laidOut (isFixed : Fixed reserved fixed) (free : props.Free reserved)
    (known : ofString "aliases" ∈ reserved) :
    textList? (laidOut fixed props aliases) "aliases" = .ok (keptAliases aliases) := by
  have inFront : get? (fixed ++ props) "aliases" = none := by
    rw [get?_eq_none_iff]
    intro present
    obtain ⟨member, among, same⟩ := mem_map.mp present
    rcases mem_append.mp among with early | late
    · exact (isFixed member early).2 same
    · exact free member late (same ▸ known)
  have found : (laidOut fixed props aliases).get? "aliases" =
      (aliasMembers aliases).get? "aliases" := by
    rw [laidOut, get?_append, inFront, Option.none_or]
  rw [← textList?_aliasMembers, textList?, textList?, found]

theorem customProps_laidOut (isFixed : Fixed reserved fixed) (free : props.Free reserved)
    (known : ofString "aliases" ∈ reserved) :
    customProps reserved (laidOut fixed props aliases) = props := by
  refine customProps_around free (forall_mem_append.mpr ⟨fun member among => ?_, ?_⟩)
  · exact (isFixed member among).1
  · exact fun member among => mem_aliasMembers among ▸ known

end Layout

/-! ## Definitions -/

theorem get?_textMember (key other text : Text) :
    (textMember key text).get? other =
      if key = other ∧ text ≠ [] then some (.str text) else none := by
  rw [textMember]
  cases text with
  | nil => simp [get?]
  | cons => simp [get?_one]

theorem docOf_textMember {members : Members} {doc : Text}
    (found : members.get? "doc" = (textMember "doc" doc).get? "doc") : docOf members = doc := by
  rw [docOf, text?, found, get?_textMember]
  cases doc with
  | nil | cons => simp

theorem fixed_append {first second : Members} (isFixed : Fixed reserved first)
    (also : Fixed reserved second) : Fixed reserved (first ++ second) :=
  forall_mem_append.mpr ⟨isFixed, also⟩

theorem fixed_nil (reserved : List Text) : Fixed reserved [] :=
  forall_mem_nil _

theorem fixed_one {value : Json} (isReserved : key ∈ reserved) (other : key ≠ "aliases") :
    Fixed reserved (.one key value) :=
  forall_mem_singleton.mpr ⟨isReserved, other⟩

theorem fixed_textMember {text : Text} (isReserved : key ∈ reserved) (other : key ≠ "aliases") :
    Fixed reserved (textMember key text) := by
  rw [textMember]
  split
  · exact fixed_nil reserved
  · exact fixed_one isReserved other

theorem fixed_headMembers (space : Text) (definition : Definition) :
    Fixed reservedKeys (headMembers space definition) := by
  refine fixed_append (fixed_append (fixed_append ?_ ?_) ?_) ?_
  · exact fixed_one (by decide) (by decide)
  · exact fixed_one (by decide) (by decide)
  · split
    · exact fixed_nil _
    · exact fixed_one (by decide) (by decide)
  · exact fixed_textMember (by decide) (by decide)

private theorem fixed_bodyMembers (trees : List Json) (body : Body) :
    Fixed reservedKeys (bodyMembers trees body) := by
  cases body with
  | record | fixed => exact fixed_one (by decide) (by decide)
  | enum _ default =>
    refine fixed_append (fixed_one (by decide) (by decide)) ?_
    cases default with
    | none => exact fixed_nil _
    | some => exact fixed_one (by decide) (by decide)

section Definitions

variable {definition : Definition} (space : Text) (trees : List Json)

def definitionMembers (space : Text) (definition : Definition) (trees : List Json) : Members :=
  laidOut (headMembers space definition ++ membersAsRead (bodyMembers trees definition.body))
    (membersAsRead definition.props) definition.aliases

theorem clean_kindName (body : Body) : body.kindName.Clean := by
  cases body with
  | record isError => cases isError <;> exact clean_ofString _
  | enum | fixed => exact clean_ofString _

private theorem asRead_headMembers (regular : definition.RegularHead ints) :
    membersAsRead (headMembers space definition) = headMembers space definition := by
  have name := (Name.clean_of_isLegal regular.legal.simple).sanitize_eq
  have own := (Name.clean_of_isLegalSpace regular.legal.space).sanitize_eq
  have kind := (clean_kindName definition.body).sanitize_eq
  rw [headMembers, membersAsRead_append, membersAsRead_append,
    membersAsRead_append, membersAsRead_one, membersAsRead_one,
    sanitize_textMember _ regular.doc, asRead, asRead, kind, name]
  split
  · rw [membersAsRead]
  · rw [membersAsRead_one, asRead, own]

theorem asRead_definitionTree (regular : definition.RegularHead ints) :
    (definitionTree space definition trees).asRead =
      .obj (definitionMembers space definition trees) := by
  have isFixed := fixed_append (fixed_headMembers space definition)
    (fixed_bodyMembers trees definition.body)
  rw [definitionTree, asRead_objectTree isFixed regular.custom (by decide) regular.aliases,
    membersAsRead_append, asRead_headMembers space regular, definitionMembers]

def bodyMembersAsRead (trees : List Json) : Body → Members
  | .record _ _ => .one "fields" (.arr (itemsAsRead trees))
  | .enum symbols default =>
    one "symbols" (textArray symbols) ++
      default.elim [] (fun symbol => one "default" (.str symbol))
  | .fixed size => .one "size" (.num (ofNat size))

private theorem asRead_bodyMembers {body : Body} (regular : body.Regular ints) :
    membersAsRead (bodyMembers trees body) = bodyMembersAsRead trees body := by
  cases regular with
  | record | fixed => exact membersAsRead_one _ _
  | @enum symbols default legal _ among =>
    have clean : ∀ symbol ∈ symbols, symbol.Clean :=
      fun symbol member => Name.clean_of_isLegal (legal symbol member)
    rw [bodyMembers, membersAsRead_append, membersAsRead_one, asRead_textArray clean,
      bodyMembersAsRead]
    cases default with
    | none => rfl
    | some symbol =>
      rw [Option.elim_some, membersAsRead_one, asRead,
        (clean symbol (among symbol rfl)).sanitize_eq]

theorem get?_bodyMembersAsRead
    (other : key ∉ [ofString "fields", "symbols", "default", "size"]) (body : Body) :
    (bodyMembersAsRead trees body).get? key = none := by
  simp only [mem_cons, not_mem_nil, or_false, not_or] at other
  obtain ⟨noFields, noSymbols, noDefault, noSize⟩ := other
  cases body with
  | record => exact if_neg fun same => noFields same.symm
  | fixed => exact if_neg fun same => noSize same.symm
  | enum _ default =>
    rw [bodyMembersAsRead, get?_append, get?_one, if_neg fun same => noSymbols same.symm]
    cases default with
    | none => rfl
    | some => exact if_neg fun same => noDefault same.symm

theorem get?_headMembers (other : key ∉ [ofString "type", "name", "namespace", "doc"])
    (definition : Definition) : (headMembers space definition).get? key = none := by
  simp only [mem_cons, not_mem_nil, or_false, not_or] at other
  obtain ⟨noType, noName, noSpace, noDoc⟩ := other
  have doc : (textMember "doc" definition.doc).get? key = none := by
    rw [get?_textMember, if_neg fun same => noDoc same.1.symm]
  rw [headMembers, get?_append, get?_append, get?_append,
    get?_one, if_neg fun same => noType same.symm, get?_one,
    if_neg fun same => noName same.symm, doc]
  split
  · rfl
  · rw [get?_one, if_neg fun same => noSpace same.symm]
    rfl

variable (regular : definition.Regular ints)

include regular

theorem get?_definitionMembers (isReserved : key ∈ reservedKeys) (other : key ≠ "aliases") :
    (definitionMembers space definition trees).get? key =
      ((headMembers space definition).get? key).or
        ((bodyMembersAsRead trees definition.body).get? key) := by
  rw [definitionMembers, get?_laidOut regular.custom.asRead isReserved other,
    asRead_bodyMembers trees regular.body, get?_append]

theorem type_definitionMembers :
    (definitionMembers space definition trees).get? "type" =
      some (.str definition.body.kindName) := by
  rw [get?_definitionMembers space trees regular (by decide) (by decide)]
  simp [headMembers, get?_append, get?_one]

private theorem name_definitionMembers (kind : Kind) :
    readTypeName kind (definitionMembers space definition trees) = .ok definition.name.simple := by
  have found : (definitionMembers space definition trees).get? "name" =
      some (.str definition.name.simple) := by
    rw [get?_definitionMembers space trees regular (by decide) (by decide)]
    simp [headMembers, get?_append, get?_one]
  simp only [readTypeName, text?, found]

private theorem space_definitionMembers (name : Text) :
    readSpace (definitionMembers space definition trees) name space =
      .ok definition.name.space := by
  have lookup : (definitionMembers space definition trees).get? "namespace" =
      (headMembers space definition).get? "namespace" := by
    rw [get?_definitionMembers space trees regular (by decide) (by decide),
      get?_bodyMembersAsRead trees (by decide), Option.or_none]
  by_cases same : definition.name.space = space
  · have found : (definitionMembers space definition trees).get? "namespace" = none := by
      rw [lookup]
      simp [headMembers, get?_append, get?_one, get?_textMember, same]
    simp only [readSpace, found, same]
  · have found : (definitionMembers space definition trees).get? "namespace" =
        some (.str definition.name.space) := by
      rw [lookup]
      simp [headMembers, get?_append, get?_one, same]
    simp only [readSpace, found]

private theorem doc_definitionMembers :
    docOf (definitionMembers space definition trees) = definition.doc := by
  have found : (definitionMembers space definition trees).get? "doc" =
      (textMember "doc" definition.doc).get? "doc" := by
    rw [get?_definitionMembers space trees regular (by decide) (by decide),
      get?_bodyMembersAsRead trees (by decide)]
    by_cases same : definition.name.space = space
    · simp [headMembers, get?_append, get?_one, same]
    · simp [headMembers, get?_append, get?_one, same]
  exact docOf_textMember found

omit regular in
private theorem fixed_definitionMembers :
    Fixed reservedKeys
      (headMembers space definition ++ membersAsRead (bodyMembers trees definition.body)) := by
  refine fixed_append (fixed_headMembers space definition) ?_
  cases definition.body with
  | record | fixed => exact fixed_one (by decide) (by decide)
  | enum _ default =>
    refine fixed_append (fixed_one (by decide) (by decide)) ?_
    cases default with
    | none => exact fixed_nil _
    | some => exact fixed_one (by decide) (by decide)

theorem readHead_definitionMembers (kind : Kind) :
    readHead kind (definitionMembers space definition trees) space =
      .ok (definition.asReadWith kind.emptyBody) := by
  have isFixed := @fixed_definitionMembers definition space trees
  have legal : legalName definition.name.simple definition.name.space = .ok definition.name := by
    simp [legalName, Name.split_simple regular.legal.simple, regular.legal.simple,
      regular.legal.space]
  have aliases : textList? (definitionMembers space definition trees) "aliases" =
      .ok (keptAliases definition.aliases) :=
    textList?_laidOut isFixed regular.custom.asRead (by decide)
  have props : customProps reservedKeys (definitionMembers space definition trees) =
      membersAsRead definition.props :=
    customProps_laidOut isFixed regular.custom.asRead (by decide)
  simp [readHead, name_definitionMembers space trees regular,
    space_definitionMembers space trees regular, legal, aliases,
    doc_definitionMembers space trees regular, props, Definition.asReadWith]

theorem get?_body (isReserved : key ∈ reservedKeys) (noAlias : key ≠ "aliases")
    (other : key ∉ [ofString "type", "name", "namespace", "doc"]) :
    (definitionMembers space definition trees).get? key =
      (bodyMembersAsRead trees definition.body).get? key := by
  rw [get?_definitionMembers space trees regular isReserved noAlias,
    get?_headMembers space other, Option.none_or]

theorem readEnum_definitionMembers {symbols default} (owner : Text)
    (isEnum : definition.body = .enum symbols default) :
    readEnum owner (definitionMembers space definition trees) = .ok definition.body := by
  have listed : (definitionMembers space definition trees).get? "symbols" =
      some (textArray symbols) := by
    rw [get?_body space trees regular (by decide) (by decide) (by decide), isEnum]
    rfl
  have chosen : (definitionMembers space definition trees).get? "default" =
      default.map str := by
    rw [get?_body space trees regular (by decide) (by decide) (by decide), isEnum]
    cases default <;> rfl
  have body := regular.body
  rw [isEnum] at body ⊢
  cases body with
  | enum legal distinct among =>
    have faultless : symbolFault? owner [] symbols = none :=
      symbolFault?_eq_none_iff.mpr ⟨legal, distinct, fun _ _ => not_mem_nil⟩
    have texts : textList? (definitionMembers space definition trees) "symbols" =
        .ok (some symbols) := by
      simp only [textList?, listed, textArray, texts?_map_str]
    have read : readSymbols owner (definitionMembers space definition trees) = .ok symbols := by
      simp [readSymbols, texts, faultless]
    have picked : readEnumDefault owner symbols (definitionMembers space definition trees) =
        .ok default := by
      rw [readEnumDefault, chosen]
      cases default with
      | none => rfl
      | some symbol => exact if_pos (among symbol rfl)
    simp [readEnum, read, picked]

theorem readFixed_definitionMembers {size : Nat} (owner : Text)
    (isFixed : definition.body = .fixed size) :
    readFixed owner (definitionMembers space definition trees) = .ok definition.body := by
  have found : (definitionMembers space definition trees).get? "size" =
      some (.num (ofNat size)) := by
    rw [get?_body space trees regular (by decide) (by decide) (by decide), isFixed]
    rfl
  have body := regular.body
  rw [isFixed] at body ⊢
  cases body with
  | fixed small =>
    rw [readFixed, found]
    simp only [Number.readInt64_ofNat small]

theorem readFieldList_definitionMembers {isError fields} (owner : Text)
    (isRecord : definition.body = .record isError fields) :
    readFieldList owner (definitionMembers space definition trees) =
      .ok (itemsAsRead trees) := by
  have found : (definitionMembers space definition trees).get? "fields" =
      some (.arr (itemsAsRead trees)) := by
    rw [get?_body space trees regular (by decide) (by decide) (by decide), isRecord]
    rfl
  simp only [readFieldList, found]

end Definitions

/-! ## Fields -/

section Fields

variable {field : Field} (tree : Json) (type : Schema)

def fieldMembersAsRead (field : Field) (tree : Json) : Members :=
  laidOut (fieldMembers (field.asReadWith field.type) tree.asRead) (membersAsRead field.props)
    field.aliases

theorem fixed_fieldMembers (field : Field) :
    Fixed fieldReservedKeys (fieldMembers field tree) := by
  refine fixed_append (fixed_append (fixed_append (fixed_append ?_ ?_) ?_) ?_) ?_
  · exact fixed_one (by decide) (by decide)
  · exact fixed_one (by decide) (by decide)
  · exact fixed_textMember (by decide) (by decide)
  · cases field.default with
    | none => exact fixed_nil _
    | some => exact fixed_one (by decide) (by decide)
  · split
    · exact fixed_nil _
    · exact fixed_one (by decide) (by decide)

theorem clean_orderName (order : Order) : order.name.Clean := by
  cases order <;> exact clean_ofString _

theorem Order.ofName?_name (order : Order) : Order.ofName? order.name = some order := by
  cases order <;> decide

variable (regular : field.Regular ints)

include regular

private theorem asRead_fieldMembers :
    membersAsRead (fieldMembers field tree) =
      fieldMembers (field.asReadWith type) tree.asRead := by
  have name := (Name.clean_of_isLegal regular.legal).sanitize_eq
  have order := (clean_orderName field.order).sanitize_eq
  rw [fieldMembers, membersAsRead_append, membersAsRead_append, membersAsRead_append,
    membersAsRead_append, membersAsRead_one, sanitize_textMember _ regular.doc, asRead, name]
  congr 1
  · congr 1
    rw [Field.asReadWith]
    cases field.default with
    | none => rfl
    | some => exact membersAsRead_one _ _
  · rw [Field.asReadWith]
    split
    · rfl
    · rw [membersAsRead_one, asRead, order]

theorem asRead_fieldTree :
    (fieldTree field tree).asRead = .obj (fieldMembersAsRead field tree) := by
  rw [fieldTree, asRead_objectTree (fixed_fieldMembers tree field) regular.custom (by decide)
    regular.aliases, asRead_fieldMembers tree field.type regular, fieldMembersAsRead]

theorem get?_fieldMembersAsRead (isReserved : key ∈ fieldReservedKeys) (other : key ≠ "aliases") :
    (fieldMembersAsRead field tree).get? key =
      (fieldMembers (field.asReadWith field.type) tree.asRead).get? key := by
  rw [fieldMembersAsRead, get?_laidOut regular.custom.asRead isReserved other]

theorem type_fieldMembersAsRead :
    (fieldMembersAsRead field tree).get? "type" = some tree.asRead := by
  rw [get?_fieldMembersAsRead tree regular (by decide) (by decide)]
  simp [fieldMembers, get?_append, get?_one]

private theorem readFieldName_fieldMembersAsRead :
    readFieldName (fieldMembersAsRead field tree) = .ok field.name := by
  have found : (fieldMembersAsRead field tree).get? "name" = some (.str field.name) := by
    rw [get?_fieldMembersAsRead tree regular (by decide) (by decide)]
    simp [fieldMembers, get?_append, get?_one, Field.asReadWith]
  simp [readFieldName, text?, found, regular.legal]

private theorem default_fieldMembersAsRead :
    (fieldMembersAsRead field tree).get? "default" = field.default.map asRead := by
  rw [get?_fieldMembersAsRead tree regular (by decide) (by decide), Field.asReadWith]
  cases chosen : field.default with
  | none =>
    by_cases ascending : field.order = .ascending
    · simp [fieldMembers, get?_append, get?_one, get?_textMember, ascending]
    · simp [fieldMembers, get?_append, get?_one, get?_textMember, ascending]
  | some =>
    simp [fieldMembers, get?_append, get?_one, get?_textMember]

private theorem readOrder_fieldMembersAsRead (name : Text) :
    readOrder (fieldMembersAsRead field tree) name = .ok field.order := by
  have found : (fieldMembersAsRead field tree).get? "order" =
      if field.order = .ascending then none else some (.str field.order.name) := by
    rw [get?_fieldMembersAsRead tree regular (by decide) (by decide), Field.asReadWith]
    by_cases ascending : field.order = .ascending <;> cases field.default <;>
      simp [fieldMembers, get?_append, get?_one, get?_textMember, ascending]
  by_cases ascending : field.order = .ascending
  · rw [if_pos ascending] at found
    simp only [readOrder, found, ascending]
  · rw [if_neg ascending] at found
    simp only [readOrder, found, Order.ofName?_name]

private theorem doc_fieldMembersAsRead : docOf (fieldMembersAsRead field tree) = field.doc := by
  have found : (fieldMembersAsRead field tree).get? "doc" =
      (textMember "doc" field.doc).get? "doc" := by
    rw [get?_fieldMembersAsRead tree regular (by decide) (by decide), Field.asReadWith]
    by_cases ascending : field.order = .ascending <;> cases field.default <;>
      simp [fieldMembers, get?_append, get?_one, ascending]
  exact docOf_textMember found

private theorem readFieldRest_fieldMembersAsRead :
    readFieldRest (fieldMembersAsRead field tree) field.name type =
      .ok (field.asReadWith type) := by
  have isFixed := fixed_fieldMembers tree.asRead (field.asReadWith field.type)
  have aliases : textList? (fieldMembersAsRead field tree) "aliases" =
      .ok (keptAliases field.aliases) :=
    textList?_laidOut isFixed regular.custom.asRead (by decide)
  have props : customProps fieldReservedKeys (fieldMembersAsRead field tree) =
      membersAsRead field.props :=
    customProps_laidOut isFixed regular.custom.asRead (by decide)
  simp [readFieldRest, readOrder_fieldMembersAsRead tree regular, aliases,
    doc_fieldMembersAsRead tree regular, default_fieldMembersAsRead tree regular, props,
    Field.asReadWith]

theorem readField_fieldMembersAsRead (scope : Scope) (space : Text) :
    readField scope space (fieldMembersAsRead field tree) =
      (read scope space tree.asRead).map fun result => (field.asReadWith result.1, result.2) := by
  rw [readField_typed (readFieldName_fieldMembersAsRead tree regular)
    (type_fieldMembersAsRead tree regular)]
  cases read scope space tree.asRead with
  | error => rfl
  | ok =>
    simp [readFieldRest_fieldMembersAsRead tree _ regular]

end Fields

end Schema

end Avro
