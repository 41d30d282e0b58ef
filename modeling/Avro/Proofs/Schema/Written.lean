import Avro.Proofs.Schema.ReadBack

/-!
# Written documents are tidy

What is written of regular schemas has no stray bytes and no repeated keys, so it is read without
loss.
-/

set_option autoImplicit false

open List

namespace Avro

open Json (Tidy)

variable {ints : Prop}

namespace Schema

variable {props : Members}

inductive Piece.Regular (ints : Prop) : Piece → Prop
  | schema {schema : Schema} (regular : schema.Regular ints) : Regular ints (.schema schema)
  | schemas {schemas} (each : ∀ schema ∈ schemas, schema.Regular ints) :
      Regular ints (.schemas schemas)
  | fields {fields} (each : ∀ field ∈ fields, field.Regular ints)
      (distinct : (fields.map (·.name)).Nodup) : Regular ints (.fields fields)

theorem Piece.regular_fields {body : Body} (regular : body.Regular ints) :
    Piece.Regular ints (.fields body.fields) := by
  cases regular with
  | record each distinct => exact .fields each distinct
  | enum | fixed =>
    exact .fields (forall_mem_nil _) nodup_nil

def Trees.Tidy : Trees → Prop
  | .one tree => Json.Tidy True tree
  | .many trees => ∀ tree ∈ trees, Json.Tidy True tree

/-- Members with tidy values and with keys out of a list, in its order. -/
structure Under (keys : List String) (members : Members) : Prop where
  within : (members.map Prod.fst).Sublist (keys.map Text.ofString)
  each : ∀ member ∈ members, Tidy True member.2

namespace Under

theorem nil (keys : List String) : Under keys [] where
  within := nil_sublist _
  each := forall_mem_nil _

theorem one (key : String) {value : Json} (tidy : Tidy True value) :
    Under [key] (Members.one key value) where
  within := List.Sublist.refl _
  each := forall_mem_singleton.mpr tidy

theorem textMember (key : String) {text : Text} (clean : text.Clean) :
    Under [key] (textMember key text) := by
  rw [Schema.textMember]
  split
  · exact nil _
  · exact one key (.str clean)

theorem append {keys more first second} (under : Under keys first) (also : Under more second) :
    Under (keys ++ more) (first ++ second) where
  within := by
    rw [map_append, map_append]
    exact under.within.append also.within
  each := forall_mem_append.mpr ⟨under.each, also.each⟩

theorem tidy {keys : List String} {members : Members} (under : Under keys members)
    (distinct : (keys.map Text.ofString).Nodup) : Tidy True (.obj members) := by
  refine .obj (fun member among => ?_) (distinct.sublist under.within) under.each
  obtain ⟨key, _, same⟩ := mem_map.mp (under.within.subset (mem_map_of_mem among))
  exact same ▸ Text.clean_ofString key

end Under

theorem tidy_textArray {texts : List Text} (clean : ∀ text ∈ texts, text.Clean) :
    Tidy True (textArray texts) := by
  refine .arr fun item member => ?_
  obtain ⟨text, among, rfl⟩ := mem_map.mp member
  exact .str (clean text among)

private theorem under_aliasMembers {aliases} (clean : CleanTexts aliases) :
    Under ["aliases"] (aliasMembers aliases) := by
  rcases aliases with _ | _ | ⟨first, rest⟩
  · exact .nil _
  · exact .nil _
  · exact .one "aliases" (tidy_textArray (clean _ rfl))

theorem tidy_around {keys more reserved} {front props back : Members} (under : Under keys front)
    (also : Under more back) (custom : props.Custom ints reserved)
    (known : (keys ++ more).map Text.ofString ⊆ reserved)
    (distinct : ((keys ++ more).map Text.ofString).Nodup) :
    Tidy True (.obj (front ++ props ++ back)) := by
  rw [map_append] at distinct known
  obtain ⟨first, second, apart⟩ := nodup_append.mp distinct
  obtain ⟨knownFront, knownBack⟩ := append_subset.mp known
  have within {members : Members} {list : List String} (under : Under list members)
      {member : Text × Json} (among : member ∈ members) : member.1 ∈ list.map Text.ofString :=
    under.within.subset (mem_map_of_mem among)
  refine ((under.tidy first).append (custom.tidy.mono fun _ => trivial) ?_).append
    (also.tidy second) ?_
  · intro member among present
    obtain ⟨other, listed, same⟩ := mem_map.mp present
    exact custom.free member among (same ▸ knownFront (within under listed))
  · intro member among present
    rw [map_append, mem_append] at present
    rcases present with inFront | inProps
    · obtain ⟨other, listed, same⟩ := mem_map.mp inFront
      exact apart _ (within under listed) _ (within also among) same
    · obtain ⟨other, listed, same⟩ := mem_map.mp inProps
      exact custom.free other listed (same ▸ knownBack (within also among))

theorem tidy_objectTree {keys reserved fixed aliases} (under : Under keys fixed)
    (custom : props.Custom ints reserved) (known : (keys ++ ["aliases"]).map Text.ofString ⊆ reserved)
    (distinct : ((keys ++ ["aliases"]).map Text.ofString).Nodup) (clean : CleanTexts aliases) :
    Tidy True (objectTree fixed props aliases) := by
  have isFixed : Fixed reserved fixed := by
    intro member among
    have listed := under.within.subset (mem_map_of_mem among)
    rw [map_append] at known distinct
    exact ⟨known (mem_append_left _ listed),
      (nodup_append.mp distinct).2.2 _ listed _ (mem_singleton.mpr rfl)⟩
  rw [objectTree_eq isFixed custom (known (mem_map_of_mem (mem_append_right _ mem_cons_self)))]
  exact tidy_around under (under_aliasMembers clean) custom known distinct

def headKeys : List String := ["type", "name", "namespace", "doc"]

private theorem under_headMembers (space : Text) {definition : Definition}
    (regular : definition.RegularHead ints) :
    Under headKeys (headMembers space definition) := by
  have own : Under ["namespace"] (if definition.name.space = space then []
      else Members.one "namespace" (.str definition.name.space)) := by
    split
    · exact .nil _
    · exact .one _ (.str (Name.clean_of_isLegalSpace regular.legal.space))
  have simple := Name.clean_of_isLegal regular.legal.simple
  have type := Under.one "type" (.str (clean_kindName definition.body))
  exact ((type.append (.one "name" (.str simple))).append own).append (.textMember "doc" regular.doc)

private theorem under_bodyMembers {body : Body} (regular : body.Regular ints) {trees : List Json}
    (each : ∀ tree ∈ trees, Tidy True tree) :
    ∃ keys, Under keys (bodyMembers trees body) ∧
      ((headKeys ++ keys ++ ["aliases"]).map Text.ofString) ⊆ reservedKeys ∧
      ((headKeys ++ keys ++ ["aliases"]).map Text.ofString).Nodup := by
  cases regular with
  | record => exact ⟨_, .one "fields" (.arr each), by decide, by decide⟩
  | @enum symbols default legal _ among =>
    have clean (symbol : Text) (member : symbol ∈ symbols) : symbol.Clean :=
      Name.clean_of_isLegal (legal symbol member)
    refine ⟨["symbols"] ++ ["default"], .append (.one "symbols" (tidy_textArray clean)) ?_,
      by decide, by decide⟩
    cases default with
    | none => exact .nil _
    | some symbol => exact .one "default" (.str (clean symbol (among symbol rfl)))
  | @fixed => exact ⟨_, .one "size" (.int trivial _), by decide, by decide⟩

private theorem tidy_definitionTree (space : Text) {definition : Definition}
    (regular : definition.Regular ints) {trees : List Json} (each : ∀ tree ∈ trees, Tidy True tree) :
    Tidy True (definitionTree space definition trees) := by
  obtain ⟨keys, body, known, distinct⟩ := under_bodyMembers regular.body each
  have head := under_headMembers space regular.toRegularHead
  exact tidy_objectTree (head.append body) regular.custom known distinct regular.aliases

theorem tidy_fieldTree {field : Field} (regular : field.Regular ints) {tree : Json}
    (tidy : Tidy True tree) : Tidy True (fieldTree field tree) := by
  have default : Under ["default"] (field.default.elim [] (Members.one "default")) := by
    cases found : field.default with
    | none => exact .nil _
    | some value => exact .one "default" ((regular.default value found).mono fun _ => trivial)
  have order : Under ["order"] (if field.order = .ascending then []
      else Members.one "order" (.str field.order.name)) := by
    split
    · exact .nil _
    · exact .one "order" (.str (clean_orderName field.order))
  have name := Under.one "name" (.str (Name.clean_of_isLegal regular.legal))
  have fixed := (((name.append (.one "type" tidy)).append (.textMember "doc" regular.doc)).append
    default).append order
  exact tidy_objectTree fixed regular.custom (by decide) (by decide) regular.aliases

private theorem tidy_primitiveTree (kind : Primitive) (custom : props.Custom ints reservedKeys) :
    Tidy True (primitiveTree kind props) := by
  have name := Primitive.clean_name kind
  rw [primitiveTree]
  split
  · exact .str name
  · exact tidy_objectTree (.one "type" (.str name)) custom (by decide) (by decide) cleanTexts_none

theorem tidy_containerTree (kind : Container) (custom : props.Custom ints reservedKeys) {tree : Json}
    (tidy : Tidy True tree) : Tidy True (containerTree kind tree props) := by
  have type (word : String) := Under.one "type" (.str (Text.clean_ofString word))
  cases kind <;>
    exact tidy_objectTree ((type _).append (.one _ tidy)) custom (by decide) (by decide)
      cleanTexts_none

theorem clean_writtenName (space : Text) {name : FullName} (legal : name.Legal) :
    (writtenName space name).Clean := by
  have simple := Name.clean_of_isLegal legal.simple
  have outer := Name.clean_of_isLegalSpace legal.space
  rw [writtenName, FullName.text, Name.qualify]
  split
  · exact simple
  · split
    · exact simple
    · exact forall_mem_append.mpr
        ⟨forall_mem_append.mpr ⟨outer, Text.clean_ofString "."⟩, simple⟩

section Written

variable {catalog : Catalog} {space : Text} {piece : Piece} {seen : Seen} {trees : Trees}
  {news : List Reference} {mentions : List Mention}

theorem Writes.tidy (writes : Writes catalog space piece seen trees news mentions)
    (regular : piece.Regular ints) (each : ∀ definition ∈ catalog, definition.Regular ints) :
    trees.Tidy := by
  induction writes with
  | primitive kind =>
    obtain ⟨regular⟩ := regular
    obtain ⟨_, custom⟩ := regular
    exact tidy_primitiveTree kind custom
  | container kind _ _ ih =>
    obtain ⟨regular⟩ := regular
    cases regular with
    | container inner custom => exact tidy_containerTree kind custom (ih (.schema inner))
  | union _ _ ih =>
    obtain ⟨regular⟩ := regular
    cases regular with
    | union branches => exact .arr (ih (.schemas branches))
  | mention =>
    obtain ⟨regular⟩ := regular
    cases regular with
    | named legal => exact .str (clean_writtenName _ legal)
  | definition _ found _ _ ih =>
    have complete := each _ (mem_of_getElem? found)
    exact tidy_definitionTree _ complete (ih (Piece.regular_fields complete.body))
  | noSchemas | noFields => exact forall_mem_nil _
  | moreSchemas _ _ firstIH othersIH =>
    cases regular with
    | schemas branches =>
      obtain ⟨first, others⟩ := forall_mem_cons.mp branches
      exact forall_mem_cons.mpr ⟨firstIH (.schema first), othersIH (.schemas others)⟩
  | moreFields _ _ firstIH othersIH =>
    cases regular with
    | fields fields distinct =>
      obtain ⟨first, others⟩ := forall_mem_cons.mp fields
      have apart := (nodup_cons.mp distinct).2
      exact forall_mem_cons.mpr ⟨tidy_fieldTree first (firstIH (.schema first.type)),
        othersIH (.fields others apart)⟩

end Written

end Schema

end Avro
