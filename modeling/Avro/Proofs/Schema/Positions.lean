import Avro.Proofs.Schema.Written

/-!
# Definitions and names in a document

`marks` lists what stands at the schema positions of a document, from the document alone. An
accepted document puts exactly the types that it defines in scope, in this order.
-/

set_option autoImplicit false

open List

namespace Avro

def Body.kind : Body → Schema.Kind
  | .record false _ => .record
  | .record true _ => .error
  | .enum _ _ => .enum
  | .fixed _ => .fixed

private theorem Body.kindName_eq (body : Body) : body.kindName = body.kind.name := by
  cases body with
  | record isError => cases isError <;> rfl
  | enum | fixed => rfl

def Members.value (members : Members) (key : Text) : Json := (members.get? key).getD .null

theorem Members.sizeOf_value (members : Members) (key : Text) :
    sizeOf (members.value key) < 1 + sizeOf members := by
  rw [value]
  cases found : members.get? key with
  | none =>
    cases members <;>
      simp only [Option.getD_none, Json.null.sizeOf_spec, List.nil.sizeOf_spec,
        List.cons.sizeOf_spec] <;>
      omega
  | some =>
    have := Members.sizeOf_get? found
    simp only [Option.getD_some]
    omega

namespace Schema

variable {catalog : Catalog}

/-- What stands at a schema position: the definition of a type, or a name in some namespace. -/
inductive Mark where
  | definition (name : FullName)
  | name (space name : Text)
deriving DecidableEq, Repr

def declared (marks : List Mark) : List Text :=
  marks.filterMap fun
    | .definition name => some name.text
    | .name .. => none

mutual

/-- What stands at the schema positions of a value that is met in a namespace. -/
def marks (space : Text) (value : Json) : List Mark :=
  match value with
  | .str name => [.name space name]
  | .arr values => branchMarks space values
  | .obj members =>
    match Members.text? members "type" with
    | none => marks space (Members.value members "type")
    | some type =>
      match Kind.ofName? type with
      | some kind =>
        match readHead kind members space with
        | .error _ => []
        | .ok head => .definition head.name ::
          if kind = .record ∨ kind = .error then
            fieldListMarks head.name.space (Members.value members "fields")
          else []
      | none =>
        match Container.ofName? type with
        | some kind => marks space (Members.value members kind.key)
        | none => [.name space type]
  | _ => []
termination_by sizeOf value
decreasing_by
  · simp
  all_goals
    have := Members.sizeOf_value members
    simp
    grind

def branchMarks (space : Text) (values : List Json) : List Mark :=
  match values with
  | [] => []
  | value :: rest => marks space value ++ branchMarks space rest
termination_by sizeOf values

def fieldListMarks (space : Text) (value : Json) : List Mark :=
  match value with
  | .arr values => fieldMarks space values
  | _ => []
termination_by sizeOf value

def fieldMarks (space : Text) (values : List Json) : List Mark :=
  match values with
  | .obj members :: rest => marks space (Members.value members "type") ++ fieldMarks space rest
  | _ :: rest => fieldMarks space rest
  | [] => []
termination_by sizeOf values
decreasing_by
  · have := Members.sizeOf_value members "type"
    simp only [List.cons.sizeOf_spec, Json.obj.sizeOf_spec]
    omega
  all_goals
    simp only [List.cons.sizeOf_spec]
    omega

end

def Part.marks : Part → List Mark
  | .schema space value => Schema.marks space value
  | .branches space values => branchMarks space values
  | .fields owner _ values => fieldMarks owner.space values
  | .field space members => Schema.marks space (members.value "type")

section Object

variable {space type : Text} {members : Members} {kind : Kind} {head : Definition}

theorem declared_append (first second : List Mark) :
    declared (first ++ second) = declared first ++ declared second := filterMap_append

theorem marks_defines (typed : members.get? "type" = some (.str kind.name))
    (headed : readHead kind members space = .ok head) :
    marks space (.obj members) = .definition head.name ::
      if kind = .record ∨ kind = .error then
        fieldListMarks head.name.space (members.value "fields")
      else [] := by
  have found : Kind.ofName? kind.name = some kind := Kind.ofName?_eq_some_iff.mpr rfl
  simp only [marks, Members.text?, typed, found, headed]

theorem marks_name (typed : members.get? "type" = some (.str type))
    (noKind : Kind.ofName? type = none) (noContainer : Container.ofName? type = none) :
    marks space (.obj members) = [.name space type] := by
  simp only [marks, Members.text?, typed, noKind, noContainer]

theorem marks_primitive {primitive : Primitive} (typed : members.get? "type" = some (.str type))
    (found : Primitive.ofName? type = some primitive) :
    marks space (.obj members) = [.name space type] := by
  have same := find?_some found
  rw [← of_decide_eq_true same] at typed ⊢
  exact marks_name typed (by cases primitive <;> decide) (by cases primitive <;> decide)

theorem marks_container {container : Container} {value : Json}
    (typed : members.get? "type" = some (.str container.name))
    (present : members.get? container.key = some value) :
    marks space (.obj members) = marks space value := by
  obtain ⟨_, noKind, found⟩ := ofName?_container container
  rw [marks]
  simp only [Members.text?, typed, noKind, found, Members.value, present, Option.getD_some]

private theorem marks_wrapped {value : Json} (typed : members.get? "type" = some value)
    (noName : ∀ type, value ≠ .str type) : marks space (.obj members) = marks space value := by
  have noText : members.text? "type" = none := by
    cases value with
    | str name => exact absurd rfl (noName name)
    | _ => simp only [Members.text?, typed]
  rw [marks]
  simp only [noText, Members.value, typed, Option.getD_some]

theorem fieldListMarks_of_readFieldList {owner list}
    (listed : readFieldList owner members = .ok list) :
    fieldListMarks space (members.value "fields") = fieldMarks space list := by
  unfold readFieldList at listed
  split at listed
  · cases listed
  · rename_i found
    cases listed
    rw [Members.value, found, Option.getD_some, fieldListMarks]
  · cases listed

end Object

/-- A part that is accepted adds to the names of a document those that it defines. -/
theorem Reads.names {scope after part meaning} (reads : Reads scope part meaning after) :
    after.names = scope.names ++ declared part.marks := by
  induction reads with
  | primitive | name => simp [Part.marks, marks, declared]
  | union _ _ ih => simpa [Part.marks, marks] using ih
  | primitiveObject typed found => simp [Part.marks, marks_primitive typed found, declared]
  | leaf isLeaf typed headed defined =>
    obtain ⟨_, _, extended⟩ := Scope.define_ok_iff.mp defined
    rw [Scope.names_install, extended.names, Part.marks, marks_defines typed headed, if_neg]
    · rfl
    · rintro (rfl | rfl) <;> cases isLeaf
  | record typed headed defined listed _ ih =>
    obtain ⟨_, _, extended⟩ := Scope.define_ok_iff.mp defined
    rw [Scope.names_install, ih, extended.names, Part.marks, marks_defines typed headed,
      if_pos (by cases ‹Bool› <;> simp), fieldListMarks_of_readFieldList listed, append_assoc]
    rfl
  | container typed present _ ih => rw [ih, Part.marks, Part.marks, marks_container typed present]
  | nameObject typed _ noKind noContainer =>
    simp [Part.marks, marks_name typed noKind noContainer, declared]
  | wrapped typed noName _ ih =>
    rw [ih, Part.marks, Part.marks, marks_wrapped typed noName]
  | noBranches | noFields => simp [Part.marks, branchMarks, fieldMarks, declared]
  | moreBranches _ _ firstIH othersIH | moreFields _ _ _ firstIH othersIH =>
    simp only [othersIH, firstIH, Part.marks, branchMarks, fieldMarks, declared_append,
      append_assoc]
  | field _ typed _ _ ih => rw [ih, Part.marks, Part.marks, Members.value, typed, Option.getD_some]

theorem Reads.declared {scope after part meaning definitions}
    (reads : Reads scope part meaning after) (extended : scope.Extends after definitions) :
    definitions.map (·.name.text) = declared part.marks :=
  append_cancel_left (extended.names.symm.trans reads.names)

inductive Event where
  | definition (reference : Reference)
  | mention (made : Mention)
  | primitive (space : Text) (kind : Primitive)

namespace Event

def mark : Event → Mark
  | .definition reference => .definition reference.name
  | .mention made => .name made.space (writtenName made.space made.reference.name)
  | .primitive space kind => .name space kind.name

def defined? : Event → Option Reference
  | .definition reference => some reference
  | _ => none

def mention? : Event → Option Mention
  | .mention made => some made
  | _ => none

end Event

/-- From left to right, each definition is of a new name and each mention is of one that has been
defined before. -/
def DefinesBeforeUse : Seen → List Event → Prop
  | _, [] => True
  | seen, .definition reference :: rest =>
    reference.name.text ∉ seen ∧ DefinesBeforeUse (reference.name.text :: seen) rest
  | seen, .mention made :: rest => made.reference.name.text ∈ seen ∧ DefinesBeforeUse seen rest
  | seen, .primitive .. :: rest => DefinesBeforeUse seen rest

theorem DefinesBeforeUse.append {seen first second} (early : DefinesBeforeUse seen first)
    (late : DefinesBeforeUse (seen.add (first.filterMap Event.defined?)) second) :
    DefinesBeforeUse seen (first ++ second) := by
  induction first generalizing seen with
  | nil => exact late
  | cons event _ ih =>
    cases event with
    | definition =>
      refine ⟨early.1, ih early.2 ?_⟩
      rwa [filterMap_cons_some (by rfl), Seen.add_cons] at late
    | mention => exact ⟨early.1, ih early.2 late⟩
    | primitive => exact ih early late

/-- What stands at the schema positions of trees when they are read back. -/
def Trees.marks (space : Text) : Piece → Trees → List Mark
  | _, .one tree => Schema.marks space tree.asRead
  | .fields _, .many trees => fieldMarks space (Json.itemsAsRead trees)
  | _, .many trees => branchMarks space (Json.itemsAsRead trees)

section Objects

variable {ints : Prop} (space : Text)

private theorem marks_primitiveTree (kind : Primitive) {props : Members}
    (custom : props.Custom ints reservedKeys) :
    marks space (primitiveTree kind props).asRead = [.name space kind.name] := by
  have name := (Primitive.clean_name kind).sanitize_eq
  unfold primitiveTree
  split
  · rw [Json.asRead, name, marks]
  · have same : Json.membersAsRead (Members.one "type" (.str kind.name)) =
        Members.one "type" (.str kind.name) := by
      rw [Json.membersAsRead_one, Json.asRead, name]
    have isFixed : Fixed reservedKeys (Members.one "type" (.str kind.name)) :=
      fixed_one (by decide) (by decide)
    obtain ⟨members, written, _, found⟩ := objectTree_members isFixed same isFixed custom
    rw [written]
    exact marks_primitive (found _ (by decide) (by decide)) (Primitive.ofName?_name kind)

theorem Writes.bare {catalog : Catalog} {fields : List Field} {seen : Seen} {trees : List Json}
    {news : List Reference} {mentions : List Mention}
    (writes : Writes catalog space (.fields fields) seen (.many trees) news mentions)
    (none : fields = []) : trees = [] := by
  subst none
  cases writes
  rfl

private theorem marks_definitionTree {definition : Definition} (regular : definition.Regular ints)
    {trees : List Json} (bare : definition.body.fields = [] → trees = []) :
    marks space (definitionTree space definition trees).asRead = .definition definition.name ::
      fieldMarks definition.name.space (Json.itemsAsRead trees) := by
  have typed := type_definitionMembers space trees regular
  rw [definition.body.kindName_eq] at typed
  rw [asRead_definitionTree space trees regular.toRegularHead,
    marks_defines typed (readHead_definitionMembers space trees regular _)]
  cases body : definition.body with
  | record isError =>
    rw [if_pos (by cases isError <;> simp [Body.kind]), fieldListMarks_of_readFieldList
      (readFieldList_definitionMembers space trees regular [] body)]
    rfl
  | enum | fixed =>
    rw [bare (by rw [body]; rfl), Json.itemsAsRead, fieldMarks]
    rfl

end Objects

/-- The events of writing a piece: they are found in what was written, in document order. -/
structure Events (piece : Piece) (space : Text) (seen : Seen) (trees : Trees)
    (news : List Reference) (mentions : List Mention) (events : List Event) : Prop where
  marks : trees.marks space piece = events.map Event.mark
  defined : events.filterMap Event.defined? = news
  mentioned : events.filterMap Event.mention? = mentions
  ordered : DefinesBeforeUse seen events

theorem Writes.events {ints space piece seen trees news mentions}
    (writes : Writes catalog space piece seen trees news mentions) (regular : piece.Regular ints)
    (each : ∀ definition ∈ catalog, definition.Regular ints) :
    ∃ events, Events piece space seen trees news mentions events := by
  induction writes with
  | @primitive space _ kind =>
    obtain ⟨regular⟩ := regular
    obtain ⟨_, custom⟩ := regular
    refine ⟨[.primitive space kind], ?_, rfl, rfl, trivial⟩
    exact marks_primitiveTree space kind custom
  | container _ _ _ ih =>
    obtain ⟨regular⟩ := regular
    cases regular with
    | container inner custom =>
      obtain ⟨events, marks, defined, mentioned, ordered⟩ := ih (.schema inner)
      obtain ⟨members, written, _, typed, present⟩ := container_members _ _ custom
      refine ⟨events, ?_, defined, mentioned, ordered⟩
      rw [Trees.marks, written, marks_container typed present]
      exact marks
  | union _ _ ih =>
    obtain ⟨regular⟩ := regular
    cases regular with
    | union all =>
      obtain ⟨events, marks, defined, mentioned, ordered⟩ := ih (.schemas all)
      refine ⟨events, ?_, defined, mentioned, ordered⟩
      rw [Trees.marks, Json.asRead, Schema.marks]
      exact marks
  | @mention space reference seen _ written =>
    obtain ⟨regular⟩ := regular
    cases regular with
    | named legal =>
      refine ⟨[.mention ⟨space, reference, seen⟩], ?_, rfl, rfl, written, trivial⟩
      rw [Trees.marks, Json.asRead, (clean_writtenName space legal).sanitize_eq, Schema.marks]
      rfl
  | @definition space reference definition _ _ _ _ fresh found named inner ih =>
    have whole := each _ (mem_of_getElem? found)
    obtain ⟨events, marks, rfl, rfl, ordered⟩ := ih (Piece.regular_fields whole.body)
    refine ⟨.definition reference :: events, ?_, rfl, rfl, fresh, ordered⟩
    rw [Trees.marks, marks_definitionTree space whole inner.bare, map_cons, ← marks,
      Event.mark, named]
    rfl
  | noSchemas => exact ⟨[], by simp [Trees.marks, Json.itemsAsRead, branchMarks], rfl, rfl, trivial⟩
  | moreSchemas _ _ firstIH othersIH =>
    cases regular with
    | schemas all =>
      obtain ⟨here, later⟩ := forall_mem_cons.mp all
      obtain ⟨first, firstMarks, rfl, rfl, early⟩ := firstIH (.schema here)
      obtain ⟨others, otherMarks, rfl, rfl, late⟩ := othersIH (.schemas later)
      refine ⟨first ++ others, ?_, filterMap_append, filterMap_append, early.append late⟩
      rw [map_append, ← firstMarks, ← otherMarks]
      simp only [Trees.marks, Json.itemsAsRead, branchMarks]
  | noFields => exact ⟨[], by simp [Trees.marks, Json.itemsAsRead, fieldMarks], rfl, rfl, trivial⟩
  | moreFields _ _ firstIH othersIH =>
    cases regular with
    | fields all distinct =>
      obtain ⟨here, later⟩ := forall_mem_cons.mp all
      obtain ⟨first, firstMarks, rfl, rfl, early⟩ := firstIH (.schema here.type)
      obtain ⟨others, otherMarks, rfl, rfl, late⟩ :=
        othersIH (.fields later (nodup_cons.mp distinct).2)
      refine ⟨first ++ others, ?_, filterMap_append, filterMap_append, early.append late⟩
      rw [map_append, ← firstMarks, ← otherMarks]
      simp only [Trees.marks, Json.itemsAsRead, asRead_fieldTree _ here, fieldMarks, Members.value,
        type_fieldMembersAsRead _ here, Option.getD_some]

theorem declared_map_mark (events : List Event) :
    declared (events.map Event.mark) = (events.filterMap Event.defined?).map (·.name.text) := by
  induction events with
  | nil => rfl
  | cons event _ ih =>
    cases event with
    | definition reference => exact congrArg (reference.name.text :: ·) ih
    | mention | primitive => exact ih

end Schema

end Avro
