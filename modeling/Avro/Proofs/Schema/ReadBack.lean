import Avro.Proofs.Schema.Objects
import Avro.Proofs.Schema.Writes

/-!
# Reading the written form, piece by piece

For every form of a schema, what is read where it was written, in terms of what is read for its
parts.
-/

set_option autoImplicit false

open List

namespace Avro

open Members

open Json (membersAsRead)

variable {ints : Prop}

private theorem Scope.define_of_fresh {scope : Scope} {head : Definition}
    (fresh : head.name.text ∉ scope.names) :
    scope.define head = .ok (⟨scope.catalog.length, head.name⟩, scope.extend [head]) :=
  define_ok_iff.mpr ⟨fresh, rfl, extends_extend scope [head]⟩

namespace Schema

section Expressions

variable {scope : Scope} {space : Text} {props : Members}

theorem Primitive.clean_name (kind : Primitive) : kind.name.Clean := by
  cases kind <;> exact Text.clean_ofString _

theorem Primitive.ofName?_name (kind : Primitive) : Primitive.ofName? kind.name = some kind := by
  cases kind <;> decide

theorem objectTree_members {fixed fixedRead : Members} (isFixed : Fixed reservedKeys fixed)
    (same : membersAsRead fixed = fixedRead) (alsoFixed : Fixed reservedKeys fixedRead)
    (custom : props.Custom ints reservedKeys) :
    ∃ members : Members, (objectTree fixed props none).asRead = .obj members ∧
      customProps reservedKeys members = membersAsRead props ∧
      ∀ key ∈ reservedKeys, key ≠ "aliases" → members.get? key = fixedRead.get? key := by
  refine ⟨laidOut fixedRead (membersAsRead props) none, ?_, ?_, ?_⟩
  · rw [asRead_objectTree isFixed custom (by decide) cleanTexts_none, same]
  · exact customProps_laidOut alsoFixed custom.asRead (by decide)
  · exact fun _ isReserved other => get?_laidOut custom.asRead isReserved other

theorem read_primitiveTree (kind : Primitive) (custom : props.Custom ints reservedKeys) :
    read scope space (primitiveTree kind props).asRead =
      .ok (.primitive kind (membersAsRead props), scope) := by
  have name := (Primitive.clean_name kind).sanitize_eq
  unfold primitiveTree
  split
  · rename_i empty
    rw [List.isEmpty_iff.mp empty, Json.asRead, name, read, readName]
    simp only [Primitive.ofName?_name, ok_map]
    rfl
  · have same : membersAsRead (one "type" (.str kind.name)) =
        one "type" (.str kind.name) := by
      rw [Json.membersAsRead_one, Json.asRead, name]
    have isFixed : Fixed reservedKeys (one "type" (.str kind.name)) :=
      fixed_one (by decide) (by decide)
    obtain ⟨members, written, rest, found⟩ := objectTree_members isFixed same isFixed custom
    have typed : members.get? "type" = some (.str kind.name) := by
      rw [found _ (by decide) (by decide)]
      rfl
    rw [written, read_primitive typed (Primitive.ofName?_name kind), rest]

theorem container_key (kind : Container) :
    kind.key ∈ reservedKeys ∧ kind.key ≠ "aliases" ∧ Text.ofString "type" ≠ kind.key := by
  cases kind <;> decide

theorem fixed_container (kind : Container) (tree : Json) :
    Fixed reservedKeys (one "type" (.str kind.name) ++ one kind.key tree) :=
  fixed_append (fixed_one (by decide) (by decide))
    (fixed_one (container_key kind).1 (container_key kind).2.1)

theorem membersAsRead_container (kind : Container) (tree : Json) :
    membersAsRead (one "type" (.str kind.name) ++ one kind.key tree) =
      one "type" (.str kind.name) ++ one kind.key tree.asRead := by
  cases kind <;> simp only [Container.name, Container.key, Json.membersAsRead_append,
    Json.membersAsRead_one, Json.asRead, (Text.clean_ofString _).sanitize_eq]

theorem container_members (kind : Container) (tree : Json) (custom : props.Custom ints reservedKeys) :
    ∃ members : Members, (containerTree kind tree props).asRead = .obj members ∧
      customProps reservedKeys members = membersAsRead props ∧
      members.get? "type" = some (.str kind.name) ∧ members.get? kind.key = some tree.asRead := by
  obtain ⟨isReserved, noAlias, noType⟩ := container_key kind
  obtain ⟨members, written, rest, found⟩ :=
    objectTree_members (fixed_container kind tree) (membersAsRead_container kind tree)
      (fixed_container kind tree.asRead) custom
  refine ⟨members, written, rest, ?_, ?_⟩
  · rw [found _ (by decide) (by decide)]
    simp [get?_append, get?_one]
  · rw [found _ isReserved noAlias]
    simp [get?_append, get?_one, noType]

theorem read_containerTree {kind : Container} {tree : Json}
    (custom : props.Custom ints reservedKeys) :
    read scope space (containerTree kind tree props).asRead =
      (read scope space tree.asRead).map fun result =>
        (.container kind result.1 (membersAsRead props), result.2) := by
  obtain ⟨members, written, rest, typed, present⟩ := container_members kind tree custom
  rw [written, read_container typed present, rest]
  cases read scope space tree.asRead <;> rfl

end Expressions

/-! ## Definitions -/

section Definitions

variable {scope : Scope} {space : Text} {definition : Definition} {trees : List Json}

theorem define_asReadWith (fresh : definition.name.text ∉ scope.names) (body : Body) :
    scope.define (definition.asReadWith body) =
      .ok (⟨scope.catalog.length, definition.name⟩, scope.extend [definition.asReadWith body]) :=
  Scope.define_of_fresh fresh

theorem read_recordTree {isError fields} (regular : definition.Regular ints)
    (isRecord : definition.body = .record isError fields)
    (fresh : definition.name.text ∉ scope.names) :
    read scope space (definitionTree space definition trees).asRead =
      (readFields (scope.extend [definition.asReadWith (.record isError [])]) definition.name []
        (Json.itemsAsRead trees)).map fun result =>
          (.named ⟨scope.catalog.length, definition.name⟩,
            result.2.install ⟨scope.catalog.length, definition.name⟩ (.record isError result.1)) := by
  have typed : (definitionMembers space definition trees).get? "type" =
      some (.str (cond isError Kind.error Kind.record).name) := by
    rw [type_definitionMembers space trees regular, isRecord]
    cases isError <;> rfl
  have body : (cond isError Kind.error Kind.record).emptyBody = .record isError [] := by
    cases isError <;> rfl
  rw [asRead_definitionTree space trees regular.toRegularHead, read_record typed,
    readHead_definitionMembers space trees regular, body]
  simp only [ok_bind, define_asReadWith fresh, Definition.name_asReadWith,
    readFieldList_definitionMembers space trees regular _ isRecord]
  cases readFields (scope.extend [definition.asReadWith (.record isError [])]) definition.name []
    (Json.itemsAsRead trees) <;> rfl

theorem read_leafTree (regular : definition.Regular ints)
    (isLeaf : ∀ isError fields, definition.body ≠ .record isError fields)
    (fresh : definition.name.text ∉ scope.names) :
    read scope space (definitionTree space definition trees).asRead =
      .ok (.named ⟨scope.catalog.length, definition.name⟩,
        scope.extend [definition.asReadWith definition.body]) := by
  obtain ⟨kind, readBody, isLeaf, named, bodied⟩ : ∃ kind readBody,
      Kind.readLeaf? kind = some readBody ∧ definition.body.kindName = kind.name ∧
      ∀ owner, readBody owner (definitionMembers space definition trees) = .ok definition.body := by
    cases body : definition.body with
    | record isError fields => exact absurd body (isLeaf isError fields)
    | enum =>
      exact ⟨.enum, _, rfl, rfl, body ▸ (readEnum_definitionMembers space trees regular · body)⟩
    | fixed =>
      exact ⟨.fixed, _, rfl, rfl, body ▸ (readFixed_definitionMembers space trees regular · body)⟩
  have typed := type_definitionMembers space trees regular
  rw [named] at typed
  rw [asRead_definitionTree space trees regular.toRegularHead, read_leaf isLeaf typed,
    readHead_definitionMembers space trees regular]
  simp only [ok_bind, define_asReadWith fresh, bodied, pure_ok, Scope.install_extend]
  rfl

end Definitions

/-- The name of a type whose simple name is that of a primitive type. -/
def chainName : FullName := ⟨"a", "int"⟩

/-- A record that refers to itself by its full name. -/
def chainTree : Json :=
  .obj [("type", .str "record"), ("name", .str "a.int"), ("fields", .arr [
    .obj [("name", .str "next"), ("type", .arr [.str "null", .str "a.int"])]])]

def chain : Definition where
  name := chainName
  doc := ""
  aliases := none
  props := []
  body := .record false [⟨"next", .union [.plain .null, .named ⟨0, chainName⟩] [], "", none,
    .ascending, none, []⟩]

theorem legible_chainTree : Json.Legible chainTree := by
  have branches : Json.Legible (.arr [.str "null", .str "a.int"]) :=
    .arr (forall_mem_cons.mpr ⟨.str _, forall_mem_singleton.mpr (.str _)⟩)
  have field : Json.Legible (.obj [("name", .str "next"), ("type", .arr [.str "null",
      .str "a.int"])]) :=
    .obj (by decide) (forall_mem_cons.mpr ⟨.str _, forall_mem_singleton.mpr branches⟩)
  exact .obj (by decide) (forall_mem_cons.mpr ⟨.str _, forall_mem_cons.mpr ⟨.str _,
    forall_mem_singleton.mpr (.arr (forall_mem_singleton.mpr field))⟩⟩)

set_option maxRecDepth 10000 in
theorem readDocument_chainTree : readDocument .empty (chainTree.render .compact) =
    .ok (.named ⟨0, chainName⟩, Scope.empty.extend [chain]) := by
  rw [readDocument, legible_chainTree.decode_render]
  with_unfolding_all rfl

end Schema

end Avro
