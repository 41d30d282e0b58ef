import Avro.Proofs.Idl.Messages
import Avro.Proofs.Idl.WellFormed

/-!
# The order of declarations

A source can refer only to types that are declared before, or to the one that is being declared. So
nothing but the list of types needs a definition in full.
-/

set_option autoImplicit false

open List

namespace Avro

open Scope

variable {definitions : List Definition}

theorem Schema.Proper.allows {allowed} {schema : Schema} (proper : schema.Proper allowed) :
    ∀ reference ∈ schema.references, allowed reference := by
  induction proper with
  | primitive => exact forall_mem_nil _
  | container _ _ _ ih => exact ih
  | union _ _ _ ih =>
    intro reference member
    obtain ⟨branch, among, mentioned⟩ := Schema.mem_allReferences.mp member
    exact ih branch among reference mentioned
  | named among => exact forall_mem_singleton.mpr among

def Message.references (message : Message) : List Reference :=
  message.request.flatMap (·.type.references) ++
    (message.response.references ++ Schema.allReferences message.errors)

theorem Message.Proper.allows {allowed} {message : Message} (proper : message.Proper allowed) :
    ∀ reference ∈ message.references, allowed reference := by
  obtain ⟨request, response, errors⟩ := Message.forall_meanings.mp proper.meanings
  refine forall_mem_append.mpr ⟨fun reference member => ?_,
    forall_mem_append.mpr ⟨response.allows, fun reference member => ?_⟩⟩
  · obtain ⟨field, among, mentioned⟩ := mem_flatMap.mp member
    exact (request field among).type.allows reference mentioned
  · obtain ⟨thrown, among, mentioned⟩ := Schema.mem_allReferences.mp member
    exact (errors thrown among).allows reference mentioned

/-! ## Writing by name -/

/-- A tree holds a schema in which each named type is written by name. -/
inductive Schema.ByName (space : Text) : Schema → Json → Prop
  | primitive {kind props} : ByName space (.primitive kind props) (.str kind.name)
  | annotated {kind props} {members : Members}
      (typed : members.get? "type" = some (.str kind.name)) :
      ByName space (.primitive kind props) (.obj members)
  | container {kind : Container} {schema props tree} {members : Members}
      (typed : members.get? "type" = some (.str kind.name))
      (present : members.get? kind.key = some tree) (inner : ByName space schema tree) :
      ByName space (.container kind schema props) (.obj members)
  | union {branches props trees} (each : Forall₂ (ByName space) branches trees) :
      ByName space (.union branches props) (.arr trees)
  | named {reference : Reference} :
      ByName space (.named reference) (.str (writtenName space reference.name))

/-- A tree holds a field, with its type by name. -/
def Field.ByName (space : Text) (field : Field) (tree : Json) : Prop :=
  ∃ (members : Members) (type : Json), tree = .obj members ∧
    members.get? "name" = some (.str field.name) ∧ members.get? "type" = some type ∧
    field.type.ByName space type

def Body.InFull (space : Text) (members : Members) : Body → Prop
  | .record _ fields => ∃ trees, members.get? "fields" = some (.arr trees) ∧
      Forall₂ (Field.ByName space) fields trees
  | .enum symbols _ => members.get? "symbols" = some (.arr (symbols.map .str))
  | .fixed size => members.get? "size" = some (.int size)

/-- An object defines a type in full, with the types in it by name. -/
structure Definition.InFull (space : Text) (definition : Definition) (members : Members) :
    Prop where
  typed : members.get? "type" = some (.str definition.body.kindName)
  named : members.get? "name" = some (.str definition.name.simple)
  spaced : members.get? "namespace" =
    if definition.name.space = space then none else some (.str definition.name.space)
  body : definition.body.InFull definition.name.space members

/-- An object holds a message, with the types in it by name. -/
structure Message.ByName (space : Text) (message : Message) (members : Members) : Prop where
  request : ∃ trees, members.get? "request" = some (.arr trees) ∧
    Forall₂ (Field.ByName space) message.request trees
  response : ∃ tree, members.get? "response" = some tree ∧ message.response.ByName space tree
  errors : message.errors ≠ [] → ∃ trees, members.get? "errors" = some (.arr trees) ∧
    Forall₂ (Schema.ByName space) message.errors trees
  noErrors : message.errors = [] → members.get? "errors" = none

namespace Schema

theorem get?_object {props : Members} {key : Text} (absent : key ∉ props.map Prod.fst)
    (other : key ≠ "aliases") (fixed : Members) (aliases : Option (List Text)) :
    ((fixed.setAll props).setAll (aliasMembers aliases)).get? key = fixed.get? key := by
  rw [Members.get?_setAll_of_absent (aliases_absent other), Members.get?_setAll_of_absent absent]

variable {catalog : Catalog} {depth : Nat} {space : Text} {seen : Seen}

mutual

theorem exists_byName (schema : Schema)
    (written : ∀ reference ∈ schema.references, reference.name.text ∈ seen) :
    ∃ tree, treeWith (namedTree catalog depth) space schema seen = (tree, seen) ∧
      (schema.Unreserved → schema.ByName space tree) := by
  match schema with
  | .primitive kind props =>
    refine ⟨_, rfl, fun unreserved => ?_⟩
    cases unreserved with
    | primitive free =>
      unfold primitiveTree
      split
      · exact .primitive
      · exact .annotated (get?_object (free.absent (by decide)) (by decide) _ none)
  | .container kind schema props =>
    obtain ⟨tree, same, byName⟩ := exists_byName schema written
    refine ⟨containerTree kind tree props, by rw [treeWith, same], fun unreserved => ?_⟩
    obtain ⟨isReserved, noAlias, noType⟩ := container_key kind
    cases unreserved with
    | container inner free =>
      refine .container (get?_object (free.absent (by decide)) (by decide) _ none) ?_ (byName inner)
      rw [get?_object (free.absent isReserved) noAlias]
      simp [Members.get?_append, Members.get?_one, noType]
  | .union branches props =>
    obtain ⟨trees, same, byName⟩ := exists_allByName branches written
    refine ⟨.arr trees, by rw [treeWith, same], fun unreserved => ?_⟩
    cases unreserved with
    | union each => exact .union (byName each)
  | .named reference =>
    refine ⟨_, ?_, fun _ => .named⟩
    rw [treeWith, namedTree.eq_def]
    exact if_pos (written reference mem_cons_self)

theorem exists_allByName (schemas : List Schema)
    (written : ∀ reference ∈ allReferences schemas, reference.name.text ∈ seen) :
    ∃ trees, treesWith (namedTree catalog depth) space schemas seen = (trees, seen) ∧
      ((∀ schema ∈ schemas, schema.Unreserved) → Forall₂ (ByName space) schemas trees) := by
  match schemas with
  | [] => exact ⟨[], rfl, fun _ => .nil⟩
  | schema :: rest =>
    obtain ⟨here, later⟩ := forall_mem_append.mp written
    obtain ⟨tree, same, byName⟩ := exists_byName schema here
    obtain ⟨trees, sameToo, others⟩ := exists_allByName rest later
    refine ⟨tree :: trees, by simp only [treesWith, same, sameToo], fun unreserved => ?_⟩
    obtain ⟨first, unreserved⟩ := forall_mem_cons.mp unreserved
    exact .cons (byName first) (others unreserved)

end

theorem exists_fieldsByName {fields : List Field}
    (written : ∀ reference ∈ fields.flatMap (·.type.references), reference.name.text ∈ seen) :
    ∃ trees, fieldsWith (namedTree catalog depth) space fields seen = (trees, seen) ∧
      ((∀ field ∈ fields, field.Unreserved) → Forall₂ (Field.ByName space) fields trees) := by
  induction fields with
  | nil => exact ⟨[], rfl, fun _ => .nil⟩
  | cons field _ ih =>
    obtain ⟨here, later⟩ := forall_mem_append.mp (flatMap_cons ▸ written)
    obtain ⟨tree, same, byName⟩ := @exists_byName catalog depth space seen field.type here
    obtain ⟨trees, sameToo, others⟩ := ih later
    refine ⟨fieldTree field tree :: trees, by simp only [fieldsWith, same, sameToo],
      fun unreserved => ?_⟩
    obtain ⟨⟨free, type⟩, unreserved⟩ := forall_mem_cons.mp unreserved
    refine .cons ⟨_, tree, rfl, ?_, ?_, byName type⟩ (others unreserved)
    all_goals
      rw [get?_object (free.absent (by decide)) (by decide)]
      simp [fieldMembers, Members.get?_append, Members.get?_one]

private theorem inFull_definition {definition : Definition} {trees : List Json}
    (unreserved : definition.Unreserved)
    (fields : Forall₂ (Field.ByName definition.name.space) definition.body.fields trees) :
    definition.InFull space (((headMembers space definition ++
      bodyMembers trees definition.body).setAll definition.props).setAll
        (aliasMembers definition.aliases)) := by
  have get (key : String) (isReserved : Text.ofString key ∈ reservedKeys)
      (other : Text.ofString key ≠ "aliases") := get?_object (unreserved.free.absent isReserved) other
        (headMembers space definition ++ bodyMembers trees definition.body) definition.aliases
  have spaceless : (bodyMembers trees definition.body).get? "namespace" = none := by
    cases definition.body with
    | record | fixed => rfl
    | enum _ default => cases default <;> rfl
  refine ⟨?_, ?_, ?_, ?_⟩
  · rw [get _ (by decide) (by decide)]
    simp [headMembers, Members.get?_append, Members.get?_one]
  · rw [get _ (by decide) (by decide)]
    simp [headMembers, Members.get?_append, Members.get?_one]
  · rw [get _ (by decide) (by decide), Members.get?_append, spaceless, Option.or_none]
    unfold headMembers
    split <;> simp [Members.get?_append, Members.get?_one, get?_textMember]
  · have own (key : String) (isReserved : Text.ofString key ∈ reservedKeys)
        (other : Text.ofString key ∉ [Text.ofString "type", "name", "namespace", "doc"])
        (noAlias : Text.ofString key ≠ "aliases") :=
      (get key isReserved noAlias).trans
        ((Members.get?_append ..).trans (congrArg (Option.or · _) (get?_headMembers space other _)))
    cases body : definition.body with
    | record =>
      rw [body] at own fields
      exact ⟨trees, own "fields" (by decide) (by decide) (by decide), fields⟩
    | enum =>
      rw [body] at own
      exact own "symbols" (by decide) (by decide) (by decide)
    | fixed =>
      rw [body] at own
      exact own "size" (by decide) (by decide) (by decide)

private theorem treeAfter_of_seen {reference : Reference} {definition : Definition}
    (fresh : reference.name.text ∉ seen) (found : catalog.find? reference = some definition)
    (written : ∀ other ∈ definition.references, other.name.text ∈ reference.name.text :: seen) :
    ∃ members : Members, treeAfter catalog space (.named reference) seen =
        (.obj members, reference.name.text :: seen) ∧
      (definition.Unreserved → definition.InFull space members) := by
  obtain ⟨depth, length⟩ : ∃ depth, catalog.length = depth + 1 :=
    Nat.exists_eq_succ_of_ne_zero fun none => by
      rw [eq_nil_of_length_eq_zero none] at found
      cases found
  obtain ⟨trees, same, byName⟩ := @exists_fieldsByName catalog depth definition.name.space _ _ written
  rw [treeAfter, treeWith, length, namedTree.eq_def]
  dsimp only
  rw [if_neg fresh, found]
  dsimp only
  rw [same]
  exact ⟨_, rfl, fun unreserved => inFull_definition unreserved (byName unreserved.fields)⟩

end Schema

/-! ## Definitions in order -/

/-- Each definition refers to itself and to earlier ones. -/
def Catalog.Ordered (definitions : Catalog) : Prop :=
  ∀ place definition, definitions[place]? = some definition →
    ∀ reference ∈ definition.references,
      reference ∈ references 0 (definitions.take (place + 1))

theorem Catalog.Ordered.snoc {definition : Definition} (ordered : Catalog.Ordered definitions)
    (told : ∀ reference ∈ definition.references,
      reference ∈ references 0 (definitions ++ [definition])) :
    Catalog.Ordered (definitions ++ [definition]) := by
  intro place found present
  rcases Nat.lt_or_ge place definitions.length with before | last
  · rw [getElem?_append_left before] at present
    rw [take_append_of_le_length before]
    exact ordered place found present
  · rw [getElem?_append_right last] at present
    obtain ⟨bound, rfl⟩ := List.getElem?_eq_some_iff.mp present
    have longer : (definitions ++ [definition]).length ≤ place + 1 := by
      rw [length_append]
      exact Nat.succ_le_succ last
    rw [take_of_length_le longer, getElem_singleton]
    exact told

theorem Catalog.Ordered.earlier {catalog : Catalog} (ordered : catalog.Ordered) {place : Nat}
    {definition : Definition} (present : catalog[place]? = some definition) :
    ∀ reference ∈ definition.references,
      ∃ earlier ≤ place, (references 0 catalog)[earlier]? = some reference := by
  intro reference mentioned
  obtain ⟨earlier, found⟩ :=
    mem_iff_getElem?.mp (ordered place definition present reference mentioned)
  obtain ⟨bound, _⟩ := List.getElem?_eq_some_iff.mp found
  have first : (references 0 catalog)[earlier]? = some reference := by
    rw [← take_append_drop (place + 1) catalog, references_append,
      getElem?_append_left bound, found]
  rw [length_references, length_take] at bound
  exact ⟨earlier, by omega, first⟩

/-- A scope of definitions in order, and nothing else. -/
def Scope.Ordered (scope : Scope) : Prop :=
  ∃ definitions, scope = empty.extend definitions ∧ Catalog.Ordered definitions

theorem Scope.offers_extend_empty {reference : Reference} :
    (empty.extend definitions).Offers reference ↔ reference ∈ references 0 definitions := by
  refine (offers_iff (extends_extend .empty definitions)).trans (or_iff_right ?_)
  rintro ⟨_, member, _⟩
  cases member

namespace Protocol

open Schema (Seen)

variable {catalog : Catalog} {space : Text} {seen : Seen}

/-- Definitions in order are written one by one. -/
private theorem typeTrees_of_ordered {before after} (ordered : Catalog.Ordered (before ++ after))
    (distinct : Catalog.Distinct (before ++ after)) :
    ∃ trees, typeTrees (before ++ after) space (references before.length after)
        (before.map (·.name.text)).reverse =
      (trees, ((before ++ after).map (·.name.text)).reverse) ∧
      Forall₂ (fun definition tree => ∃ members : Members, tree = .obj members ∧
        (definition.Unreserved → definition.InFull space members)) after trees := by
  induction after generalizing before with
  | nil => exact ⟨[], by rw [append_nil]; rfl, .nil⟩
  | cons definition after ih =>
    have rest := @ih (before ++ [definition])
    rw [append_assoc, singleton_append, length_append, map_append,
      reverse_append] at rest
    obtain ⟨trees, sameToo, others⟩ := rest ordered distinct
    have fresh : definition.name.text ∉ (before.map (·.name.text)).reverse := by
      rw [Catalog.Distinct, map_append] at distinct
      intro listed
      exact (nodup_append.mp distinct).2.2 _ (mem_reverse.mp listed) _
        mem_cons_self rfl
    have written : ∀ reference ∈ definition.references, reference.name.text ∈
        definition.name.text :: (before.map (·.name.text)).reverse := by
      intro reference mentioned
      have told := ordered before.length definition (by simp) reference mentioned
      rw [take_append, take_of_length_le (Nat.le_succ _), Nat.add_sub_cancel_left,
        take_succ_cons, take_zero, references_snoc] at told
      rcases mem_append.mp told with earlier | itself
      · refine mem_cons_of_mem _ (mem_reverse.mpr ?_)
        rw [← map_text_references 0]
        exact mem_map_of_mem earlier
      · rw [mem_singleton.mp itself]
        exact mem_cons_self
    obtain ⟨members, same, inFull⟩ := @Schema.treeAfter_of_seen _ space _
      ⟨before.length, definition.name⟩ _ fresh
      (Catalog.find?_middle before after definition definition.name) written
    refine ⟨.obj members :: trees, ?_, .cons ⟨members, rfl, inFull⟩ others⟩
    rw [references, typeTrees, if_neg fresh, same]
    exact congrArg (fun written => (Json.obj members :: written.1, written.2)) sameToo

private theorem messageTree_of_seen {message : Message}
    (written : ∀ reference ∈ message.references, reference.name.text ∈ seen) :
    ∃ members : Members, messageTree catalog space message seen = (.obj members, seen) ∧
      (message.Unreserved → message.ByName space members) := by
  obtain ⟨inRequest, written⟩ := forall_mem_append.mp written
  obtain ⟨inResponse, inErrors⟩ := forall_mem_append.mp written
  obtain ⟨request, isRequest, fields⟩ :=
    @Schema.exists_fieldsByName catalog catalog.length space _ _ inRequest
  obtain ⟨response, isResponse, answer⟩ :=
    @Schema.exists_byName catalog catalog.length space _ _ inResponse
  obtain ⟨errors, isErrors, thrown⟩ :=
    @Schema.exists_allByName catalog catalog.length space _ _ inErrors
  simp only [messageTree, isRequest, isResponse, isErrors]
  refine ⟨_, rfl, fun unreserved => ?_⟩
  have absent : ((Schema.textMember "doc" message.doc).setAll message.props).get? "errors" =
      none := by
    rw [Members.get?_setAll_of_absent (unreserved.free.absent (by decide)),
      Schema.get?_textMember, if_neg fun same => absurd same.1 (by decide)]
  refine ⟨⟨request, ?_, fields unreserved.request⟩, ⟨response, ?_, answer unreserved.response⟩,
    fun some => ⟨errors, ?_, thrown unreserved.errors⟩, fun none => ?_⟩
  · by_cases none : message.errors = [] <;> cases message.oneWay <;> simp [Members.get?_set, none]
  · by_cases none : message.errors = [] <;> cases message.oneWay <;> simp [Members.get?_set, none]
  · cases message.oneWay <;> simp [Members.get?_set, some]
  · cases message.oneWay <;> simp [Members.get?_set, none, absent]

private theorem mem_messageMembers {messages before entry}
    (written : ∀ message ∈ messages, ∀ reference ∈ message.references,
      reference.name.text ∈ seen)
    (member : entry ∈ messageMembers catalog space messages before seen) :
    entry ∈ before ∨ ∃ message ∈ messages, entry.1 = message.name ∧
      ∃ members : Members, entry.2 = .obj members ∧
        (message.Unreserved → message.ByName space members) := by
  induction messages generalizing before with
  | nil => exact .inl member
  | cons message _ ih =>
    obtain ⟨here, later⟩ := forall_mem_cons.mp written
    obtain ⟨members, same, byName⟩ := @messageTree_of_seen catalog space seen message here
    rw [messageMembers, same] at member
    rcases ih later member with earlier | ⟨other, among, both⟩
    · rcases Members.eq_or_mem_of_mem_set earlier with rfl | given
      · exact .inr ⟨message, mem_cons_self, rfl, members, rfl, byName⟩
      · exact .inl given
    · exact .inr ⟨other, mem_cons_of_mem _ among, both⟩

/-- One object is written for each type, in order. Without annotations that are named like a fixed
member it defines the type in full, with the types in it by name, and messages have theirs by
name. -/
structure InOrder (protocol : Protocol) (catalog : Catalog) (members messages : Members)
    (trees : List Json) : Prop where
  listed : members.get? "types" = some (.arr trees)
  held : members.get? "messages" = some (.obj messages)
  inFull : Forall₂ (fun definition tree => ∃ members : Members, tree = .obj members ∧
    (definition.Unreserved → definition.InFull protocol.name.space members)) catalog trees
  byName : ∀ entry ∈ messages, ∃ message ∈ protocol.messages, entry.1 = message.name ∧
    ∃ members : Members, entry.2 = .obj members ∧
      (message.Unreserved → message.ByName protocol.name.space members)

private theorem tree_of_ordered {protocol : Protocol} (ordered : catalog.Ordered)
    (distinct : catalog.Distinct) (types : protocol.types = references 0 catalog)
    (told : ∀ message ∈ protocol.messages, ∀ reference ∈ message.references,
      reference ∈ references 0 catalog) :
    ∃ members messages trees, protocol.tree catalog = .obj members ∧
      protocol.InOrder catalog members messages trees := by
  obtain ⟨trees, written, inFull⟩ :=
    @typeTrees_of_ordered protocol.name.space [] catalog ordered distinct
  have written : typeTrees catalog protocol.name.space protocol.types [] =
      (trees, (catalog.map (·.name.text)).reverse) := types ▸ written
  have seen : ∀ message ∈ protocol.messages, ∀ reference ∈ message.references,
      reference.name.text ∈ (catalog.map (·.name.text)).reverse := by
    intro message member reference mentioned
    rw [← map_text_references 0]
    exact mem_reverse.mpr (mem_map_of_mem (told message member reference mentioned))
  refine ⟨_, _, trees, rfl, ?_, (Members.get?_set ..).trans (if_pos rfl), inFull,
    fun entry member => ?_⟩
  · refine ((Members.get?_set ..).trans (if_neg (by decide))).trans ?_
    refine ((Members.get?_set ..).trans (if_pos rfl)).trans ?_
    rw [written]
  · rw [written] at member
    exact (mem_messageMembers seen member).resolve_left not_mem_nil

end Protocol

/-! ## Sources -/

namespace Idl

variable {Failure : Type}

theorem Builds.ordered {Reads start draft} (builds : Builds Reads (· = .idl) start draft)
    (ordered : start.session.scope.Ordered) : draft.session.scope.Ordered := by
  induction builds with
  | here => exact ordered
  | declaration _ _ _ _ read ih =>
    cases read with
    | message => exact ih ordered
    | type _ _ read =>
      obtain ⟨definitions, scope, before⟩ := ih ordered
      have proper := (proper_start (forall_mem_nil _)).extends_
        (extends_extend .empty definitions)
      rw [← scope] at proper
      obtain ⟨definition, grows⟩ := read.grows proper
      have after := grows.extends_.eq_extend
      rw [scope, extend_append] at after
      refine ⟨_, after, before.snoc fun reference mentioned => ?_⟩
      rw [← offers_extend_empty, ← after]
      obtain ⟨field, isField, inField⟩ := mem_flatMap.mp mentioned
      exact ((grows.proper definition mem_cons_self).fields field isField).allows _ inField
  | source _ _ _ ih within => exact within (ih ordered)
  | protocol _ imports | schema _ imports => cases imports

/-- A source whose imports, and theirs, are all sources refers to no type that is declared later.
So its types are written in order, each in full, and those in them and in messages by name. -/
theorem compile_ordered {importer : Option (Importer Failure)} {path source : Text}
    {protocol : Protocol} {catalog : Catalog}
    (compiled : compile importer path source = .ok (protocol, catalog))
    (sources : ∀ loader kind reference origin, importer = some loader →
      .asked kind reference origin ∈ compileLog loader path source → kind = .idl) :
    protocol.types = references 0 catalog ∧
    (∀ (place : Nat) (definition : Definition), catalog[place]? = some definition →
      ∀ reference ∈ definition.references,
        ∃ earlier ≤ place, protocol.types[earlier]? = some reference) ∧
    ∃ members messages trees, protocol.tree catalog = .obj members ∧
      protocol.InOrder catalog members messages trees := by
  have permitted : ∀ loader, importer = some loader → ∀ event ∈ compileLog loader path source,
      event.Permitted (fun _ => True) (· = .idl) importer := by
    rintro loader rfl event member
    cases event with
    | parsed => trivial
    | asked kind reference origin =>
      exact fun _ _ _ _ => ⟨sources loader kind reference origin rfl member, fun _ => trivial⟩
  obtain ⟨session, types, rfl, builds⟩ := builds_compile permitted trivial compiled
  obtain ⟨definitions, scope, ordered⟩ :=
    builds.ordered ⟨[], (extend_nil .empty).symm, fun _ _ wrong => nomatch wrong⟩
  have continues := builds.continues (proper_start (forall_mem_nil _))
    (forall_mem_nil _)
  obtain ⟨_, grows⟩ := continues.grows
  have names := grows.distinct nodup_nil
  have messages := continues.messages
  dsimp only at scope messages
  rw [scope] at types names messages ⊢
  rw [Schema.names_extend] at names
  have catalog : (empty.extend definitions).catalog = definitions := nil_append _
  have types : protocol.types = references 0 definitions :=
    types.trans (extends_extend .empty definitions).defined
  rw [catalog]
  refine ⟨types, fun place definition present reference mentioned => ?_,
    Protocol.tree_of_ordered ordered names types fun message member reference mentioned => ?_⟩
  · rw [types]
    exact ordered.earlier present reference mentioned
  · exact offers_extend_empty.mp ((messages message member).allows reference mentioned)

/-- No document that is asked for is of another kind than a source. -/
def Event.asksForSource : Event → Bool
  | .asked kind _ _ => kind = .idl
  | .parsed _ => true

/-- A message throws an error that is imported. -/
theorem compile_ordered_thrown :
    let importer : Importer Unit :=
      ⟨fun _ reference _ => .ok ⟨reference, "protocol A \x7b error E \x7b \x7d \x7d"⟩, 1⟩
    let source : Text := "protocol P \x7b import idl \"a\"; void f() throws E; \x7d"
    ∃ protocol, compile (some importer) "p" source = .ok (protocol, [failure]) ∧
      ∃ members messages definition : Members, protocol.tree [failure] = .obj members ∧
        members.get? "types" = some (.arr [.obj definition]) ∧
        members.get? "messages" = some (.obj messages) ∧ failure.InFull [] definition ∧
        ∀ entry ∈ messages, ∃ members : Members, entry.2 = .obj members ∧
          failingMessage.ByName [] members := by
  intro importer source
  have result : (compile (some importer) "p" source).toOption.map (fun result =>
      (result.1.name.space, result.1.messages, result.2)) =
      some ([], [failingMessage], [failure]) := by
    with_unfolding_all rfl
  have asked : (compileLog importer "p" source).all Event.asksForSource = true := by
    decide +kernel
  obtain ⟨⟨protocol, catalog⟩, compiled, same⟩ := Option.map_eq_some_iff.mp result
  obtain ⟨space, same⟩ := Prod.mk.inj same
  obtain ⟨isMessage, rfl⟩ := Prod.mk.inj same
  obtain ⟨_, _, members, messages, trees, tree, types, there, inFull, each⟩ :=
    compile_ordered (ok_of_toOption compiled) fun loader kind reference origin same member => by
      cases same
      exact of_decide_eq_true (all_eq_true.mp asked _ member)
  dsimp only at space isMessage
  rw [space, isMessage] at each
  rw [space] at inFull
  obtain ⟨_, rest, ⟨definition, rfl, full⟩, none, rfl⟩ := forall₂_cons_left_iff.mp inFull
  cases none
  refine ⟨protocol, ok_of_toOption compiled, members, messages, definition, tree, types, there,
    full (unreserved_failing.types _ mem_cons_self), fun entry member => ?_⟩
  obtain ⟨message, among, _, members, isObject, byName⟩ := each entry member
  cases mem_singleton.mp among
  exact ⟨members, isObject, byName (unreserved_failing.messages _ mem_cons_self)⟩

end Idl

end Avro
