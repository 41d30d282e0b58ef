import Avro.Proofs.Schema.Rereading

/-!
# The self-contained form

The form that is written of a document means what the document means exactly if all its mentions are
faithful.
-/

set_option autoImplicit false

open List

namespace Avro

open Json (membersAsRead itemsAsRead)

namespace Schema

variable {ints : Prop}

private theorem isUnion_asRead (schema : Schema) : schema.asRead.isUnion = schema.isUnion := by
  cases schema <;> rw [asRead] <;> rfl

private theorem fullName_asRead (schema : Schema) : schema.asRead.fullName = schema.fullName := by
  cases schema <;> rw [asRead] <;> rfl

private theorem branchFault?_allAsRead (seen : List Text) (branches : List Schema) :
    branchFault? seen (allAsRead branches) = branchFault? seen branches := by
  induction branches generalizing seen with
  | nil => rw [allAsRead]
  | cons _ _ ih =>
    rw [allAsRead, branchFault?, branchFault?, isUnion_asRead, fullName_asRead, ih]

section Iff

variable {scope after : Scope} {space : Text}

private theorem read_containerTree_iff {kind tree inner} {props : Members}
    (custom : props.Custom ints reservedKeys) :
    read scope space (containerTree kind tree props).asRead =
        .ok (.container kind inner (membersAsRead props), after) ↔
      read scope space tree.asRead = .ok (inner, after) := by
  rw [read_containerTree custom, map_ok]
  simp

private theorem read_arr_iff {values branches} (sound : branchFault? [] branches = none) :
    read scope space (.arr values) = .ok (.union branches [], after) ↔
      readBranches scope space values = .ok (branches, after) := by
  rw [read_arr_ok]
  constructor
  · rintro ⟨others, read, made⟩
    cases makeUnion_eq made
    exact read
  · intro read
    exact ⟨branches, read, by rw [makeUnion, sound]⟩

private theorem read_recordTree_iff {definition : Definition} {trees isError fields rest}
    (regular : definition.Regular ints) (isRecord : definition.body = .record isError fields)
    (fresh : definition.name.text ∉ scope.names) :
    read scope space (definitionTree space definition trees).asRead =
        .ok (.named ⟨scope.catalog.length, definition.name⟩,
          scope.extend (definition.asRead :: rest)) ↔
      readFields (scope.extend [definition.asReadWith (.record isError [])]) definition.name []
          (itemsAsRead trees) =
        .ok (fields.map Field.asRead,
          (scope.extend [definition.asReadWith (.record isError [])]).extend rest) := by
  rw [read_recordTree regular isRecord fresh, map_ok, Definition.asRead, isRecord, Body.asRead]
  constructor
  · rintro ⟨⟨read, middle⟩, done, same⟩
    obtain ⟨back, rfl⟩ := exists_extend (read_fields_iff.mpr done)
    simp only [Scope.extend_append, singleton_append, Scope.install_extend, Prod.mk.injEq,
      Scope.extend_inj, List.cons.injEq, true_and] at same
    obtain ⟨head, rfl⟩ := same
    cases congrArg Definition.body head
    exact done
  · intro done
    refine ⟨_, done, ?_⟩
    simp only [Scope.extend_append, singleton_append, Scope.install_extend]
    rfl

end Iff

section Written

variable {catalog : Catalog} {space : Text} {piece : Piece} {seen : Seen} {trees : Trees}
  {news : List Reference} {mentions : List Mention}

/-- A piece is read as it was written exactly if all its mentions are faithful. -/
theorem Writes.read_iff (writes : Writes catalog space piece seen trees news mentions)
    (regular : piece.Regular ints) (each : ∀ definition ∈ catalog, definition.Regular ints)
    (distinct : catalog.Distinct) {part} (rereads : Rereads space piece trees part) {scope next}
    (retells : Retells scope catalog seen next)
    (told : news = Scope.references scope.catalog.length next) :
    part.read scope = .ok (piece.asRead, scope.extend (next.map Definition.asRead)) ↔
      ∀ mention ∈ mentions, mention.Faithful := by
  induction writes generalizing part scope next with
  | primitive kind =>
    cases rereads
    cases references_eq_nil told
    obtain ⟨regular⟩ := regular
    obtain ⟨_, custom⟩ := regular
    refine iff_of_true (read_schema_iff.mpr ?_) (forall_mem_nil _)
    rw [read_primitiveTree kind custom, map_nil, Scope.extend_nil, asRead]
  | container _ _ _ ih =>
    cases rereads
    obtain ⟨regular⟩ := regular
    cases regular with
    | container inner custom =>
      rw [← ih (.schema inner) .schema retells told, Piece.asRead, Piece.asRead, asRead,
        read_schema_iff, read_schema_iff, read_containerTree_iff custom]
  | union _ _ ih =>
    cases rereads
    obtain ⟨regular⟩ := regular
    cases regular with
    | @union _ _ regulars sound =>
      rw [← branchFault?_allAsRead] at sound
      rw [← ih (.schemas regulars) .schemas retells told, Piece.asRead, Piece.asRead, asRead,
        read_schema_iff, read_branches_iff, Json.asRead, read_arr_iff sound]
  | @mention space _ _ held written =>
    cases rereads
    cases references_eq_nil told
    obtain ⟨regular⟩ := regular
    cases regular with
    | named legal =>
      obtain ⟨types, names, rfl⟩ := retells.told
      rw [forall_mem_singleton, ← readName_writtenName names distinct legal held written,
        Piece.asRead, asRead, read_schema_iff, Json.asRead,
        (clean_writtenName space legal).sanitize_eq, map_nil, Scope.extend_nil, read_str_ok]
      exact and_iff_right rfl
  | @definition _ _ definition seen _ _ _ _ found _ inner ih =>
    cases rereads
    obtain ⟨other, rest, rfl, rfl, later⟩ := references_eq_cons told
    cases (retells.find? other.name).symm.trans found
    have complete := each _ (mem_of_getElem? found)
    have new : definition.name.text ∉ scope.names := by rwa [retells.names, mem_reverse]
    rw [Piece.asRead, asRead, read_schema_iff, map_cons]
    cases body : definition.body with
    | record isError fields =>
      have begun := @Retells.extend scope catalog seen [definition] rest
        [definition.asReadWith (.record isError [])] retells rfl
      have inside := ih (Piece.regular_fields complete.body) (.fields fun _ _ => not_mem_nil)
        begun (later.trans (by rw [Scope.length_extend]; rfl))
      rw [read_recordTree_iff complete body new, ← inside, Piece.asRead, read_fields_iff, body]
      rfl
    | enum | fixed =>
      rw [body] at inner
      cases inner
      cases references_eq_nil later
      refine iff_of_true ?_ (forall_mem_nil _)
      rw [read_leafTree complete (by simp [body]) new, map_nil, Definition.asRead, body,
        Body.asRead]
  | noSchemas | noFields =>
    cases rereads
    cases references_eq_nil told
    refine iff_of_true ?_ (forall_mem_nil _)
    simp only [Piece.asRead, read_branches_iff, read_fields_iff, map_nil, Scope.extend_nil,
      Json.itemsAsRead, readBranches, readFields, allAsRead]
  | moreSchemas first _ firstIH othersIH =>
    cases rereads
    cases regular with
    | schemas regulars =>
      obtain ⟨regularFirst, regularOthers⟩ := forall_mem_cons.mp regulars
      obtain ⟨front, back, rfl, rfl, later⟩ := references_eq_append told
      have between := retells.extend (Definition.map_name_asRead front)
      rw [forall_mem_append, ← firstIH (.schema regularFirst) .schema retells.front rfl,
        ← othersIH (.schemas regularOthers) .schemas between
          (later.trans (by rw [Scope.length_extend, length_map]))]
      simp only [Piece.asRead, allAsRead, Json.itemsAsRead, read_schema_iff, read_branches_iff,
        map_append, Scope.extend_append]
      constructor
      · intro done
        obtain ⟨_, _, middle, ⟨⟩, firstDone, othersDone⟩ := readBranches_cons_ok.mp done
        have names := first.names_after (.schema regularFirst) each .schema retells.names
          (read_schema_iff.mpr firstDone)
        cases eq_extend_of_length (read_schema_iff.mpr firstDone)
          (read_branches_iff.mpr othersDone) (retells.length_names names)
        exact ⟨firstDone, othersDone⟩
      · rintro ⟨firstDone, othersDone⟩
        exact readBranches_cons_ok.mpr ⟨_, _, _, rfl, firstDone, othersDone⟩
  | moreFields first _ firstIH othersIH =>
    cases rereads with
    | fields fresh =>
      cases regular with
      | fields regulars apart =>
        obtain ⟨regularFirst, regularOthers⟩ := forall_mem_cons.mp regulars
        obtain ⟨single, apart⟩ := nodup_cons.mp apart
        obtain ⟨freshFirst, freshOthers⟩ := forall_mem_cons.mp fresh
        obtain ⟨front, back, rfl, rfl, later⟩ := references_eq_append told
        have between := retells.extend (Definition.map_name_asRead front)
        rw [forall_mem_append, ← firstIH (.schema regularFirst.type) .schema retells.front rfl,
          ← othersIH (.fields regularOthers apart) (.fields (fresh_rest single freshOthers)) between
            (later.trans (by rw [Scope.length_extend, length_map]))]
        simp only [Piece.asRead, map_cons, Json.itemsAsRead, read_schema_iff, read_fields_iff,
          map_append, Scope.extend_append]
        constructor
        · intro done
          obtain ⟨type, _, middle, same, firstDone, othersDone⟩ :=
            (readFields_fieldTree_ok regularFirst freshFirst).mp done
          obtain ⟨head, rfl⟩ := List.cons.inj same
          cases congrArg Field.type head
          have names := first.names_after (.schema regularFirst.type) each .schema retells.names
            (read_schema_iff.mpr firstDone)
          cases eq_extend_of_length (read_schema_iff.mpr firstDone)
            (read_fields_iff.mpr othersDone) (retells.length_names names)
          exact ⟨firstDone, othersDone⟩
        · rintro ⟨firstDone, othersDone⟩
          exact (readFields_fieldTree_ok regularFirst freshFirst).mpr
            ⟨_, _, _, rfl, firstDone, othersDone⟩

end Written

/-! ## What has been read is written as it is -/

theorem membersAsRead_eq_self {reserved : List Text} {props : Members}
    (custom : props.Custom False reserved) : membersAsRead props = props := by
  have same := Json.Plain.asRead_eq custom.tidy
  rw [Json.asRead] at same
  exact Json.obj.inj same

theorem Regular.asRead_eq {schema : Schema} (regular : schema.Regular False) :
    schema.asRead = schema := by
  induction regular with
  | primitive _ custom => rw [asRead, membersAsRead_eq_self custom]
  | container _ custom ih => rw [asRead, ih, membersAsRead_eq_self custom]
  | @union _ props _ _ unread ih =>
    have none : props = [] := Classical.byContradiction fun some => unread some
    rw [asRead, allAsRead_eq, map_congr_left ih, map_id', none]
  | named => rw [asRead]

end Schema

def Field.withoutEmptyAliases (field : Field) : Field :=
  { field with aliases := Schema.keptAliases field.aliases }

def Definition.withoutEmptyAliases (definition : Definition) : Definition :=
  { definition with
    aliases := Schema.keptAliases definition.aliases
    body := match definition.body with
      | .record isError fields => .record isError (fields.map Field.withoutEmptyAliases)
      | .enum symbols default => .enum symbols default
      | .fixed size => .fixed size }

def Scope.withoutEmptyAliases (scope : Scope) : Scope :=
  { scope with catalog := scope.catalog.map Definition.withoutEmptyAliases }

theorem Field.Regular.asRead_eq {field : Field} (regular : field.Regular False) :
    field.asRead = field.withoutEmptyAliases := by
  have default : field.default.map Json.asRead = field.default := by
    cases found : field.default with
    | none => rfl
    | some value => rw [Option.map_some, Json.Plain.asRead_eq (regular.default value found)]
  rw [Field.asRead, Field.asReadWith, regular.type.asRead_eq, default,
    Schema.membersAsRead_eq_self regular.custom, Field.withoutEmptyAliases]

theorem Definition.Regular.asRead_eq {definition : Definition} (regular : definition.Regular False) :
    definition.asRead = definition.withoutEmptyAliases := by
  rw [Definition.asRead, Definition.asReadWith, Schema.membersAsRead_eq_self regular.custom,
    Definition.withoutEmptyAliases]
  cases body : definition.body with
  | record =>
    have inside := regular.body
    rw [body] at inside
    obtain ⟨each⟩ := inside
    rw [Body.asRead, map_congr_left fun field member => (each field member).asRead_eq]
  | enum | fixed => rfl

namespace Schema

/-- A schema on its own mentions a type that it has been written with. -/
def Mentions (schema : Schema) (catalog : Catalog) (mention : Mention) : Prop :=
  ∃ tree news mentions, Writes catalog [] (.schema schema) [] (.one tree) news mentions ∧
    mention ∈ mentions

theorem Writes.mentions_iff {catalog schema tree news mentions mention}
    (writes : Writes catalog [] (.schema schema) [] (.one tree) news mentions) :
    schema.Mentions catalog mention ↔ mention ∈ mentions := by
  constructor
  · rintro ⟨_, _, _, again, member⟩
    obtain ⟨_, _, rfl⟩ := writes.unique again
    exact member
  · exact fun member => ⟨tree, news, mentions, writes, member⟩

section Document

variable {text : Text} {schema : Schema} {scope : Scope}
  (accepted : readDocument .empty text = .ok (schema, scope))

include accepted

theorem reads_of_readDocument :
    ∃ value, Json.Plain value ∧ Reads .empty (.schema [] value) (.schema schema) scope := by
  rw [readDocument] at accepted
  split at accepted
  · cases accepted
  · rename_i value decoded
    exact ⟨value, Json.plain_of_decode decoded, read_ok_iff.mp accepted⟩

theorem eq_extend_empty : scope = Scope.empty.extend scope.catalog := by
  obtain ⟨value, _, reads⟩ := reads_of_readDocument accepted
  obtain ⟨definitions, extended, _⟩ := reads.offers.1
  have catalog : scope.catalog = definitions := extended.catalog
  rw [catalog]
  exact extended.eq_extend

theorem regular_of_readDocument :
    schema.Regular False ∧ ∀ definition ∈ scope.catalog, definition.Regular False := by
  obtain ⟨value, plain, reads⟩ := reads_of_readDocument accepted
  have nothing : Scope.empty.Regular False := forall_mem_nil _
  obtain ⟨regular, definitions, extended, each⟩ := reads.regular plain nothing
  have catalog : scope.catalog = definitions := extended.catalog
  obtain ⟨regular⟩ := regular
  exact ⟨regular, catalog ▸ each⟩

theorem distinct_of_readDocument : scope.catalog.Distinct := by
  obtain ⟨value, _, reads⟩ := reads_of_readDocument accepted
  have names := names_extend Scope.empty scope.catalog
  rw [← eq_extend_empty accepted] at names
  have distinct := reads.nodup_names nodup_nil
  rw [names] at distinct
  exact distinct

theorem writes_of_readDocument :
    ∃ tree mentions, Writes scope.catalog [] (.schema schema) [] (.one tree)
      (Scope.references 0 scope.catalog) mentions := by
  obtain ⟨value, _, reads⟩ := reads_of_readDocument accepted
  obtain ⟨definitions, extended, told⟩ := reads.retold
  have catalog : scope.catalog = definitions := extended.catalog
  obtain ⟨trees, mentions, writes⟩ := told [] [] [] Scope.tells_empty rfl
    (forall_mem_nil _)
  rw [nil_append, append_nil, ← catalog] at writes
  obtain ⟨tree, rfl⟩ := writes.exists_one
  exact ⟨tree, mentions, writes⟩

private theorem withoutEmptyAliases_eq : scope.withoutEmptyAliases =
    Scope.empty.extend (scope.catalog.map Definition.asRead) := by
  obtain ⟨_, each⟩ := regular_of_readDocument accepted
  have same : scope.catalog.map Definition.asRead =
      scope.catalog.map Definition.withoutEmptyAliases :=
    map_congr_left fun definition member => (each definition member).asRead_eq
  have known := congrArg Scope.known (eq_extend_empty accepted)
  have own := congrArg Scope.own (eq_extend_empty accepted)
  rw [Scope.withoutEmptyAliases, known, own, ← same, Scope.extend, Scope.extend, Scope.entries,
    Scope.entries, Scope.references_congr (Definition.map_name_asRead scope.catalog)]
  rfl

end Document

/-- The self-contained form of a document means what the document means exactly if it mentions every
type faithfully. -/
theorem readDocument_render_iff {text : Text} {schema : Schema} {scope : Scope}
    (accepted : readDocument .empty text = .ok (schema, scope)) (layout : Json.Layout) :
    readDocument .empty (schema.render scope.catalog layout) =
        .ok (schema, scope.withoutEmptyAliases) ↔
      ∀ mention, schema.Mentions scope.catalog mention → mention.Faithful := by
  obtain ⟨tree, mentions, writes⟩ := writes_of_readDocument accepted
  obtain ⟨regular, each⟩ := regular_of_readDocument accepted
  have distinct := distinct_of_readDocument accepted
  have retells : Retells .empty scope.catalog [] scope.catalog :=
    ⟨⟨[], ⟨Scope.tells_empty, forall_mem_nil _⟩, rfl⟩,
      ⟨[], [], (append_nil _).symm, rfl⟩⟩
  have again : schema.render scope.catalog layout = tree.render layout := by
    rw [render, Schema.tree, writes.treeAfter_eq]
  have legible : Json.Legible tree := (writes.tidy (.schema regular) each).legible
  simp only [writes.mentions_iff]
  rw [← writes.read_iff (.schema regular) each distinct .schema retells rfl, Piece.asRead,
    regular.asRead_eq, read_schema_iff, again, readDocument, legible.decode_render,
    withoutEmptyAliases_eq accepted]

private theorem mentions_chain : Mentions (.named ⟨0, chainName⟩) [chain]
    ⟨"a", ⟨0, chainName⟩, ["a.int"]⟩ := by
  have held : Catalog.Holds [chain] ⟨0, chainName⟩ := ⟨chain, rfl, rfl⟩
  refine ⟨_, _, _, .definition (by decide) rfl rfl (.moreFields (.union _ (.moreSchemas
    (.primitive _ _) (.moreSchemas (.mention held ?_) .noSchemas))) .noFields), ?_⟩
  · decide
  · exact mem_singleton.mpr rfl

/-- The record is written with a name that is read as the primitive type. -/
theorem chain_not_self_contained :
    readDocument .empty (chainTree.render .compact) =
        .ok (.named ⟨0, chainName⟩, Scope.empty.extend [chain]) ∧
      ¬readDocument .empty ((Schema.named ⟨0, chainName⟩).render [chain] .compact) =
        .ok (.named ⟨0, chainName⟩, (Scope.empty.extend [chain]).withoutEmptyAliases) := by
  refine ⟨readDocument_chainTree, fun same => ?_⟩
  have faithful := (readDocument_render_iff readDocument_chainTree .compact).mp same _ mentions_chain
  exact absurd faithful.notPrimitive (by decide)

end Schema

end Avro
