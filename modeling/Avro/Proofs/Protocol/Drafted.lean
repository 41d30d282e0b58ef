import Avro.Proofs.Protocol.Restated
import Avro.Proofs.Schema.Drafted

/-!
# Drafted protocols

A protocol is drafted if each of its types refers to itself and to those before it, and its messages
to all of them. It is written type by type, in the order of its types.
-/

set_option autoImplicit false

open List

namespace Avro

open Json (Plain itemsAsRead membersAsRead)
open Schema (Piece Trees Mention Seen)

variable {more : List Reference}

/-! ## Definitions in order -/

theorem Definition.Drafted.mono {types : List Reference} {definition : Definition}
    (drafted : definition.Drafted types) (subset : types ⊆ more) : definition.Drafted more where
  told := fun reference mentioned => subset (drafted.told reference mentioned)
  regular := fun legal => drafted.regular fun type member => legal type (subset member)

/-- Definitions that refer to themselves and to those before them. -/
inductive Drafts : List Definition → Prop
  | nil : Drafts []
  | snoc {definitions} {definition : Definition} (earlier : Drafts definitions)
      (fresh : definition.name.text ∉ definitions.map (·.name.text))
      (drafted : definition.Drafted (Scope.references 0 (definitions ++ [definition]))) :
      Drafts (definitions ++ [definition])

section Drafts

variable {definitions : List Definition}

theorem Scope.references_snoc (definitions : List Definition) (definition : Definition) :
    references 0 (definitions ++ [definition]) =
      references 0 definitions ++ [⟨definitions.length, definition.name⟩] := by
  rw [references_append, Nat.zero_add]
  rfl

theorem Drafts.each (drafts : Drafts definitions) :
    ∀ definition ∈ definitions, definition.Drafted (Scope.references 0 definitions) := by
  induction drafts with
  | nil => exact forall_mem_nil _
  | snoc _ _ drafted ih =>
    refine forall_mem_append.mpr ⟨fun earlier member => ?_, forall_mem_singleton.mpr drafted⟩
    rw [Scope.references_snoc]
    exact (ih earlier member).mono (subset_append_left _ _)

theorem Drafts.distinct (drafts : Drafts definitions) : Catalog.Distinct definitions := by
  induction drafts with
  | nil => exact nodup_nil
  | snoc _ fresh _ ih =>
    rw [Catalog.Distinct, map_append, nodup_append]
    refine ⟨ih, pairwise_singleton _ _, ?_⟩
    rintro name earlier _ new rfl
    rw [mem_singleton.mp new] at earlier
    exact fresh earlier

theorem Scope.holds_of_mem_references {reference : Reference}
    (member : reference ∈ references 0 definitions) : Catalog.Holds definitions reference :=
  holds_of_offers ((extends_extend empty definitions).offers_defined member)

theorem Drafts.closed (drafts : Drafts definitions) : Catalog.Closed definitions :=
  fun definition member reference mentioned =>
    Scope.holds_of_mem_references ((drafts.each definition member).told reference mentioned)

end Drafts

/-! ## Writing in order -/

namespace Schema

variable {catalog : Catalog} {space : Text} {seen : Seen} {news : List Reference}
  {mentions : List Mention}

private theorem Writes.schemas_append {first second trees others later}
    (writes : Writes catalog space (.schemas first) seen (.many trees) news mentions)
    (continues : Writes catalog space (.schemas second) (seen.add news) (.many others) more later) :
    Writes catalog space (.schemas (first ++ second)) seen (.many (trees ++ others)) (news ++ more)
      (mentions ++ later) := by
  induction first generalizing seen trees news mentions with
  | nil =>
    cases writes
    exact continues
  | cons _ _ ih =>
    cases writes with
    | moreSchemas here behind =>
      rw [Seen.add_append] at continues
      have whole := Writes.moreSchemas here (ih behind continues)
      rwa [← append_assoc, ← append_assoc] at whole

private theorem exists_writes_drafts {definitions} (drafts : Drafts definitions) (space : Text) :
    ∃ trees mentions,
      Writes definitions space (.schemas ((Scope.references 0 definitions).map .named)) []
        (.many trees) (Scope.references 0 definitions) mentions ∧
      ∀ tree ∈ trees, ∃ members, tree = .obj members := by
  induction drafts with
  | nil => exact ⟨[], [], .noSchemas, forall_mem_nil _⟩
  | @snoc definitions definition earlier fresh drafted ih =>
    obtain ⟨trees, mentions, writes, objects⟩ := ih
    have last := Scope.references_snoc definitions definition
    have closed := (Drafts.snoc earlier fresh drafted).closed
    have listed : (⟨definitions.length, definition.name⟩ : Reference) ∈
        Scope.references 0 (definitions ++ [definition]) := by
      rw [last]
      exact mem_append_right _ mem_cons_self
    have names : Seen.add [] (Scope.references 0 definitions) =
        (definitions.map (·.name.text)).reverse := by
      rw [Seen.add, append_nil, Scope.map_text_references]
    obtain ⟨tree, news, others, single⟩ := exists_writes closed space
      (.named ⟨definitions.length, definition.name⟩)
      (forall_mem_singleton.mpr (Scope.holds_of_mem_references listed))
      (Seen.add [] (Scope.references 0 definitions))
    cases single with
    | mention _ written =>
      rw [names] at written
      exact absurd (mem_reverse.mp written) fresh
    | @definition _ _ _ _ _ nested _ unwritten present named inner =>
      cases (Catalog.find?_middle definitions [] definition definition.name).symm.trans present
      have nothing : nested = [] := inner.news_eq_nil fun reference mentioned => by
        have told := drafted.told reference mentioned
        rw [last] at told
        rcases mem_append.mp told with before | itself
        · rw [names]
          refine mem_cons_of_mem _ (mem_reverse.mpr ?_)
          rw [← Scope.map_text_references 0]
          exact mem_map_of_mem before
        · rw [mem_singleton.mp itself]
          exact mem_cons_self
      subst nothing
      have both := (writes.append [definition]).schemas_append
        (.moreSchemas (.definition unwritten present named inner) .noSchemas)
      rw [last, map_append]
      exact ⟨_, _, both, forall_mem_append.mpr
        ⟨objects, forall_mem_singleton.mpr ⟨_, rfl⟩⟩⟩

end Schema

/-! ## Messages -/

structure Message.Unreserved (message : Message) : Prop where
  free : message.props.Free Protocol.messageReservedKeys
  request : ∀ field ∈ message.request, field.Unreserved
  response : message.response.Unreserved
  errors : ∀ schema ∈ message.errors, schema.Unreserved

/-- A message over some types that keeps all other rules. -/
structure Message.Drafted (types : List Reference) (message : Message) : Prop where
  told : ∀ schema ∈ message.parts.all, ∀ reference ∈ schema.references, reference ∈ types
  regular : LegalNames types → message.Unreserved → message.Regular True
  silent : message.Silent

theorem Message.Drafted.mono {types : List Reference} {message : Message}
    (drafted : message.Drafted types) (subset : types ⊆ more) : message.Drafted more where
  told := fun schema member reference mentioned =>
    subset (drafted.told schema member reference mentioned)
  regular := fun legal => drafted.regular fun type member => legal type (subset member)
  silent := drafted.silent

def Message.asRead (message : Message) : Message :=
  message.asReadWith (message.parts.map Schema.asRead)

private theorem Schema.isNull_asRead (schema : Schema) : schema.asRead.isNull = schema.isNull := by
  cases schema with
  | primitive kind => cases kind <;> rfl
  | container | union | named => rfl

theorem Message.Silent.asRead {message : Message} (silent : message.Silent) :
    message.asRead.Silent := by
  intro oneWay
  obtain ⟨null, none⟩ := silent oneWay
  refine ⟨?_, ?_⟩
  · exact (Schema.isNull_asRead _).trans null
  · change message.errors.map Schema.asRead = []
    rw [none, map_nil]

/-! ## Protocols -/

namespace Protocol

/-- A protocol whose types are the definitions of a catalog, in order, and that keeps all rules but
those about legal names and reserved keys. -/
structure Drafted (protocol : Protocol) (catalog : Catalog) : Prop where
  simple : protocol.name.simple.Clean
  space : protocol.name.space.Clean
  doc : protocol.doc.Clean
  props : Plain (.obj protocol.props)
  drafts : Drafts catalog
  types : protocol.types = Scope.references 0 catalog
  messages : ∀ message ∈ protocol.messages, message.Drafted (Scope.references 0 catalog)
  distinct : (protocol.messages.map (·.name)).Nodup

structure Unreserved (protocol : Protocol) (catalog : Catalog) : Prop where
  free : protocol.props.Free reservedKeys
  messages : ∀ message ∈ protocol.messages, message.Unreserved
  types : ∀ definition ∈ catalog, definition.Unreserved

/-- A protocol whose types are written one by one mentions a type in them or in its messages. -/
def Mentions (protocol : Protocol) (catalog : Catalog) (mention : Mention) : Prop :=
  ∃ types trees news more mentions later,
    Writes catalog protocol protocol.types types trees news more mentions later ∧
      mention ∈ mentions ++ later

theorem Writes.mentions_iff {protocol catalog types trees news mentions later mention}
    (writes : Writes catalog protocol protocol.types types trees news more mentions later) :
    protocol.Mentions catalog mention ↔ mention ∈ mentions ++ later := by
  constructor
  · rintro ⟨_, _, _, _, _, _, again, member⟩
    obtain ⟨_, rfl, rfl⟩ := writes.first.unique again.first
    obtain ⟨_, rfl, rfl⟩ := writes.second.unique again.second
    exact member
  · exact fun member => ⟨types, trees, news, more, mentions, later, writes, member⟩

def asRead (protocol : Protocol) : Protocol :=
  protocol.asReadWith protocol.types (protocol.messages.map fun message =>
    message.parts.map Schema.asRead)

private theorem messages_asRead (protocol : Protocol) :
    protocol.asRead.messages = protocol.messages.map Message.asRead := by
  rw [asRead, asReadWith, zipWith_map_right, zipWith_self]
  rfl

section Drafted

variable {protocol : Protocol} {catalog : Catalog}

theorem Drafted.complete (drafted : protocol.Drafted catalog) (legal : LegalNames protocol.types)
    (unreserved : protocol.Unreserved catalog) : protocol.Complete True catalog where
  regular := by
    refine ⟨drafted.simple, drafted.space, drafted.doc,
      Members.custom_of_plain drafted.props unreserved.free, fun message member => ?_,
      drafted.distinct⟩
    rw [drafted.types] at legal
    exact (drafted.messages message member).regular legal (unreserved.messages message member)
  each := by
    intro definition member
    rw [drafted.types] at legal
    have named : definition.name.Legal := by
      obtain ⟨front, back, rfl⟩ := append_of_mem member
      refine legal ⟨front.length, definition.name⟩ ?_
      rw [Scope.references_append, Nat.zero_add]
      exact mem_append_right _ mem_cons_self
    exact (drafted.drafts.each definition member).regular legal named
      (unreserved.types definition member)
  closed := drafted.drafts.closed
  types := by
    intro type member
    rw [drafted.types] at member
    exact Scope.holds_of_mem_references member
  messages := by
    intro schema member reference mentioned
    obtain ⟨parts, among, inside⟩ := mem_flatMap.mp member
    obtain ⟨message, listed, rfl⟩ := mem_map.mp among
    exact Scope.holds_of_mem_references
      ((drafted.messages message listed).told schema inside reference mentioned)

theorem Drafted.exists_writes (drafted : protocol.Drafted catalog) :
    ∃ types trees mentions later,
      Writes catalog protocol protocol.types types trees protocol.types [] mentions later := by
  obtain ⟨types, mentions, first, objects⟩ :=
    Schema.exists_writes_drafts drafted.drafts protocol.name.space
  have told : ∀ reference ∈ Schema.allReferences protocol.messageTypes,
      reference ∈ protocol.types := by
    intro reference member
    obtain ⟨schema, among, mentioned⟩ := Schema.mem_allReferences.mp member
    obtain ⟨parts, listed, inside⟩ := mem_flatMap.mp among
    obtain ⟨message, present, rfl⟩ := mem_map.mp listed
    rw [drafted.types]
    exact (drafted.messages message present).told schema inside reference mentioned
  rw [← drafted.types] at first
  obtain ⟨list, more, later, second⟩ :=
    (Schema.writable_of_closed drafted.drafts.closed _).schemas protocol.name.space
      protocol.messageTypes (fun reference member => by
        have listed := told reference member
        rw [drafted.types] at listed
        exact Scope.holds_of_mem_references listed) (Seen.add [] protocol.types) (Nat.le_refl _)
  have nothing : more = [] := second.news_eq_nil fun reference member =>
    Schema.Seen.mem_add_nil (told reference member)
  subst nothing
  have placed := flat_of_writes second
  rw [placed] at second
  exact ⟨types, _, mentions, later, first, second, typeTrees_news first objects, rfl, objects⟩

theorem Drafted.typeTrees_reverse (drafted : protocol.Drafted catalog) :
    (typeTrees catalog protocol.name.space protocol.types []).2.reverse =
      protocol.types.map (·.name.text) := by
  obtain ⟨types, trees, mentions, later, writes⟩ := drafted.exists_writes
  rw [writes.defined, Seen.add, append_nil, reverse_reverse]

/-- A drafted protocol is read as it was written if its mentions are faithful. -/
theorem Drafted.readDocument_render (drafted : protocol.Drafted catalog)
    (legal : LegalNames protocol.types) (unreserved : protocol.Unreserved catalog)
    (faithful : ∀ mention, protocol.Mentions catalog mention → mention.Faithful)
    (layout : Json.Layout) :
    readDocument .empty (protocol.render catalog layout) =
      .ok (protocol.asRead, Scope.empty.extend (catalog.map Definition.asRead)) := by
  obtain ⟨types, trees, mentions, later, writes⟩ := drafted.exists_writes
  have complete := drafted.complete legal unreserved
  have every (mention : Mention) (member : mention ∈ mentions ++ later) : mention.Faithful :=
    faithful mention (writes.mentions_iff.mpr member)
  obtain ⟨here, behind⟩ := forall_mem_append.mp every
  have roots : Piece.Regular True (.schemas (protocol.types.map .named)) := by
    refine .schemas fun schema member => ?_
    obtain ⟨type, among, rfl⟩ := mem_map.mp member
    exact .named (legal type among)
  have start : Schema.Retells .empty catalog [] catalog :=
    ⟨⟨[], ⟨Scope.tells_empty, forall_mem_nil _⟩, rfl⟩,
      ⟨[], [], (append_nil _).symm, rfl⟩⟩
  have typesRead := (writes.first.read_iff roots complete.each drafted.drafts.distinct .schemas start
    drafted.types).mpr here
  have listed : Schema.Retells (Scope.empty.extend (catalog.map Definition.asRead)) catalog
      (Seen.add [] protocol.types) [] := by
    have whole : Schema.Retells .empty catalog [] (catalog ++ []) := by rwa [append_nil]
    rw [drafted.types]
    exact whole.extend (Definition.map_name_asRead catalog)
  have messagesRead := (writes.second.read_iff (.schemas complete.regular.messageTypes) complete.each
    drafted.drafts.distinct .schemas listed rfl).mpr behind
  rw [Piece.asRead, Schema.read_branches_iff, Schema.allAsRead_eq] at typesRead messagesRead
  rw [map_nil, Scope.extend_nil, messageTypes, ← Parts.flat_map] at messagesRead
  have defined : (Scope.empty.extend (catalog.map Definition.asRead)).defined = protocol.types := by
    rw [drafted.types, ← Scope.references_congr (Definition.map_name_asRead catalog)]
    exact (Scope.extends_extend .empty _).defined
  rw [render, readDocument, complete.legible.decode_render, writes.tree_eq complete.regular,
    Json.asRead]
  refine (readMembers_protocolObject_ok complete.regular types trees writes.alike).mpr
    ⟨_, _, _, typesRead, ?_, ?_, messagesRead, ?_, ?_⟩
  · intro schema member
    obtain ⟨other, among, rfl⟩ := mem_map.mp member
    obtain ⟨type, _, rfl⟩ := mem_map.mp among
    rfl
  · exact Parts.alike_map (writes.alike.imp fun _ _ both => both.symm).flip _
  · rw [defined, asRead, map_map]
    rfl
  · intro message member
    rw [messages_asRead] at member
    obtain ⟨drawn, among, rfl⟩ := mem_map.mp member
    exact (drafted.messages drawn among).silent.asRead

end Drafted

end Protocol

end Avro
