import Avro.Proofs.Protocol.ReadBack

/-!
# What is written of a protocol

The types of a protocol are written in full, each where it first occurs, and after them the types of
its messages. What is written of a regular protocol can be read without loss.
-/

set_option autoImplicit false

open List

namespace Avro.Protocol

open Schema

open Json (Tidy membersAsRead itemsAsRead)
variable {ints : Prop} {members : Members} {messages : List Message} {trees : List (Parts Json)}

/-! ## Tidy objects -/

private theorem tidy_fieldTrees {fields} (regular : ∀ field ∈ fields, field.Regular ints) {trees}
    (each : ∀ tree ∈ trees, Tidy True tree) :
    ∀ tree ∈ List.zipWith fieldTree fields trees, Tidy True tree := by
  induction fields generalizing trees with
  | nil => exact forall_mem_nil _
  | cons _ _ ih =>
    cases trees with
    | nil => exact forall_mem_nil _
    | cons =>
      obtain ⟨first, others⟩ := forall_mem_cons.mp regular
      obtain ⟨here, later⟩ := forall_mem_cons.mp each
      exact forall_mem_cons.mpr ⟨tidy_fieldTree first here, ih others later⟩

private theorem tidy_messageObject {message : Message} (regular : message.Regular ints)
    {trees : Parts Json} (each : ∀ tree ∈ trees.all, Tidy True tree) :
    Tidy True (.obj (messageObject message trees)) := by
  obtain ⟨request, rest⟩ := forall_mem_append.mp each
  obtain ⟨response, errors⟩ := forall_mem_cons.mp rest
  have thrown : Under ["errors"] (if trees.errors.isEmpty then []
      else Members.one "errors" (.arr trees.errors)) := by
    split
    · exact .nil _
    · exact .one "errors" (.arr errors)
  have directed : Under ["one-way"] (if message.oneWay then Members.one "one-way" (.bool true)
      else []) := by
    split
    · exact .one "one-way" (.bool true)
    · exact .nil _
  have parameters := Under.one "request" (.arr (tidy_fieldTrees regular.request request))
  exact tidy_around (.textMember "doc" regular.doc)
    (((parameters.append (.one "response" response)).append thrown).append directed)
    regular.custom (by decide) (by decide)

private theorem name_of_mem_messagesObject {member : Text × Json}
    (among : member ∈ messagesObject messages trees) : member.1 ∈ messages.map (·.name) := by
  induction messages generalizing trees with
  | nil => cases among
  | cons _ _ ih =>
    cases trees with
    | nil => cases among
    | cons =>
      rcases mem_cons.mp among with rfl | later
      · exact mem_cons_self
      · exact mem_cons_of_mem _ (ih later)

private theorem tidy_messagesObject (regular : ∀ message ∈ messages, message.Regular ints)
    (distinct : (messages.map (·.name)).Nodup) (each : ∀ tree ∈ Parts.flat trees, Tidy True tree) :
    Tidy True (.obj (messagesObject messages trees)) := by
  induction messages generalizing trees with
  | nil => exact Json.tidy_emptyObject
  | cons message _ ih =>
    cases trees with
    | nil => exact Json.tidy_emptyObject
    | cons first =>
      obtain ⟨regularFirst, regularRest⟩ := forall_mem_cons.mp regular
      obtain ⟨apart, distinct⟩ := nodup_cons.mp distinct
      rw [Parts.flat_cons] at each
      obtain ⟨here, later⟩ := forall_mem_append.mp each
      have single : Tidy True (.obj [(message.name, .obj (messageObject message first))]) :=
        .obj (forall_mem_singleton.mpr regularFirst.name) (pairwise_singleton _ _)
          (forall_mem_singleton.mpr (tidy_messageObject regularFirst here))
      refine single.append (ih regularRest distinct later) fun member among same => apart ?_
      have named : member.1 = message.name := mem_singleton.mp same
      change message.name ∈ _
      rw [← named]
      exact name_of_mem_messagesObject among

private theorem tidy_protocolObject {protocol : Protocol} (regular : protocol.Regular ints)
    {types : List Json} (defined : ∀ tree ∈ types, Tidy True tree)
    (each : ∀ tree ∈ Parts.flat trees, Tidy True tree) :
    Tidy True (.obj (protocolObject protocol types trees)) := by
  have messages := tidy_messagesObject regular.messages regular.distinct each
  have name := Under.one "protocol" (.str regular.simple)
  have spaced := name.append (.textMember "namespace" regular.space)
  exact tidy_around (spaced.append (.textMember "doc" regular.doc))
    ((Under.one "types" (.arr defined)).append (.one "messages" messages)) regular.custom (by decide)
    (by decide)

/-! ## Types -/

section Types

variable {catalog : Catalog} {space : Text}

private theorem typeTrees_append {first seen} (written : ∀ type ∈ first, type.name.text ∈ seen)
    (second : List Reference) :
    typeTrees catalog space (first ++ second) seen = typeTrees catalog space second seen := by
  induction first with
  | nil => rfl
  | cons _ _ ih =>
    obtain ⟨here, later⟩ := forall_mem_cons.mp written
    rw [cons_append, typeTrees, if_pos here, ih later]

theorem exists_writes_types (closed : catalog.Closed) {types : List Reference}
    (held : ∀ type ∈ types, catalog.Holds type) (later : List Definition) (seen : Seen) :
    ∃ roots trees news mentions,
      Schema.Writes catalog space (.schemas (roots.map .named)) seen (.many trees) news mentions ∧
      typeTrees (catalog ++ later) space types seen = (trees, seen.add news) ∧
      (∀ tree ∈ trees, ∃ members, tree = .obj members) ∧ roots ⊆ types := by
  induction types generalizing seen with
  | nil =>
    exact ⟨[], [], [], [], .noSchemas, rfl, forall_mem_nil _,
      nil_subset _⟩
  | cons type _ ih =>
    obtain ⟨here, others⟩ := forall_mem_cons.mp held
    by_cases written : type.name.text ∈ seen
    · obtain ⟨roots, trees, news, mentions, writes, defined, objects, subset⟩ := ih others seen
      refine ⟨roots, trees, news, mentions, writes, ?_, objects, subset_cons_of_subset _ subset⟩
      rw [typeTrees, if_pos written, defined]
    · obtain ⟨tree, news, mentions, first⟩ := exists_writes closed space (.named type)
        (forall_mem_singleton.mpr here) seen
      obtain ⟨roots, trees, more, behind, writes, defined, objects, subset⟩ :=
        ih others (seen.add news)
      refine ⟨type :: roots, tree :: trees, news ++ more, mentions ++ behind,
        .moreSchemas first writes, ?_, forall_mem_cons.mpr ⟨?_, objects⟩,
        cons_subset_cons _ subset⟩
      · rw [typeTrees, if_neg written]
        simp only [(first.append later).treeAfter_eq, defined, Seen.add_append]
      · cases first with
        | mention _ known => exact absurd known written
        | definition => exact ⟨_, rfl⟩

theorem typeTrees_news {roots : List Reference} {seen trees news mentions}
    (writes : Schema.Writes catalog space (.schemas (roots.map .named)) seen (.many trees) news
      mentions) (objects : ∀ tree ∈ trees, ∃ members, tree = .obj members) :
    typeTrees catalog space news seen = (trees, seen.add news) := by
  induction roots generalizing seen trees news mentions with
  | nil =>
    cases writes
    rfl
  | cons type _ ih =>
    cases writes with
    | @moreSchemas _ _ _ _ _ _ _ _ _ _ first others =>
      obtain ⟨here, later⟩ := forall_mem_cons.mp objects
      have written := first.treeAfter_eq
      cases first with
      | mention =>
        obtain ⟨members, same⟩ := here
        cases same
      | @definition _ _ _ _ _ nested _ fresh =>
        have nestedSeen (other : Reference) (member : other ∈ nested) :
            other.name.text ∈ Seen.add seen (type :: nested) := by
          rw [Seen.add_cons]
          exact mem_append_left _ (mem_reverse.mpr (mem_map_of_mem member))
        rw [cons_append, typeTrees, if_neg fresh]
        simp only [written, typeTrees_append nestedSeen, ih others later]
        rw [← cons_append, Seen.add_append]

end Types

/-! ## Protocols -/

def messageTypes (protocol : Protocol) : List Schema :=
  Parts.flat (protocol.messages.map (·.parts))

/-- A protocol all of whose types stand in a catalog that keeps the rules, as does the protocol. -/
structure Complete (ints : Prop) (protocol : Protocol) (catalog : Catalog) : Prop where
  regular : protocol.Regular ints
  each : ∀ definition ∈ catalog, definition.Regular ints
  closed : catalog.Closed
  types : ∀ type ∈ protocol.types, catalog.Holds type
  messages : ∀ schema ∈ protocol.messageTypes, ∀ reference ∈ schema.references,
    catalog.Holds reference

/-- `Writes catalog protocol roots types trees news more mentions later`: some types of a protocol
are written as trees of their own, others inside them, and the types of the messages after all of
these. -/
structure Writes (catalog : Catalog) (protocol : Protocol) (roots : List Reference)
    (types : List Json) (trees : List (Parts Json)) (news more : List Reference)
    (mentions later : List Mention) : Prop where
  first : Schema.Writes catalog protocol.name.space (.schemas (roots.map .named)) [] (.many types)
    news mentions
  second : Schema.Writes catalog protocol.name.space (.schemas protocol.messageTypes)
    (Seen.add [] news) (.many (Parts.flat trees)) more later
  defined : typeTrees catalog protocol.name.space protocol.types [] = (types, Seen.add [] news)
  placed : trees = (allPartsWith (namedTree catalog catalog.length)
    protocol.name.space (protocol.messages.map (·.parts)) (Seen.add [] news)).1
  objects : ∀ tree ∈ types, ∃ members, tree = .obj members

section Writing

variable {catalog : Catalog} {protocol : Protocol} {roots : List Reference} {types : List Json}
  {trees : List (Parts Json)} {news more : List Reference} {mentions later : List Mention}

theorem Writes.alike
    (writes : Writes catalog protocol roots types trees news more mentions later) :
    List.Forall₂ Parts.Alike (protocol.messages.map (·.parts)) trees := by
  rw [writes.placed]
  exact alike_allPartsWith ..

theorem flat_of_writes {seen list}
    (writes : Schema.Writes catalog protocol.name.space (.schemas protocol.messageTypes) seen
      (.many list) more later) :
    list = Parts.flat (allPartsWith (namedTree catalog catalog.length)
      protocol.name.space (protocol.messages.map (·.parts)) seen).1 := by
  have written := writes.write_eq (unwritten_le_length catalog seen)
  rw [Piece.write, messageTypes, treesWith_flat] at written
  exact (Schema.Trees.many.inj (Prod.mk.inj written).1).symm

theorem Writes.tree_eq
    (writes : Writes catalog protocol roots types trees news more mentions later)
    (regular : protocol.Regular ints) :
    protocol.tree catalog = .obj (protocolObject protocol types trees) := by
  have each (message : Message) (member : message ∈ protocol.messages) :=
    (regular.messages message member).custom
  rw [Protocol.tree_eq regular.custom each regular.distinct catalog writes.defined, writes.placed]

theorem Complete.legal (complete : protocol.Complete ints catalog) {reference : Reference}
    (held : catalog.Holds reference) : reference.name.Legal := by
  obtain ⟨definition, found, named⟩ := held
  exact named ▸ (complete.each definition (mem_of_getElem? found)).legal

theorem Complete.exists_writes (complete : protocol.Complete ints catalog) :
    ∃ roots types trees news more mentions later,
      Writes catalog protocol roots types trees news more mentions later ∧
      Piece.Regular ints (.schemas (roots.map .named)) := by
  obtain ⟨roots, types, news, mentions, first, defined, objects, subset⟩ :=
    exists_writes_types complete.closed complete.types [] []
  rw [append_nil] at defined
  obtain ⟨list, more, later, second⟩ := (writable_of_closed complete.closed _).schemas
    protocol.name.space protocol.messageTypes (by
      intro reference member
      obtain ⟨schema, among, mentioned⟩ := mem_allReferences.mp member
      exact complete.messages schema among reference mentioned) (Seen.add [] news) (Nat.le_refl _)
  have placed := flat_of_writes second
  rw [placed] at second
  refine ⟨roots, types, _, news, more, mentions, later, ⟨first, second, defined, rfl, objects⟩,
    .schemas fun schema member => ?_⟩
  obtain ⟨type, among, rfl⟩ := mem_map.mp member
  exact .named (complete.legal (complete.types type (subset among)))

theorem Regular.messageTypes (regular : protocol.Regular ints) :
    ∀ schema ∈ protocol.messageTypes, schema.Regular ints := by
  intro schema member
  obtain ⟨parts, among, inside⟩ := mem_flatMap.mp member
  obtain ⟨message, listed, rfl⟩ := mem_map.mp among
  have sound := regular.messages message listed
  rcases mem_append.mp inside with requested | rest
  · obtain ⟨field, parameter, rfl⟩ := mem_map.mp requested
    exact (sound.request field parameter).type
  · rcases mem_cons.mp rest with rfl | thrown
    · exact sound.response
    · exact sound.errors schema thrown

theorem Writes.tidy (writes : Writes catalog protocol roots types trees news more mentions later)
    (regular : protocol.Regular ints) (named : Piece.Regular ints (.schemas (roots.map .named)))
    (each : ∀ definition ∈ catalog, definition.Regular ints) :
    Tidy True (.obj (protocolObject protocol types trees)) :=
  tidy_protocolObject regular (writes.first.tidy named each)
    (writes.second.tidy (.schemas regular.messageTypes) each)

end Writing

/-! ## What has been read -/

section Reading

variable {scope after : Scope} {space : Text} {values : List Json}

private theorem tidy_listOf {key noList absent} (tidy : Tidy ints (.obj members))
    (empty : absent = .ok values → values = [])
    (listed : listOf members key absent noList = .ok values) :
    ∀ value ∈ values, Tidy ints value := by
  rw [listOf] at listed
  split at listed
  · rw [empty listed]
    exact forall_mem_nil _
  · rename_i found
    cases listed
    cases tidy.get? found with
    | arr each => exact each
  · cases listed

theorem tidy_messagesOf {messages : Members} (tidy : Tidy ints (.obj members))
    (present : messagesOf members = .ok messages) : Tidy ints (.obj messages) := by
  rw [messagesOf] at present
  split at present
  · cases present
    exact Json.tidy_emptyObject
  · cases present
    exact Json.tidy_emptyObject
  · rename_i found
    cases present
    exact tidy.get? found
  · cases present

theorem tidy_value (tidy : Tidy ints (.obj members)) (key : Text) : Tidy ints (members.value key) := by
  rw [Members.value]
  cases found : members.get? key with
  | none => exact .null
  | some => exact tidy.get? found

theorem tidy_items {value : Json} (tidy : Tidy ints value) : ∀ item ∈ items value, Tidy ints item := by
  cases tidy with
  | arr each => exact each
  | _ => exact forall_mem_nil _

private theorem tidy_messageParts {value : Json} (tidy : Tidy ints value) (space : Text) :
    ∀ part ∈ messageParts space value, part.Tidy ints := by
  cases value with
  | obj members =>
    refine forall_mem_append.mpr ⟨fun part member => ?_, forall_mem_cons.mpr
      ⟨tidy_value tidy _, forall_mem_singleton.mpr (tidy_items (tidy_value tidy _))⟩⟩
    obtain ⟨parameter, among, same⟩ := mem_filterMap.mp member
    have sound := tidy_items (tidy_value tidy _) parameter among
    cases parameter with
    | obj =>
      cases same
      exact sound
    | _ => cases same
  | _ => exact forall_mem_nil _

theorem tidy_messagesParts {values : Members} (tidy : Tidy ints (.obj values)) (space : Text) :
    ∀ part ∈ values.flatMap (fun entry => messageParts space entry.2), part.Tidy ints := by
  intro part member
  obtain ⟨entry, among, inside⟩ := mem_flatMap.mp member
  cases tidy with
  | obj _ _ each => exact tidy_messageParts (each entry among) space part inside

private theorem readsAll_regular {parts meanings} (reads : ReadsAll scope parts meanings after)
    (tidy : ∀ part ∈ parts, part.Tidy ints) (regular : scope.Regular ints) :
    (∀ meaning ∈ meanings, meaning.Regular ints) ∧ scope.Gains ints after := by
  induction reads with
  | nil => exact ⟨forall_mem_nil _, .refl _⟩
  | cons first _ ih =>
    obtain ⟨here, later⟩ := forall_mem_cons.mp tidy
    obtain ⟨sound, gains⟩ := first.regular here regular
    obtain ⟨each, more⟩ := ih later (regular.gains gains)
    exact ⟨forall_mem_cons.mpr ⟨sound, each⟩, gains.trans more⟩

private theorem readMessages_regular {values : Members}
    (read : readMessages space scope values = .ok (messages, after))
    (tidy : Tidy ints (.obj values)) (regular : scope.Regular ints) :
    (∀ message ∈ messages, message.Regular ints) ∧ scope.Gains ints after := by
  obtain ⟨reads, entries, rfl, rfl, each⟩ := readMessages_reads read
  obtain ⟨meanings, gains⟩ := readsAll_regular reads (tidy_messagesParts tidy space) regular
  cases tidy with
  | obj clean _ sound =>
    refine ⟨forall_mem_map.mpr fun entry member => ?_, gains⟩
    obtain ⟨request, ⟨response⟩, _ | errors⟩ := Message.forall_meanings.mp fun meaning among =>
      meanings meaning (mem_flatMap.mpr ⟨entry.2, mem_map_of_mem member, among⟩)
    obtain ⟨_, _, done⟩ := each entry member
    obtain ⟨_, _, _, _, _, _, _, _, _, _, _, _, _, _, documented, props⟩ := readMessage_ok done
    have tidy : Tidy ints (.obj entry.1) := forall_mem_map.mp sound entry member
    refine ⟨forall_mem_map.mp clean entry member, documented ▸ clean_docOf tidy,
      props ▸ custom_customProps tidy _, fun field among => ?_, response, errors⟩
    cases request field among with
    | field regular => exact regular

theorem offers_messageTypes {parts} (reads : ReadsAll scope parts (messages.flatMap (·.meanings)) after) :
    ∀ schema ∈ Parts.flat (messages.map (·.parts)), ∀ reference ∈ schema.references,
      after.Offers reference := by
  intro schema member reference mentioned
  obtain ⟨_, among, inside⟩ := mem_flatMap.mp member
  obtain ⟨message, listed, rfl⟩ := mem_map.mp among
  obtain ⟨request, response, errors⟩ := Message.forall_meanings.mp fun meaning told =>
    reads.offers.2 meaning (mem_flatMap.mpr ⟨message, listed, told⟩)
  rcases mem_append.mp inside with requested | rest
  · obtain ⟨field, parameter, rfl⟩ := mem_map.mp requested
    exact request field parameter reference mentioned
  · rcases mem_cons.mp rest with rfl | thrown
    · exact response reference mentioned
    · exact errors reference (mem_allReferences.mpr ⟨schema, thrown, mentioned⟩)

end Reading

theorem complete_of_readMembers {protocol scope} (plain : Json.Plain (.obj members))
    (read : readMembers .empty members = .ok (protocol, scope)) :
    protocol.Complete False scope.catalog ∧ scope = Scope.empty.extend scope.catalog := by
  obtain ⟨values, listed, messages, named, spaced, valued, typesRead, defined, present, messagesRead,
    documented, props⟩ := readMembers_ok read
  obtain ⟨schemas, schemasRead, isNamed⟩ := readTypes_ok_iff.mp typesRead
  have nothing : Scope.empty.Regular False := forall_mem_nil _
  have typesTidy := tidy_listOf plain (fun same => (Except.ok.inj same).symm) valued
  have messagesTidy := tidy_messagesOf plain present
  obtain ⟨_, gains⟩ := (readBranches_ok_iff.mp schemasRead).regular typesTidy nothing
  obtain ⟨sounds, more⟩ := readMessages_regular messagesRead messagesTidy (nothing.gains gains)
  obtain ⟨reads, entries, entered, messages, _⟩ := readMessages_reads messagesRead
  obtain ⟨definitions, extended, offered⟩ :=
    (readTypes_develops typesRead).trans reads.offers.1
  have typesOffered (type : Reference) (member : type ∈ protocol.types) : scope.Offers type := by
    obtain ⟨front, begun, _⟩ := readTypes_develops typesRead
    rw [defined, begun.drop_defined] at member
    exact reads.offers.1.offers (begun.offers_defined member)
  obtain ⟨gained, extendedAgain, each⟩ := gains.trans more
  cases extended.eq_extend
  cases Scope.extend_inj.mp extendedAgain.eq_extend
  have simple : protocol.name.simple.Clean := by
    rw [nameOf] at named
    split at named
    · rename_i found
      cases named
      exact Json.Tidy.text? plain found
    · cases named
  have space : protocol.name.space.Clean := by
    rw [spaced]
    cases found : members.text? "namespace" with
    | none => exact Text.clean_nil
    | some => exact Json.Tidy.text? plain found
  have distinct : (protocol.messages.map (·.name)).Nodup := by
    cases messagesTidy with
    | obj _ distinct =>
      rw [entered, map_map] at distinct
      rw [messages, map_map]
      exact distinct
  refine ⟨⟨⟨simple, space, documented ▸ clean_docOf plain,
    props ▸ custom_customProps plain _, sounds, distinct⟩, each, ?_, ?_, ?_⟩, rfl⟩
  · intro definition member reference mentioned
    exact Scope.holds_of_offers (offered definition member reference mentioned)
  · exact fun type member => Scope.holds_of_offers (typesOffered type member)
  · intro schema member reference mentioned
    exact Scope.holds_of_offers (offers_messageTypes reads schema member reference mentioned)

end Avro.Protocol
