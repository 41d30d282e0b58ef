import Avro.Proofs.Protocol.Reading
import Avro.Proofs.Schema.Proper

/-!
# Well-formed protocols

What is read in a scope whose names stand for well-formed schemas is well-formed.
-/

set_option autoImplicit false

open List

namespace Avro

variable {after scope : Scope} {text : Text} {message : Message}

/-- A message over well-formed schemas. One-way messages have nothing to answer. -/
structure Message.WellFormed (catalog : Catalog) (message : Message) : Prop where
  request : ∀ parameter ∈ message.request, parameter.type.WellFormed catalog
  response : message.response.WellFormed catalog
  errors : ∀ error ∈ message.errors, error.WellFormed catalog
  oneWay : message.oneWay → message.response.isNull ∧ message.errors = []

/-- A protocol over well-formed schemas. No two of its types have the same full name. -/
structure Protocol.WellFormed (catalog : Catalog) (protocol : Protocol) : Prop where
  types : ∀ type ∈ protocol.types, (Schema.named type).WellFormed catalog
  distinct : (protocol.types.map (·.name.text)).Nodup
  messages : ∀ message ∈ protocol.messages, message.WellFormed catalog

structure Scope.WellFormed (scope : Scope) : Prop where
  types : ∀ type ∈ scope.defined, (Schema.named type).WellFormed scope.catalog
  distinct : (scope.defined.map (·.name.text)).Nodup

structure Message.Proper (allowed : Reference → Prop) (message : Message) : Prop where
  meanings : ∀ meaning ∈ message.meanings, meaning.Proper allowed
  oneWay : message.oneWay → message.response.isNull ∧ message.errors = []

theorem Message.Proper.mono {allowed more} (proper : message.Proper allowed)
    (within : ∀ reference, allowed reference → more reference) : message.Proper more :=
  ⟨fun meaning member => (proper.meanings meaning member).mono within, proper.oneWay⟩

section Start

variable {catalog : Catalog} {known : List (Text × Schema)} {after : Scope}
  {definitions : List Definition} (grows : (Scope.start catalog known).Grows after definitions)
  (formed : ∀ entry ∈ known, entry.2.WellFormed catalog)

include grows

theorem Scope.Grows.defined_start : after.defined = references catalog.length definitions :=
  grows.extends_.defined

theorem Scope.Grows.distinct_start : (definitions.map (·.name.text)).Nodup := by
  have distinct := grows.distinct nodup_nil
  rw [grows.extends_.names] at distinct
  exact distinct

include formed

theorem Schema.Proper.wellFormed_start {schema : Schema} (proper : schema.Proper after.Offers) :
    schema.WellFormed after.catalog := by
  refine proper.wellFormed grows fun entry member => formed entry ?_
  simpa [Scope.start] using member

theorem Message.Proper.wellFormed (proper : message.Proper after.Offers) :
    message.WellFormed after.catalog := by
  obtain ⟨request, response, errors⟩ := Message.forall_meanings.mp proper.meanings
  refine ⟨fun parameter member => ?_, ?_, fun error member => ?_, proper.oneWay⟩
  · exact Schema.Proper.wellFormed_start grows formed (request parameter member).type
  · exact Schema.Proper.wellFormed_start grows formed response
  · exact Schema.Proper.wellFormed_start grows formed (errors error member)

theorem Scope.Grows.wellFormed : after.WellFormed where
  types type member := by
    rw [grows.defined_start] at member
    exact (Schema.Proper.named (grows.extends_.offers_defined member)).wellFormed_start grows formed
  distinct := by
    rw [grows.defined_start, map_text_references]
    exact grows.distinct_start

end Start

theorem Schema.ReadsAll.proper {parts meanings} (reads : ReadsAll scope parts meanings after)
    (proper : scope.Proper) :
    (∃ definitions, scope.Grows after definitions) ∧
      ∀ meaning ∈ meanings, meaning.Proper after.Offers := by
  induction reads with
  | nil => exact ⟨⟨_, .refl _⟩, forall_mem_nil _⟩
  | cons first _ ih =>
    obtain ⟨⟨_, grows⟩, here⟩ := first.proper proper
    obtain ⟨⟨_, growsOn⟩, later⟩ := ih (proper.extends_ grows.extends_)
    refine ⟨⟨_, grows.trans growsOn⟩, forall_mem_cons.mpr ⟨?_, later⟩⟩
    exact Meaning.Proper.mono here fun _ => growsOn.extends_.offers

namespace Protocol

private theorem readMessages_proper {space values messages} (proper : scope.Proper)
    (read : readMessages space scope values = .ok (messages, after)) :
    (∃ definitions, scope.Grows after definitions) ∧
      ∀ message ∈ messages, message.Proper after.Offers := by
  obtain ⟨reads, _, _, rfl, each⟩ := readMessages_reads read
  obtain ⟨grows, sound⟩ := reads.proper proper
  refine ⟨grows, fun message member => ⟨fun meaning among => ?_, ?_⟩⟩
  · exact sound meaning (mem_flatMap.mpr ⟨message, member, among⟩)
  · obtain ⟨entry, among, rfl⟩ := mem_map.mp member
    obtain ⟨_, _, done⟩ := each entry among
    obtain ⟨_, _, _, _, _, _, _, _, _, _, _, _, oneWay, _⟩ := readMessage_ok done
    exact oneWay

theorem readDocument_proper {protocol : Protocol} (proper : scope.Proper)
    (read : readDocument scope text = .ok (protocol, after)) :
    ∃ listed more, scope.Grows after (listed ++ more) ∧
      protocol.types = Scope.references scope.catalog.length listed ∧
      ∀ message ∈ protocol.messages, message.Proper after.Offers := by
  unfold readDocument at read
  split at read
  · cases read
  · obtain ⟨_, _, _, _, _, _, typesRead, types, _, messagesRead, _⟩ := readMembers_ok read
    obtain ⟨_, branches, _⟩ := readTypes_ok_iff.mp typesRead
    obtain ⟨⟨listed, first⟩, _⟩ := (Schema.readBranches_ok_iff.mp branches).proper proper
    obtain ⟨⟨more, second⟩, messages⟩ :=
      readMessages_proper (proper.extends_ first.extends_) messagesRead
    refine ⟨listed, more, first.trans second, ?_, messages⟩
    rw [types, first.extends_.drop_defined]
  · cases read

theorem readDocument_wellFormed {catalog known protocol}
    (formed : ∀ entry ∈ known, entry.2.WellFormed catalog)
    (read : readDocument (.start catalog known) text = .ok (protocol, after)) :
    protocol.WellFormed after.catalog ∧ after.WellFormed := by
  obtain ⟨listed, more, grows, types, messages⟩ :=
    readDocument_proper (Scope.proper_start formed) read
  have whole := grows.wellFormed formed
  refine ⟨⟨fun type member => whole.types type ?_, ?_, fun message member => ?_⟩, whole⟩
  · rw [grows.defined_start, Scope.references_append]
    rw [types] at member
    exact mem_append_left _ member
  · have distinct := grows.distinct_start
    rw [map_append] at distinct
    rw [types, Scope.map_text_references]
    exact (nodup_append.mp distinct).1
  · exact (messages message member).wellFormed grows formed

end Protocol

namespace Schema

theorem readDocument_proper {schema : Schema} (proper : scope.Proper)
    (read : readDocument scope text = .ok (schema, after)) :
    (∃ definitions, scope.Grows after definitions) ∧ schema.Proper after.Offers := by
  unfold readDocument at read
  split at read
  · cases read
  · exact (read_ok_iff.mp read).proper proper

theorem readDocument_wellFormed {catalog known schema}
    (formed : ∀ entry ∈ known, entry.2.WellFormed catalog)
    (read : readDocument (.start catalog known) text = .ok (schema, after)) :
    schema.WellFormed after.catalog ∧ after.WellFormed := by
  obtain ⟨⟨_, grows⟩, proper⟩ := readDocument_proper (Scope.proper_start formed) read
  exact ⟨proper.wellFormed_start grows formed, grows.wellFormed formed⟩

end Schema

end Avro
