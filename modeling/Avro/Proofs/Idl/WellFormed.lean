import Avro.Proofs.Idl.Compiled
import Avro.Proofs.Protocol.Proper

/-!
# Accepted documents are well-formed

A source and all that it imports share a scope, and each step goes on from the scope of the step
before. So whatever a source is compiled to is well-formed.
-/

set_option autoImplicit false

open List

namespace Avro

namespace Idl

variable {Failure : Type}

/-! ## Types and fields -/

section Types

variable {site : Site} {last : Token} {tokens : List Token}

private theorem proper_logicalTypes {allowed} : ∀ entry ∈ logicalTypes, entry.2.Proper allowed := by
  intro entry member
  simp only [logicalTypes, mem_cons, not_mem_nil, or_false] at member
  rcases member with rfl | rfl | rfl | rfl
  all_goals exact .primitive _ _

theorem keeps_proper (proper : site.scope.Proper) :
    site.Keeps (Schema.Proper site.scope.Offers) where
  plain kind := .primitive kind []
  logical := proper_logicalTypes
  decimal _ _ := .primitive .bytes _
  resolved found := by
    obtain ⟨_, within⟩ := Site.resolve?_within found
    exact proper.resolve? within
  container := .container _ []
  union := Schema.proper_makeUnion

private theorem annotateField_keeps {position before after entry}
    (done : annotateField position before entry = .ok after) :
    after.name = before.name ∧ after.type = before.type := by
  unfold annotateField at done
  dsimp only at done
  split at done
  · split at done
    · cases done
      exact ⟨rfl, rfl⟩
    · cases done
  · split at done
    · split at done
      · cases done
        exact ⟨rfl, rfl⟩
      · cases done
    · cases done
      exact ⟨rfl, rfl⟩

theorem FieldRead.proper {field : Field} (read : FieldRead site last tokens field)
    (proper : site.scope.Proper) : field.Proper site.scope.Offers := by
  obtain @⟨front, _, doc, _, _, _, typed, _, _, read, rfl⟩ := read
  obtain ⟨_, name, field, _, _, legal, annotated, _, same⟩ := readVariable_ok read
  have type := ((keeps_proper proper).readType typed).withProps front.value
  have plain (inherited : Members) : Field.Proper site.scope.Offers
      ⟨name.value.text, _, doc, none, .ascending, none, inherited⟩ := ⟨legal, type⟩
  have whole : field.Proper site.scope.Offers := by
    refine foldlM_keeps (plain _) annotated ?_
    intro entry _ before after kept done
    obtain ⟨sameName, sameType⟩ := annotateField_keeps done
    exact ⟨sameName ▸ kept.legal, sameType ▸ kept.type⟩
  rw [same]
  exact ⟨whole.legal, whole.type⟩

end Types

/-! ## Declarations -/

section Declarations

variable {front : Front} {last : Token} {tokens : List Token}

theorem BodyRead.proper {site : Site} {body : Body} (read : BodyRead site last tokens body)
    (proper : site.scope.Proper) :
    body.Formed ∧ ∀ field ∈ body.fields, field.type.Proper site.scope.Offers := by
  cases read with
  | @record fields _ distinct each =>
    have fields : ∀ field ∈ fields, field.Proper site.scope.Offers := by
      intro field member
      obtain ⟨_, _, read⟩ := each field member
      exact read.proper proper
    exact ⟨Body.formed_record fields distinct, fun field member => (fields field member).type⟩
  | enum legal distinct among => exact ⟨⟨legal, distinct, among⟩, forall_mem_nil _⟩
  | fixed small => exact ⟨⟨Int.natCast_nonneg _, small⟩, forall_mem_nil _⟩

theorem TypeRead.grows {after : Scope} (read : TypeRead front last tokens after)
    (proper : front.scope.Proper) : ∃ definition, front.scope.Grows after [definition] := by
  obtain @⟨_, _, body, definition, _, legal, fresh, read⟩ := read
  have extended := Scope.extends_extend front.scope [definition]
  -- the type is in scope for its own fields, with none so far
  obtain ⟨formed, fields⟩ := read.proper (proper.extends_ extended)
  have grows := (Scope.Grows.install (Scope.define_ok_iff.mpr ⟨fresh, rfl, extended⟩) legal
    (.refl _) formed fields).1
  rw [Scope.install_extend] at grows
  exact ⟨_, grows⟩

theorem MessageRead.proper {messages message}
    (read : MessageRead front messages last tokens message) (proper : front.scope.Proper) :
    message.Proper front.scope.Offers := by
  obtain @⟨_, _, _, _, _, responded, _, _, requested, ended⟩ := read
  have keeps : Site.Keeps (front.site front.scope front.protocolSpace)
      (Schema.Proper front.scope.Offers) := keeps_proper proper
  obtain ⟨errors, silent⟩ := keeps.passEnding ended
  refine ⟨Message.forall_meanings.mpr ⟨fun field member => ?_, keeps.readResponse responded, errors⟩,
    silent⟩
  obtain ⟨_, _, read⟩ := requested field member
  exact read.proper proper

end Declarations

/-! ## Sources -/

/-- A protocol under construction that goes on from a scope. -/
structure Draft.Continues (start : Scope) (draft : Draft) : Prop where
  grows : ∃ definitions, start.Grows draft.session.scope definitions
  messages : ∀ message ∈ draft.messages, message.Proper draft.session.scope.Offers

section Continuing

variable {start : Scope} {draft : Draft}

theorem Draft.Continues.proper (continues : draft.Continues start) (proper : start.Proper) :
    draft.session.scope.Proper := by
  obtain ⟨_, grows⟩ := continues.grows
  exact proper.extends_ grows.extends_

theorem Draft.Continues.add (continues : draft.Continues start) {session : Session} {messages}
    (grows : ∃ definitions, draft.session.scope.Grows session.scope definitions)
    (new : ∀ message ∈ messages, message.Proper session.scope.Offers) :
    Draft.Continues start ⟨session, draft.messages ++ messages⟩ := by
  obtain ⟨_, before⟩ := continues.grows
  obtain ⟨_, next⟩ := grows
  refine ⟨⟨_, before.trans next⟩, forall_mem_append.mpr ⟨fun message member => ?_, new⟩⟩
  exact (continues.messages message member).mono fun _ => next.extends_.offers

theorem Draft.Continues.define (continues : draft.Continues start) {session : Session}
    (grows : ∃ definitions, draft.session.scope.Grows session.scope definitions) :
    Draft.Continues start ⟨session, draft.messages⟩ := by
  have defined := continues.add grows (forall_mem_nil _)
  rwa [append_nil] at defined

theorem Builds.continues {Reads Imports start draft} (builds : Builds Reads Imports start draft)
    (proper : start.session.scope.Proper)
    (messages : ∀ message ∈ start.messages, message.Proper start.session.scope.Offers) :
    draft.Continues start.session.scope := by
  induction builds with
  | here => exact ⟨⟨_, .refl _⟩, messages⟩
  | declaration _ _ _ _ read ih =>
    have before := ih proper messages
    have inside := before.proper proper
    cases read with
    | type _ _ read =>
      obtain ⟨_, grows⟩ := read.grows inside
      exact before.define ⟨_, grows⟩
    | message _ _ read =>
      exact before.add ⟨_, .refl _⟩ (forall_mem_singleton.mpr (read.proper inside))
  | source _ _ _ ih within =>
    have before := ih proper messages
    have within := within (before.proper proper) (forall_mem_nil _)
    exact before.add within.grows within.messages
  | protocol _ _ read ih =>
    have before := ih proper messages
    obtain ⟨_, _, grows, _, messages⟩ := Protocol.readDocument_proper (before.proper proper) read
    exact before.add ⟨_, grows⟩ messages
  | schema _ _ read ih =>
    have before := ih proper messages
    exact before.define (Schema.readDocument_proper (before.proper proper) read).1

end Continuing

theorem compile_wellFormed {importer : Option (Importer Failure)} {path source : Text}
    {protocol : Protocol} {catalog : Catalog}
    (compiled : compile importer path source = .ok (protocol, catalog)) :
    protocol.WellFormed catalog := by
  obtain ⟨session, types, rfl, builds⟩ :=
    builds_compile (fun _ _ event _ => event.permitted_always) trivial compiled
  have none : ∀ entry ∈ ([] : List (Text × Schema)), entry.2.WellFormed [] := forall_mem_nil _
  have continues := builds.continues (Scope.proper_start none) (forall_mem_nil _)
  obtain ⟨_, grows⟩ := continues.grows
  have whole := grows.wellFormed none
  exact ⟨types ▸ whole.types, types ▸ whole.distinct, fun message member =>
    (continues.messages message member).wellFormed grows none⟩

end Idl

/-- Every document that is accepted yields well-formed schemas only, if the schemas that it could
refer to were well-formed; a compiled source can refer only to what it imports. -/
theorem accepted_wellFormed :
    (∀ (catalog : Catalog) (known : List (Text × Schema)) (text : Text) (schema : Schema)
      (after : Scope), (∀ entry ∈ known, entry.2.WellFormed catalog) →
      Schema.readDocument (.start catalog known) text = .ok (schema, after) →
      schema.WellFormed after.catalog ∧ after.WellFormed) ∧
    (∀ (catalog : Catalog) (known : List (Text × Schema)) (text : Text) (protocol : Protocol)
      (after : Scope), (∀ entry ∈ known, entry.2.WellFormed catalog) →
      Protocol.readDocument (.start catalog known) text = .ok (protocol, after) →
      protocol.WellFormed after.catalog ∧ after.WellFormed) ∧
    ∀ (Failure : Type) (importer : Option (Idl.Importer Failure)) (path source : Text)
      (protocol : Protocol) (catalog : Catalog),
      Idl.compile importer path source = .ok (protocol, catalog) →
      protocol.WellFormed catalog := by
  refine ⟨?_, ?_, ?_⟩
  · intro catalog known text schema after formed read
    exact Schema.readDocument_wellFormed formed read
  · intro catalog known text protocol after formed read
    exact Protocol.readDocument_wellFormed formed read
  · intro Failure importer path source protocol catalog compiled
    exact Idl.compile_wellFormed compiled

section Chain

open Schema (chain chainName chainTree)

set_option maxRecDepth 100000 in
/-- A second document that refers to the type of the first. -/
private theorem readDocument_chainLink :
    Schema.readDocument (.start [chain] [(chainName.text, .named ⟨0, chainName⟩)])
        ((Json.arr [.str "null", .str "a.int"]).render .compact) =
      .ok (.union [.plain .null, .named ⟨0, chainName⟩] [],
        .start [chain] [(chainName.text, .named ⟨0, chainName⟩)]) := by
  with_unfolding_all rfl

theorem accepted_wellFormed_chain :
    Schema.WellFormed [chain] (.named ⟨0, chainName⟩) ∧
      Schema.WellFormed [chain] (.union [.plain .null, .named ⟨0, chainName⟩] []) ∧
      (chains (.named ⟨0, chainName⟩)).WellFormed [chain] ∧
      Idl.failingProtocol.WellFormed [Idl.failure] := by
  obtain ⟨schemas, protocols, sources⟩ := accepted_wellFormed
  have known : Schema.WellFormed [chain] (.named ⟨0, chainName⟩) :=
    (schemas [] [] _ _ _ (forall_mem_nil _) Schema.readDocument_chainTree).1
  have linked := schemas [chain] _ _ _ _ (forall_mem_singleton.mpr known)
    readDocument_chainLink
  have protocol := protocols [] [] _ _ _ (forall_mem_nil _) readDocument_chainsTree
  exact ⟨known, linked.1, protocol.1, sources _ _ _ _ _ _ Idl.compile_failing⟩

end Chain

end Avro
