import Avro.Proofs.Idl.Declarations
import Avro.Proofs.Idl.Imports

/-!
# Compiled sources

A source without imports gives definitions each of which refers to itself and to those before it,
and messages over all of them. Its text is read as it was written.
-/

set_option autoImplicit false

open List

namespace Avro

open Scope

open Json (Plain)

namespace Idl

/-- A protocol under construction whose types are the definitions of its scope. -/
structure Draft.Sound (draft : Draft) (definitions : List Definition) : Prop where
  scope : draft.session.scope = empty.extend definitions
  drafts : Drafts definitions
  messages : ∀ message ∈ draft.messages, message.Drafted (references 0 definitions)
  distinct : (draft.messages.map (·.name)).Nodup

section Declarations

variable {last : Token} {draft : Draft} {definitions : List Definition}

theorem Draft.Sound.tells (sound : draft.Sound definitions) :
    draft.session.scope.Tells (references 0 definitions) := by
  rw [sound.scope]
  exact tells_empty.extends_ (extends_extend .empty definitions)

theorem Draft.Sound.add (sound : draft.Sound definitions) {after : Scope}
    (adds : Adds (references 0 definitions) draft.session.scope after) :
    ∃ more, Draft.Sound { draft with session := { draft.session with scope := after } } more := by
  obtain ⟨definition, rfl, fresh, drafted⟩ := adds
  have length : draft.session.scope.catalog.length = definitions.length := by
    rw [sound.scope, length_extend]
    exact Nat.zero_add _
  have whole := references_snoc definitions definition
  refine ⟨definitions ++ [definition], ?_, .snoc sound.drafts ?_ ?_, ?_, sound.distinct⟩
  · rw [sound.scope, extend_append]
  · rw [sound.scope, Schema.names_extend] at fresh
    exact fun listed => fresh (mem_append_right _ listed)
  · rw [whole, ← length]
    exact drafted
  · intro message member
    rw [whole]
    exact (sound.messages message member).mono (subset_append_left _ _)

theorem Draft.Sound.declared (sound : draft.Sound definitions) {space tokens next}
    (valid : AllSound tokens) (ending : last.Sound)
    (read : DeclarationRead space draft last tokens next) : ∃ more, next.Sound more := by
  cases read with
  | @type annotations _ _ noted documented read =>
    have front : Front.Sound ⟨draft.session.scope, space, _, annotations.value⟩ :=
      ⟨clean_documented valid ending annotations.suffix documented, plain_readAnnotations valid noted⟩
    exact sound.add (read.adds (valid.past annotations.skip) ending front sound.tells)
  | @message annotations _ _ noted documented read =>
    have front : Front.Sound ⟨draft.session.scope, space, _, annotations.value⟩ :=
      ⟨clean_documented valid ending annotations.suffix documented, plain_readAnnotations valid noted⟩
    have drafted := read.drafted (valid.past annotations) ending front sound.tells
    refine ⟨definitions, sound.scope, sound.drafts,
      forall_mem_append.mpr ⟨sound.messages, forall_mem_singleton.mpr drafted⟩, ?_⟩
    rw [map_append, nodup_append]
    refine ⟨sound.distinct, pairwise_singleton _ _, ?_⟩
    rintro name earlier _ new rfl
    rw [mem_singleton.mp new] at earlier
    exact read.fresh earlier

theorem Draft.Sound.builds {start : Draft}
    (builds : Builds Text.Clean (fun _ => False) start draft) (sound : start.Sound definitions) :
    ∃ more, draft.Sound more := by
  induction builds with
  | here => exact ⟨definitions, sound⟩
  | declaration _ clean lexed within read ih =>
    obtain ⟨more, before⟩ := ih sound
    obtain ⟨valid, ending⟩ := lex_sound clean lexed
    exact before.declared (AllSound.part valid within) ending read
  | source _ imports | protocol _ imports | schema _ imports => exact imports.elim

end Declarations

/-! ## Protocols -/

structure ProtocolHead.Sound (head : ProtocolHead) : Prop where
  simple : head.name.simple.Clean
  space : head.name.space.Clean
  doc : head.doc.Clean
  props : Plain (.obj head.props)

theorem ProtocolHead.Sound.annotateProtocol {position : Position} {before after : ProtocolHead}
    {entry : Text × Json} (sound : before.Sound) (clean : entry.1.Clean) (value : Plain entry.2)
    (done : annotateProtocol position before entry = .ok after) : after.Sound := by
  obtain ⟨key, property⟩ := entry
  unfold Idl.annotateProtocol at done
  dsimp only at done
  split at done
  · split at done
    · cases done
      cases value with
      | str space => exact ⟨sound.simple, space, sound.doc, sound.props⟩
    · cases done
  · cases done
    exact ⟨sound.simple, sound.space, sound.doc, sound.props.set clean value⟩

private theorem readHead_sound {last : Token} {tokens result} (valid : AllSound tokens)
    (ending : last.Sound) (read : readHead last tokens = .ok result) : result.value.Sound := by
  obtain ⟨annotations, noted, read⟩ := bind_ok.mp read
  obtain ⟨keyword, found, read⟩ := bind_ok.mp read
  obtain ⟨name, _, read⟩ := bind_ok.mp read
  obtain ⟨_, allowed, read⟩ := bind_ok.mp read
  obtain ⟨head, annotated, read⟩ := bind_ok.mp read
  obtain ⟨opening, _, read⟩ := bind_ok.mp read
  cases read
  have documented : (if (peek last tokens).doc.isEmpty then keyword.value.doc
      else (peek last tokens).doc).Clean := by
    split
    · exact ((valid.past annotations).accepted found).doc
    · exact (sound_peek valid ending).doc
  cases plain_readAnnotations valid noted with
  | obj clean _ each =>
    have whole : head.Sound := foldlM_keeps
      ⟨Name.clean_of_isLegal (require_ok allowed), Text.clean_nil, documented,
        Json.tidy_emptyObject⟩ annotated fun entry among _ _ kept =>
          kept.annotateProtocol (clean entry among) (each entry among)
    exact whole

private theorem drafted_of_compile {Failure : Type} {path source : Text} {protocol catalog}
    (valid : source.Clean)
    (done : compile (none : Option (Importer Failure)) path source = .ok (protocol, catalog)) :
    protocol.Drafted catalog := by
  obtain ⟨session, types, rfl, builds⟩ :=
    builds_compile (fun _ wrong => by cases wrong) valid done
  have start : Draft.Sound ⟨⟨.empty, [Path.clean path]⟩, []⟩ [] :=
    ⟨(extend_nil .empty).symm, .nil, forall_mem_nil _, nodup_nil⟩
  obtain ⟨definitions, whole⟩ := start.builds builds
  have scope : session.scope = empty.extend definitions := whole.scope
  rw [scope] at types ⊢
  have catalog : (empty.extend definitions).catalog = definitions := nil_append _
  rw [catalog]
  obtain ⟨⟨read, _⟩, sourceRead, same⟩ := bind_ok.mp done
  obtain ⟨tokens, last, head, _, lexed, headed, _, rfl, _⟩ := readSource_ok sourceRead
  obtain ⟨rfl, _⟩ := Prod.mk.inj (Except.ok.inj same)
  obtain ⟨sound, ending⟩ : AllSound tokens ∧ last.Sound := lex_sound valid lexed
  have top := readHead_sound sound ending headed
  exact ⟨top.simple, top.space, top.doc, top.props, whole.drafts,
    types.trans (extends_extend .empty definitions).defined, whole.messages, whole.distinct⟩

/-- The protocol that a source is compiled to is accepted in its written form if its mentions are
faithful, provided that the names of its types are legal and no property has a reserved key. Where it
is accepted, it has the same types in the same order and is written with the same text again. -/
theorem readDocument_of_compile {Failure : Type} {path source : Text} {protocol : Protocol}
    {catalog : Catalog} (valid : source.Clean)
    (done : compile (none : Option (Importer Failure)) path source = .ok (protocol, catalog))
    (legal : LegalNames protocol.types) (unreserved : protocol.Unreserved catalog)
    (layout : Json.Layout) :
    ((∀ mention, protocol.Mentions catalog mention → mention.Faithful) →
      Protocol.readDocument .empty (protocol.render catalog layout) =
        .ok (protocol.asRead, empty.extend (catalog.map Definition.asRead))) ∧
    ∀ again after,
      Protocol.readDocument .empty (protocol.render catalog layout) = .ok (again, after) →
      again.types.map (·.name.text) = protocol.types.map (·.name.text) ∧
        again.render after.catalog layout = protocol.render catalog layout := by
  have drafted := drafted_of_compile valid done
  refine ⟨fun faithful => drafted.readDocument_render legal unreserved faithful layout, ?_⟩
  intro again after reread
  obtain ⟨text, names⟩ := (drafted.complete legal unreserved).render_restated reread
  exact ⟨names.trans drafted.typeTrees_reverse, text⟩

/-! A protocol with an error and a message that throws it. -/

def failing : Text := "protocol P{error E{}void f()throws E;}"

def failure : Definition := ⟨⟨[], "E"⟩, [], none, [], .record true []⟩

def failingMessage : Message :=
  ⟨"f", [], [], [], .plain .null, [.named ⟨0, failure.name⟩], false⟩

def failingProtocol : Protocol := ⟨⟨[], "P"⟩, [], [], [⟨0, failure.name⟩], [failingMessage]⟩

section Failing

set_option maxRecDepth 100000 in
theorem compile_failing : compile (none : Option (Importer Unit)) [] failing =
    .ok (failingProtocol, [failure]) := by
  with_unfolding_all rfl

private theorem writes_failing : ∃ types trees,
    failingProtocol.Writes [failure] failingProtocol.types types trees failingProtocol.types [] []
      [⟨[], ⟨0, failure.name⟩, ["E"]⟩] := by
  have single : Schema.Writes [failure] [] (.schema (.named ⟨0, failure.name⟩)) []
      (.one (Schema.definitionTree [] failure [])) [⟨0, failure.name⟩] [] :=
    .definition not_mem_nil rfl rfl .noFields
  refine ⟨_, _, ?_, ?_, rfl, rfl, fun tree member => ?_⟩
  · exact .moreSchemas single .noSchemas
  · exact .moreSchemas (.primitive _ _)
      (.moreSchemas (.mention ⟨failure, rfl, rfl⟩ (by decide)) .noSchemas)
  · exact ⟨_, mem_singleton.mp member⟩

theorem unreserved_failing : failingProtocol.Unreserved [failure] where
  free := forall_mem_nil _
  messages := forall_mem_singleton.mpr
    ⟨forall_mem_nil _,
      forall_mem_nil _,
      .primitive (forall_mem_nil _),
      forall_mem_singleton.mpr .named⟩
  types := forall_mem_singleton.mpr
    ⟨forall_mem_nil _,
      forall_mem_nil _⟩

/-- The message throws the error by its name, which is read as the error. -/
theorem readDocument_of_compile_failing :
    compile (none : Option (Importer Unit)) [] failing = .ok (failingProtocol, [failure]) ∧
      Protocol.readDocument .empty (failingProtocol.render [failure] .spacious) =
        .ok (failingProtocol.asRead, empty.extend [failure.asRead]) := by
  refine ⟨compile_failing, (readDocument_of_compile ?_ compile_failing ?_ unreserved_failing
    .spacious).1 fun mention mentioned => ?_⟩
  · exact Text.clean_ofString _
  · exact forall_mem_singleton.mpr ⟨by decide, by decide⟩
  · obtain ⟨types, trees, writes⟩ := writes_failing
    cases mem_singleton.mp (writes.mentions_iff.mp mentioned)
    exact ⟨by decide, fun _ inside => absurd rfl inside⟩

end Failing

end Idl

end Avro
