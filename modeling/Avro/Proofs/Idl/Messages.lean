import Avro.Proofs.Idl.Declarations
import Avro.Proofs.Idl.Imports

/-!
# The messages of a compiled source

The messages of a source have distinct names exactly if no import, in the source or in what it
imports, takes in one that is there already. Of two with one name the first is lost.
-/

set_option autoImplicit false

open List

namespace Avro

open Members

/-! ## Written messages -/

namespace Protocol

open Schema (Seen textMember fieldTree partsWith namedTree)

/-- The members of a written message hold its parts. What a message does not have is not there,
unless a property stands in for it. -/
structure HoldsMessage (message : Message) (parts : Parts Json) (entry : Members) : Prop where
  request : entry.get? "request" =
    some (.arr (List.zipWith fieldTree message.request parts.request))
  response : entry.get? "response" = some parts.response
  errors : message.errors ≠ [] → entry.get? "errors" = some (.arr parts.errors)
  noErrors : message.errors = [] → entry.has "errors" = message.props.has "errors"
  oneWay : message.oneWay = true → entry.get? "one-way" = some (.bool true)
  noOneWay : message.oneWay = false → entry.has "one-way" = message.props.has "one-way"

section Writing

variable (catalog : Catalog) (space : Text)

private theorem messageTree_holds (message : Message) (seen : Seen) :
    ∃ entry, (messageTree catalog space message seen).1 = .obj entry ∧
      HoldsMessage message
        (partsWith (namedTree catalog catalog.length) space message.parts seen).1 entry := by
  refine ⟨_, rfl, ?_⟩
  have others (key : String) (other : Text.ofString key ≠ "doc") :
      ((textMember "doc" message.doc).setAll message.props).has key = message.props.has key := by
    have absent : (textMember "doc" message.doc).has key = false :=
      has_eq_false_iff.mpr fun member => other (mem_textMember member)
    rw [has_setAll, absent, Bool.false_or]
  have noErrors := others "errors" (by decide)
  have noOneWay := others "one-way" (by decide)
  rw [Schema.fieldsWith_eq]
  cases errors : message.errors <;> cases oneWay : message.oneWay <;> constructor <;>
    simp [get?_set, has_set, partsWith, Message.parts, errors, oneWay,
      noErrors, noOneWay]

private theorem nodup_messageMembers {messages} {before : Members} {seen}
    (distinct : (before.map Prod.fst).Nodup) :
    ((messageMembers catalog space messages before seen).map Prod.fst).Nodup := by
  induction messages generalizing before seen with
  | nil => exact distinct
  | cons _ _ ih => exact ih (nodup_set distinct _ _)

private theorem map_fst_messageMembers {messages : List Message} {before : Members} {seen : Seen}
    (distinct : (before.map Prod.fst ++ messages.map (·.name)).Nodup) :
    (messageMembers catalog space messages before seen).map Prod.fst =
      before.map Prod.fst ++ messages.map (·.name) := by
  induction messages generalizing before seen with
  | nil => exact (append_nil _).symm
  | cons message _ ih =>
    have keys (tree : Json) : (before.set message.name tree).map Prod.fst =
        before.map Prod.fst ++ [message.name] := by
      have absent := (nodup_append.mp distinct).2.2
      rw [map_fst_set, if_neg fun present => absent _ present _ mem_cons_self rfl]
    rw [messageMembers, ih, keys, append_assoc, singleton_append, map_cons]
    rwa [keys, append_assoc, singleton_append]

/-- Of several messages with one name the last is written. -/
private theorem get?_messageMembers {earlier later : List Message} {message : Message} {before seen}
    (last : message.name ∉ later.map (·.name)) :
    ∃ written, (messageMembers catalog space (earlier ++ message :: later) before seen).get?
      message.name = some (messageTree catalog space message written).1 := by
  have kept (value : Json) : ∀ (messages : List Message) (before : Members) (seen : Seen),
      message.name ∉ messages.map (·.name) → before.get? message.name = some value →
      (messageMembers catalog space messages before seen).get? message.name = some value := by
    intro messages
    induction messages with
    | nil => exact fun _ _ _ found => found
    | cons _ _ ih =>
      intro before seen absent found
      rw [map_cons, mem_cons, not_or] at absent
      refine ih _ _ absent.2 ?_
      rw [get?_set, if_neg (Ne.symm absent.1), found]
  induction earlier generalizing before seen with
  | nil =>
    refine ⟨seen, kept _ later _ _ last ?_⟩
    exact (get?_set _ _ _ _).trans (if_pos rfl)
  | cons _ _ ih => exact ih

end Writing

private theorem nodup_of_readDocument {scope after text protocol}
    (read : readDocument scope text = .ok (protocol, after)) :
    (protocol.messages.map (·.name)).Nodup := by
  unfold readDocument at read
  split at read
  · cases read
  · rename_i members decoded
    obtain ⟨_, _, _, _, _, _, _, _, present, messagesRead, _⟩ := readMembers_ok read
    obtain ⟨_, _, rfl, same, _⟩ := readMessages_reads messagesRead
    rw [same, map_map]
    cases tidy_messagesOf (Json.plain_of_decode decoded) present with
    | obj _ distinct =>
      rw [map_map] at distinct
      exact distinct
  · cases read

end Protocol

/-! ## Messages that imports take in -/

namespace Idl

/-- An import takes in messages, next to those that are there. -/
structure Taking where
  present : List Text
  brought : List Text

/-- No message that is taken in has the name of one that is there. -/
def Taking.Apart (taking : Taking) : Prop := ∀ name ∈ taking.brought, name ∉ taking.present

def Draft.names (draft : Draft) : List Text := draft.messages.map (·.name)

section Takings

variable {Failure : Type}

def followTakings (importer : Option (Importer Failure)) (readSource : ReadSource Failure)
    (readTakings : Session → Text → Text → List Taking) (path : Text) (draft : Draft)
    (kind : ImportKind) (reference : Text) : List Taking :=
  match importer with
  | none => []
  | some importer =>
    match importer.fetch kind reference path with
    | .error _ => []
    | .ok document =>
      let key := Path.clean document.path
      if key ∈ draft.session.imported then []
      else
        let session := { draft.session with imported := key :: draft.session.imported }
        match includeDocument readSource ⟨session, []⟩ kind document with
        | .error _ => []
        | .ok taken => ⟨draft.names, taken.names⟩ ::
          if kind = .idl then readTakings session document.path document.content else []

/-- What the imports of a source take in, with those of the sources that it imports. -/
def sourceTakings (importer : Option (Importer Failure)) :
    Nat → Session → Text → Text → List Taking
  | 0, _, _, _ => []
  | depth + 1, session, path, source =>
    match lex source with
    | .error _ => []
    | .ok (tokens, last) =>
      match readHead last tokens with
      | .error _ => []
      | .ok head =>
        let inner := readSource importer depth
        declarationsLog (follow importer inner path)
          (followTakings importer inner (sourceTakings importer depth) path) head.value.name.space
          last ⟨session, []⟩ head.rest

def compileTakings (importer : Option (Importer Failure)) (path source : Text) : List Taking :=
  sourceTakings importer (1 + importer.elim 0 (·.limit)) ⟨.start [] [], [Path.clean path]⟩ path
    source

theorem nodup_append_iff {present brought : List Text} : (present ++ brought).Nodup ↔
    present.Nodup ∧ brought.Nodup ∧ Taking.Apart ⟨present, brought⟩ := by
  rw [nodup_append]
  refine and_congr_right fun _ => and_congr_right fun _ => ⟨?_, ?_⟩
  · exact fun apart name new old => apart name old name new rfl
  · exact fun apart name old other new same => apart other new (same ▸ old)

private theorem readDeclaration_names {space draft last tokens declared}
    (read : readDeclaration space draft last tokens = .ok declared) :
    declared.value.names.Nodup ↔ draft.names.Nodup := by
  have found := declarationRead_readDeclaration read
  generalize declared.value = next at found
  cases found with
  | type => rfl
  | @message _ _ message _ _ found =>
    have apart : Taking.Apart ⟨draft.names, [message.name]⟩ :=
      forall_mem_singleton.mpr found.fresh
    rw [Draft.names, map_append]
    exact nodup_append_iff.trans (and_iff_left ⟨pairwise_singleton _ _, apart⟩)

def Accounts (readSource : ReadSource Failure)
    (readTakings : Session → Text → Text → List Taking) : Prop :=
  ∀ {session path source protocol after}, readSource session path source = .ok (protocol, after) →
    ((protocol.messages.map (·.name)).Nodup ↔
      ∀ taking ∈ readTakings session path source, taking.Apart)

variable {readSource : ReadSource Failure} {readTakings : Session → Text → Text → List Taking}

private theorem includeDocument_takings (sources : Accounts readSource readTakings)
    {session : Session} {messages : List Message} {kind : ImportKind} {document : Imported}
    {after : Draft}
    (included : includeDocument readSource ⟨session, messages⟩ kind document = .ok after) :
    ∃ taken, includeDocument readSource ⟨session, []⟩ kind document = .ok taken ∧
      after.names = messages.map (·.name) ++ taken.names ∧
      (taken.names.Nodup ↔ ∀ taking ∈ (if kind = .idl then
        readTakings session document.path document.content else []), taking.Apart) := by
  cases kind with
  | idl =>
    obtain ⟨⟨protocol, session⟩, read, same⟩ := bind_ok.mp included
    cases same
    exact ⟨_, bind_ok.mpr ⟨_, read, rfl⟩, map_append, sources read⟩
  | protocol =>
    dsimp only [includeDocument] at included ⊢
    split at included
    · cases included
    · rename_i read
      cases included
      refine ⟨_, rfl, map_append, iff_of_true ?_ (forall_mem_nil _)⟩
      exact Protocol.nodup_of_readDocument read
  | schema =>
    dsimp only [includeDocument] at included ⊢
    split at included
    · cases included
    · rename_i read
      cases included
      exact ⟨_, rfl, (append_nil _).symm, iff_of_true nodup_nil (forall_mem_nil _)⟩

private theorem follow_takings {importer} (sources : Accounts readSource readTakings)
    {path reference : Text} {draft after : Draft} {kind : ImportKind}
    (followed : follow importer readSource path draft kind reference = .ok after) :
    after.names.Nodup ↔ draft.names.Nodup ∧
      ∀ taking ∈ followTakings importer readSource readTakings path draft kind reference,
        taking.Apart := by
  unfold follow at followed
  split at followed
  · cases followed
  · rename_i importer
    split at followed
    · cases followed
    · rename_i document fetched
      dsimp only [followTakings]
      rw [fetched]
      dsimp only at followed ⊢
      split at followed
      · rename_i known
        cases followed
        rw [if_pos known]
        exact (and_iff_left (forall_mem_nil _)).symm
      · rename_i new
        obtain ⟨taken, includes, names, inside⟩ :=
          includeDocument_takings sources (mapError_ok.mp followed)
        rw [if_neg new, includes, names]
        dsimp only
        rw [nodup_append_iff, forall_mem_cons, inside, and_comm (a := Taking.Apart _)]
        rfl

private theorem readDeclarations_takings
    {followImport : Draft → ImportKind → Text → Except (Error Failure) Draft}
    {takings : Draft → ImportKind → Text → List Taking}
    (imports : ∀ {draft kind reference after}, followImport draft kind reference = .ok after →
      (after.names.Nodup ↔ draft.names.Nodup ∧
        ∀ taking ∈ takings draft kind reference, taking.Apart))
    {path space name : Text} {last : Token} {draft result : Draft} {tokens rest : List Token}
    (read : readDeclarations followImport path space name last draft tokens = .ok (result, rest)) :
    result.names.Nodup ↔ draft.names.Nodup ∧
      ∀ taking ∈ declarationsLog followImport takings space last draft tokens,
        taking.Apart := by
  fun_induction readDeclarations followImport path space name last draft tokens with
  | case1 | case3 | case4 | case6 => cases read
  | case2 draft token rest closing =>
    cases read
    simp [declarationsLog, closing]
  | case5 draft token rest open_ keyword statement found next followed ih =>
    rw [declarationsLog, if_neg open_, if_pos keyword, found]
    dsimp only
    rw [followed, forall_mem_append, ih read, imports followed, and_assoc]
  | case7 draft token rest open_ other declared found ih =>
    rw [declarationsLog, if_neg open_, if_neg other, found]
    dsimp only
    rw [ih read, readDeclaration_names found]

private theorem readSource_takings (importer : Option (Importer Failure)) (depth : Nat) :
    Accounts (Idl.readSource importer depth) (sourceTakings importer depth) := by
  -- the sources that are imported are read one level less deep
  induction depth with
  | zero => exact fun read => nomatch read
  | succ _ ih =>
    intro session path source protocol after read
    obtain ⟨_, _, _, _, lexed, headed, declared, rfl, rfl⟩ := readSource_ok read
    have whole := readDeclarations_takings (follow_takings ih) declared
    rw [sourceTakings, lexed]
    dsimp only
    rw [headed]
    exact whole.trans (and_iff_right nodup_nil)

/-- The messages of a compiled source have distinct names exactly if no import takes in one that is
there already. Exactly then the written messages are all of them, in order; in any case the last
message of a name is written, with its parts. -/
theorem compile_messages_distinct_iff {importer : Option (Importer Failure)} {path source : Text}
    {protocol : Protocol} {catalog : Catalog}
    (compiled : compile importer path source = .ok (protocol, catalog)) :
    ((protocol.messages.map (·.name)).Nodup ↔
      ∀ taking ∈ compileTakings importer path source, taking.Apart) ∧
    ∃ members messages : Members, protocol.tree catalog = .obj members ∧
      members.get? "messages" = some (.obj messages) ∧ (messages.map Prod.fst).Nodup ∧
      (messages.map Prod.fst = protocol.messages.map (·.name) ↔
        (protocol.messages.map (·.name)).Nodup) ∧
      ∀ earlier message later, protocol.messages = earlier ++ message :: later →
        message.name ∉ later.map (·.name) →
        ∃ seen entry, messages.get? message.name = some (.obj entry) ∧
          Protocol.HoldsMessage message (Schema.partsWith
            (Schema.namedTree catalog catalog.length) protocol.name.space message.parts seen).1
            entry := by
  have distinct (seen : Schema.Seen) := @Protocol.nodup_messageMembers catalog protocol.name.space
    protocol.messages [] seen nodup_nil
  refine ⟨?_, _, _, rfl, (get?_set ..).trans (if_pos rfl), distinct _, ⟨?_, ?_⟩, ?_⟩
  · obtain ⟨⟨read, session⟩, done, same⟩ := bind_ok.mp compiled
    cases same
    have whole := readSource_takings importer _ done
    exact whole
  · exact fun same => same ▸ distinct _
  · exact fun names => Protocol.map_fst_messageMembers catalog _ names
  · intro earlier message later whole last
    obtain ⟨seen, found⟩ := Protocol.get?_messageMembers catalog protocol.name.space last
    obtain ⟨entry, written, holds⟩ :=
      Protocol.messageTree_holds catalog protocol.name.space message seen
    exact ⟨seen, entry, by rw [whole, found, written], holds⟩

/-- Two sources that are imported have a message of the same name. -/
theorem compile_messages_distinct_iff_twice :
    let importer : Importer Unit :=
      ⟨fun _ reference _ => .ok ⟨reference, "protocol A \x7b void ping(); \x7d"⟩, 2⟩
    let source : Text := "protocol P \x7b import idl \"a\"; import idl \"b\"; \x7d"
    ∃ protocol catalog, compile (some importer) "p" source = .ok (protocol, catalog) ∧
      protocol.messages.map (·.name) = [Text.ofString "ping", "ping"] ∧
      ¬∀ taking ∈ compileTakings (some importer) "p" source, taking.Apart := by
  intro importer source
  have names : (compile (some importer) "p" source).toOption.map
      (fun result => result.1.messages.map (·.name)) = some [Text.ofString "ping", "ping"] := by
    decide +kernel
  obtain ⟨⟨protocol, catalog⟩, compiled, names⟩ := Option.map_eq_some_iff.mp names
  refine ⟨protocol, catalog, ok_of_toOption compiled, names, fun apart => ?_⟩
  have distinct := (compile_messages_distinct_iff (ok_of_toOption compiled)).1.mpr apart
  rw [names] at distinct
  exact absurd distinct (by decide)

end Takings

end Idl

end Avro
