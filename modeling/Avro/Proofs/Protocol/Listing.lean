import Avro.Proofs.Protocol.Restated
import Avro.Proofs.Schema.Marks

/-!
# Which types a protocol lists

A protocol document defines types among its types and inside of its messages. The list of the
protocol has the former only.
-/

set_option autoImplicit false

open List

namespace Avro.Protocol

open Members

open Schema (Part Mark marks fieldListMarks fieldMarks declared declared_append)

variable {members : Members}

/-- What stands at the schema positions of a message. -/
def messageMarks (space : Text) : Json → List Mark
  | .obj members => fieldListMarks space (value members "request") ++
    marks space (value members "response") ++ marks space (value members "errors")
  | _ => []

def messagesMarks (space : Text) : Json → List Mark
  | .obj messages => messages.flatMap fun entry => messageMarks space entry.2
  | _ => []

section Reading

variable {space : Text} {scope after : Scope} {values : List Json}

private theorem marks_requestParts (space : Text) (values : List Json) :
    (requestParts space values).flatMap Part.marks = fieldMarks space values := by
  induction values with
  | nil => simp [requestParts, fieldMarks]
  | cons value _ ih =>
    cases value <;> simp [requestParts, fieldMarks, Part.marks, ← ih]

private theorem marks_messageParts {name message}
    (read : readMessage name space scope members = .ok (message, after)) :
    (messageParts space (.obj members)).flatMap Part.marks = messageMarks space (.obj members) := by
  obtain ⟨parameters, answer, thrown, first, second, requested, _, _, _, listed, _⟩ :=
    readMessage_ok read
  have request : fieldListMarks space (members.value "request") =
      fieldMarks space (items (members.value "request")) := by
    cases members.value "request" <;> simp [fieldListMarks, items, fieldMarks]
  rw [messageParts, messageMarks, marks_of_listOf listed, request, flatMap_append,
    marks_requestParts, items_of_listOf listed fun same => (Except.ok.inj same).symm]
  simp [Part.marks, marks]

private theorem readMessages_names {values messages}
    (read : readMessages space scope values = .ok (messages, after)) :
    after.names = scope.names ++ declared (messagesMarks space (.obj values)) := by
  obtain ⟨reads, entries, rfl, _, each⟩ := readMessages_reads read
  rw [reads.names, messagesMarks, flatMap_assoc, flatMap_map, flatMap_map]
  congr 2
  refine flatMap_congr fun entry member => ?_
  obtain ⟨_, _, done⟩ := each entry member
  exact marks_messageParts done

end Reading

private theorem messagesMarks_of_messagesOf {messages : Members} (space : Text)
    (present : messagesOf members = .ok messages) :
    messagesMarks space (members.value "messages") = messagesMarks space (.obj messages) := by
  unfold messagesOf at present
  split at present
  · rename_i found
    cases present
    simp [value, found, messagesMarks]
  · rename_i found
    cases present
    simp [value, found, messagesMarks]
  · rename_i found
    cases present
    rw [value, found]
    rfl
  · cases present

/-- The types that an accepted protocol lists are those that it defines among its types, in the
order of their definitions. Behind them it defines those inside of its messages, which it does not
list; so it lists all that it defines exactly if its messages define none. -/
theorem types_eq_defined_iff {scope after : Scope} {text : Text} {protocol : Protocol}
    (accepted : readDocument scope text = .ok (protocol, after)) :
    ∃ (members : Members) (missed : List Reference), Json.decode text = .ok (.obj members) ∧
      after.defined = scope.defined ++ protocol.types ++ missed ∧
      protocol.types.map (·.name.text) =
        declared (marks protocol.name.space (members.value "types")) ∧
      missed.map (·.name.text) =
        declared (messagesMarks protocol.name.space (members.value "messages")) ∧
      (after.defined = scope.defined ++ protocol.types ↔
        declared (messagesMarks protocol.name.space (members.value "messages")) = []) := by
  unfold readDocument at accepted
  split at accepted
  · cases accepted
  · rename_i decoded
    obtain ⟨_, listed, _, _, _, _, typesRead, types, present, messagesRead, _⟩ :=
      readMembers_ok accepted
    obtain ⟨early, extended, _⟩ := readTypes_develops typesRead
    obtain ⟨late, continued, _⟩ := (readMessages_reads messagesRead).1.offers.1
    rw [extended.drop_defined] at types
    have behind := append_cancel_left
      (continued.names.symm.trans (readMessages_names messagesRead))
    rw [← messagesMarks_of_messagesOf _ present] at behind
    refine ⟨_, _, decoded, by rw [continued.defined, extended.defined, types],
      readMembers_declared accepted, ?_, ?_⟩
    · rw [Scope.map_text_references, behind]
    · rw [continued.defined, extended.defined, ← types, append_right_eq_self, ← behind,
        ← Scope.map_text_references listed.catalog.length, map_eq_nil_iff]
  · cases accepted

/-- A protocol without types, with a message that answers with an enumeration of its own. -/
def answersTree : Json :=
  .obj [("protocol", .str "Answers"), ("messages", .obj [("next", .obj [("request", .arr []),
    ("response", .obj [("type", .str "enum"), ("name", .str "Id"), ("symbols", .arr [])])])])]

def answer : Definition := ⟨⟨"", "Id"⟩, "", none, [], .enum [] none⟩

def answers : Protocol where
  name := ⟨"", "Answers"⟩
  doc := ""
  props := []
  types := []
  messages := [⟨"next", "", [], [], .named ⟨0, ⟨"", "Id"⟩⟩, [], false⟩]

private theorem legible_answersTree : Json.Legible answersTree := by
  have empty : Json.Legible (.arr []) := .arr (forall_mem_nil _)
  have response : Json.Legible (.obj [("type", .str "enum"), ("name", .str "Id"),
      ("symbols", .arr [])]) :=
    .obj (by decide) (forall_mem_cons.mpr ⟨.str _, forall_mem_cons.mpr ⟨.str _,
      forall_mem_singleton.mpr empty⟩⟩)
  refine .obj (by decide) (forall_mem_cons.mpr ⟨.str _, forall_mem_singleton.mpr ?_⟩)
  refine .obj (by decide) (forall_mem_singleton.mpr ?_)
  exact .obj (by decide) (forall_mem_cons.mpr ⟨empty, forall_mem_singleton.mpr response⟩)

set_option maxRecDepth 10000 in
theorem readDocument_answersTree : readDocument .empty (answersTree.render .compact) =
    .ok (answers, Scope.empty.extend [answer]) := by
  rw [readDocument, legible_answersTree.decode_render]
  with_unfolding_all rfl

theorem types_of_answers :
    readDocument .empty (answersTree.render .compact) =
        .ok (answers, Scope.empty.extend [answer]) ∧
      ∃ members : Members, Json.decode (answersTree.render .compact) = .ok (.obj members) ∧
        declared (messagesMarks [] (members.value "messages")) ≠ [] := by
  obtain ⟨members, _, decoded, _, _, _, complete⟩ := types_eq_defined_iff readDocument_answersTree
  refine ⟨readDocument_answersTree, members, decoded, fun none => ?_⟩
  exact absurd (complete.mpr none) (by decide)

end Avro.Protocol
