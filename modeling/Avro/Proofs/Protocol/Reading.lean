import Avro.Proofs.Schema.Coverage
import Avro.Proofs.Schema.Rereading
import Avro.Protocol.Read

/-!
# What reading a protocol adds to a scope

Reading a protocol only adds definitions, and these refer to nothing but what is in scope. Which
types it lists does not depend on what is known.
-/

set_option autoImplicit false

open List

namespace Avro

namespace Schema

inductive ReadsAll : Scope → List Part → List Meaning → Scope → Prop
  | nil {scope} : ReadsAll scope [] [] scope
  | cons {scope middle after part parts meaning meanings} (first : Reads scope part meaning middle)
      (others : ReadsAll middle parts meanings after) :
      ReadsAll scope (part :: parts) (meaning :: meanings) after

variable {scope after : Scope} {parts : List Part} {meanings : List Meaning}

theorem ReadsAll.append {middle more others} (reads : ReadsAll scope parts meanings middle)
    (continued : ReadsAll middle more others after) :
    ReadsAll scope (parts ++ more) (meanings ++ others) after := by
  induction reads with
  | nil => exact continued
  | cons first _ ih => exact .cons first (ih continued)

theorem ReadsAll.offers (reads : ReadsAll scope parts meanings after) :
    scope.Develops after ∧
      ∀ meaning ∈ meanings, ∀ reference ∈ meaning.references, after.Offers reference := by
  induction reads with
  | nil => exact ⟨.refl _, forall_mem_nil _⟩
  | cons first _ ih =>
    obtain ⟨develops, offered⟩ := ih
    refine ⟨first.offers.1.trans develops, forall_mem_cons.mpr ⟨?_, offered⟩⟩
    exact fun reference mentioned => develops.offers (first.offers.2 reference mentioned)

theorem ReadsAll.names (reads : ReadsAll scope parts meanings after) :
    after.names = scope.names ++ declared (parts.flatMap Part.marks) := by
  induction reads with
  | nil => simp [declared]
  | cons first _ ih => rw [ih, first.names, flatMap_cons, declared_append, append_assoc]

end Schema

open Schema (Follows Part Meaning Reads ReadsAll marks declared)

/-- What is read of a message, in this order. -/
def Message.meanings (message : Message) : List Meaning :=
  message.request.map .field ++ [.schema message.response, .branches message.errors]

theorem Message.forall_meanings {message : Message} {good : Meaning → Prop} :
    (∀ meaning ∈ message.meanings, good meaning) ↔
      (∀ field ∈ message.request, good (.field field)) ∧ good (.schema message.response) ∧
        good (.branches message.errors) := by
  rw [meanings, forall_mem_append, forall_mem_map, forall_mem_cons, forall_mem_singleton]

namespace Protocol

variable {space name : Text} {scope after narrow wide : Scope} {members : Members}
  {protocol : Protocol} {values : List Json} {message : Message}

def items : Json → List Json
  | .arr values => values
  | _ => []

def requestParts (space : Text) (values : List Json) : List Part :=
  values.filterMap fun
    | .obj members => some (.field space members)
    | _ => none

def messageParts (space : Text) : Json → List Part
  | .obj members => requestParts space (items (Members.value members "request")) ++
    [.schema space (Members.value members "response"),
      .branches space (items (Members.value members "errors"))]
  | _ => []

theorem readTypes_ok_iff {space values scope after} :
    readTypes space scope values = .ok after ↔
      ∃ schemas, Schema.readBranches scope space values = .ok (schemas, after) ∧
        ∀ schema ∈ schemas, schema.isNamed = true := by
  induction values generalizing scope with
  | nil =>
    rw [readTypes, Schema.readBranches]
    constructor
    · intro read
      cases read
      exact ⟨[], rfl, forall_mem_nil _⟩
    · rintro ⟨_, ⟨⟩, _⟩
      rfl
  | cons _ _ ih =>
    rw [readTypes]
    constructor
    · intro read
      obtain ⟨⟨schema, middle⟩, first, read⟩ := bind_ok.mp read
      dsimp only at read
      split at read
      · rename_i isNamed
        obtain ⟨schemas, listed, each⟩ := ih.mp read
        exact ⟨schema :: schemas, Schema.readBranches_cons_ok.mpr ⟨_, _, _, rfl, first, listed⟩,
          forall_mem_cons.mpr ⟨isNamed, each⟩⟩
      · cases read
    · rintro ⟨_, read, each⟩
      obtain ⟨schema, schemas, middle, rfl, first, listed⟩ := Schema.readBranches_cons_ok.mp read
      obtain ⟨isNamed, others⟩ := forall_mem_cons.mp each
      simp only [first, ok_bind, isNamed, if_true]
      exact ih.mpr ⟨schemas, listed, others⟩

theorem readTypes_develops (read : readTypes space scope values = .ok after) :
    scope.Develops after := by
  obtain ⟨_, branches, _⟩ := readTypes_ok_iff.mp read
  exact (Schema.readBranches_ok_iff.mp branches).offers.1

private theorem readTypes_follows (read : readTypes space narrow values = .ok after)
    (same : wide.names = narrow.names) :
    Follows narrow after wide ((readTypes space wide values).map fun scope => ((), scope)) := by
  induction values generalizing narrow wide with
  | nil =>
    cases read
    exact .refl _ same
  | cons _ _ ih =>
    obtain ⟨⟨schema, middle⟩, first, others⟩ := bind_ok.mp read
    dsimp only at others
    split at others
    next =>
      rw [readTypes, map_bind]
      refine Follows.bind ((Schema.read_ok_iff.mp first).follows same).unmap ?_
      intro schema wideMiddle _ same
      dsimp only
      split
      · exact ih others same
      · exact fun _ => rfl
    next => cases others

theorem readRequest_cons {message rest} :
    readRequest message space scope (.obj members :: rest) = do
      let (field, middle) ← (Schema.readField scope space members).mapError (.inMessage message)
      let (fields, after) ← readRequest message space middle rest
      return (field :: fields, after) := by
  rw [readRequest]
  cases Schema.readField scope space members <;> rfl

private theorem readRequest_reads {message fields}
    (read : readRequest message space scope values = .ok (fields, after)) :
    ReadsAll scope (requestParts space values) (fields.map .field) after := by
  induction values generalizing scope fields with
  | nil =>
    cases read
    exact .nil
  | cons value _ ih =>
    cases value with
    | obj =>
      rw [readRequest_cons] at read
      obtain ⟨⟨field, middle⟩, first, read⟩ := bind_ok.mp read
      obtain ⟨⟨fields, after⟩, others, read⟩ := bind_ok.mp read
      cases read
      exact .cons (Schema.readField_ok_iff.mp (mapError_ok.mp first)) (ih others)
    | _ => cases read

private theorem readRequest_follows {message fields}
    (read : readRequest message space narrow values = .ok (fields, after))
    (same : wide.names = narrow.names) :
    Follows narrow after wide (readRequest message space wide values) := by
  induction values generalizing narrow wide fields with
  | nil =>
    cases read
    exact .refl _ same
  | cons value _ ih =>
    cases value with
    | obj =>
      rw [readRequest_cons] at read ⊢
      obtain ⟨⟨field, middle⟩, first, read⟩ := bind_ok.mp read
      obtain ⟨⟨fields, after⟩, others, read⟩ := bind_ok.mp read
      cases read
      have reads := Schema.readField_ok_iff.mp (mapError_ok.mp first)
      refine Follows.bind ((reads.follows same).unmap.within (.inMessage message) fun _ => rfl) ?_
      intro field wideMiddle _ same
      refine Follows.bind (ih others same) ?_
      intro fields wideAfter _ same
      exact .refl _ same
    | _ => cases read

theorem readMessage_ok (read : readMessage name space scope members = .ok (message, after)) :
    ∃ parameters answer thrown first second,
      listOf members "request" (.error (.noRequest name)) (.requestNotList name) = .ok parameters ∧
      readRequest name space scope parameters = .ok (message.request, first) ∧
      responseOf name members = .ok answer ∧
      Schema.read first space answer = .ok (message.response, second) ∧
      listOf members "errors" (.ok []) (.errorsNotList name) = .ok thrown ∧
      Schema.readBranches second space thrown = .ok (message.errors, after) ∧
      oneWayOf name members = .ok message.oneWay ∧
      (message.oneWay → message.response.isNull ∧ message.errors = []) ∧
      message.name = name ∧ message.doc = Schema.docOf members ∧
      message.props = Schema.customProps messageReservedKeys members := by
  unfold readMessage at read
  obtain ⟨parameters, requested, read⟩ := bind_ok.mp read
  obtain ⟨⟨request, first⟩, requestRead, read⟩ := bind_ok.mp read
  obtain ⟨answer, responded, read⟩ := bind_ok.mp read
  obtain ⟨⟨response, second⟩, responseRead, read⟩ := bind_ok.mp read
  obtain ⟨thrown, listed, read⟩ := bind_ok.mp read
  obtain ⟨⟨errors, third⟩, errorsRead, read⟩ := bind_ok.mp read
  obtain ⟨oneWay, directed, read⟩ := bind_ok.mp read
  dsimp only at read
  split at read
  next => cases read
  next silent =>
    cases read
    refine ⟨parameters, answer, thrown, first, second, requested, requestRead, responded,
      responseRead, listed, errorsRead, directed, ?_, rfl, rfl, rfl⟩
    simpa using silent

theorem items_of_listOf {key : Text} {absent : Except SchemaError (List Json)} {noList : SchemaError}
    (listed : listOf members key absent noList = .ok values) (empty : absent = .ok values → values = []) :
    items (members.value key) = values := by
  unfold listOf at listed
  split at listed
  next found => rw [Members.value, found, empty listed]; rfl
  next found =>
    cases listed
    rw [Members.value, found]
    rfl
  next => cases listed

theorem readMessage_reads (read : readMessage name space scope members = .ok (message, after)) :
    ReadsAll scope (messageParts space (.obj members)) message.meanings after := by
  obtain ⟨_, answer, _, _, _, requested, requestRead, responded, responseRead, listed, errorsRead,
    _⟩ := readMessage_ok read
  have response : members.value "response" = answer := by
    unfold responseOf at responded
    split at responded
    next => cases responded
    next found =>
      cases responded
      rw [Members.value, found]
      rfl
  rw [messageParts, items_of_listOf requested (fun wrong => by cases wrong), response,
    items_of_listOf listed fun same => (Except.ok.inj same).symm]
  exact (readRequest_reads requestRead).append (.cons (Schema.read_ok_iff.mp responseRead)
    (.cons (Schema.readBranches_ok_iff.mp errorsRead) .nil))

theorem readMessage_follows (read : readMessage name space narrow members = .ok (message, after))
    (same : wide.names = narrow.names) :
    Follows narrow after wide (readMessage name space wide members) := by
  obtain ⟨_, _, _, _, _, requested, requestRead, responded, responseRead, listed, errorsRead,
    directed, _⟩ := readMessage_ok read
  unfold readMessage
  rw [requested]
  refine Follows.bind (readRequest_follows requestRead same) ?_
  intro request wideFirst _ same
  dsimp only
  rw [responded]
  refine Follows.bind ((Schema.read_ok_iff.mp responseRead).follows same).unmap ?_
  intro response wideSecond _ same
  dsimp only
  rw [listed]
  refine Follows.bind ((Schema.readBranches_ok_iff.mp errorsRead).follows same).unmap ?_
  intro errors wideThird _ same
  dsimp only
  rw [directed, ok_bind]
  split
  · exact fun _ => rfl
  · exact .refl _ same

/-- The messages of a protocol are read one after another, each from its entry. -/
theorem readMessages_reads {values messages}
    (read : readMessages space scope values = .ok (messages, after)) :
    ReadsAll scope (values.flatMap fun entry => messageParts space entry.2)
        (messages.flatMap (·.meanings)) after ∧
      ∃ entries : List (Members × Message),
        values = entries.map (fun entry => (entry.2.name, .obj entry.1)) ∧
        messages = entries.map Prod.snd ∧ ∀ entry ∈ entries, ∃ scope after,
          readMessage entry.2.name space scope entry.1 = .ok (entry.2, after) := by
  induction values generalizing scope messages with
  | nil =>
    cases read
    exact ⟨.nil, [], rfl, rfl, forall_mem_nil _⟩
  | cons entry _ ih =>
    obtain ⟨name, value⟩ := entry
    cases value with
    | obj members =>
      rw [readMessages] at read
      obtain ⟨⟨message, middle⟩, first, read⟩ := bind_ok.mp read
      obtain ⟨⟨messages, after⟩, others, read⟩ := bind_ok.mp read
      cases read
      obtain ⟨reads, entries, rfl, rfl, each⟩ := ih others
      obtain ⟨_, _, _, _, _, _, _, _, _, _, _, _, _, rfl, _⟩ := readMessage_ok first
      exact ⟨(readMessage_reads first).append reads, (members, message) :: entries, rfl, rfl,
        forall_mem_cons.mpr ⟨⟨_, _, first⟩, each⟩⟩
    | _ => cases read

private theorem readMessages_follows {values messages}
    (read : readMessages space narrow values = .ok (messages, after))
    (same : wide.names = narrow.names) :
    Follows narrow after wide (readMessages space wide values) := by
  induction values generalizing narrow wide messages with
  | nil =>
    cases read
    exact .refl _ same
  | cons entry _ ih =>
    obtain ⟨name, value⟩ := entry
    cases value with
    | obj =>
      rw [readMessages] at read ⊢
      obtain ⟨⟨message, middle⟩, first, read⟩ := bind_ok.mp read
      obtain ⟨⟨messages, after⟩, others, read⟩ := bind_ok.mp read
      cases read
      refine Follows.bind (readMessage_follows first same) ?_
      intro message wideMiddle _ same
      refine Follows.bind (ih others same) ?_
      intro messages wideAfter _ same
      exact .refl _ same
    | _ => cases read

/-- The steps of reading a protocol. Its types are those that stand in scope before its messages are
read. -/
theorem readMembers_ok (read : readMembers scope members = .ok (protocol, after)) :
    ∃ values listed messages,
      nameOf members = .ok protocol.name.simple ∧
      protocol.name.space = (members.text? "namespace").getD [] ∧
      listOf members "types" (.ok []) .typesNotList = .ok values ∧
      readTypes protocol.name.space scope values = .ok listed ∧
      protocol.types = listed.defined.drop scope.defined.length ∧
      messagesOf members = .ok messages ∧
      readMessages protocol.name.space listed messages = .ok (protocol.messages, after) ∧
      protocol.doc = Schema.docOf members ∧
      protocol.props = Schema.customProps reservedKeys members := by
  unfold readMembers at read
  obtain ⟨name, named, read⟩ := bind_ok.mp read
  obtain ⟨values, valued, read⟩ := bind_ok.mp read
  obtain ⟨listed, typesRead, read⟩ := bind_ok.mp read
  obtain ⟨messages, present, read⟩ := bind_ok.mp read
  obtain ⟨⟨_, _⟩, messagesRead, read⟩ := bind_ok.mp read
  cases read
  exact ⟨values, listed, messages, named, rfl, valued, typesRead, rfl, present, messagesRead, rfl, rfl⟩

theorem marks_of_listOf {key noList} (listed : listOf members key (.ok []) noList = .ok values) :
    marks space (members.value key) = marks space (.arr values) := by
  unfold listOf at listed
  split at listed
  · rename_i found
    cases listed
    simp [Members.value, found, marks, Schema.branchMarks]
  · rename_i found
    cases listed
    simp [Members.value, found]
  · cases listed

theorem readMembers_declared (read : readMembers scope members = .ok (protocol, after)) :
    protocol.types.map (·.name.text) =
      declared (marks protocol.name.space (members.value "types")) := by
  obtain ⟨_, _, _, _, _, valued, typesRead, types, _⟩ := readMembers_ok read
  obtain ⟨_, branches, _⟩ := readTypes_ok_iff.mp typesRead
  have reads := Schema.readBranches_ok_iff.mp branches
  obtain ⟨_, extended, _⟩ := reads.offers.1
  rw [types, extended.drop_defined, Scope.map_text_references, marks_of_listOf valued, marks]
  exact reads.declared extended

theorem readMembers_follows (read : readMembers narrow members = .ok (protocol, after))
    (same : wide.names = narrow.names) : Follows narrow after wide (readMembers wide members) := by
  obtain ⟨_, listed, _, named, spaced, valued, typesRead, _, present, messagesRead, _⟩ :=
    readMembers_ok read
  unfold readMembers
  rw [named, ok_bind, ← spaced]
  dsimp only
  rw [valued, ok_bind, bind_eq_map_pair_bind]
  refine Follows.bind (readTypes_follows typesRead same) ?_
  intro _ wideListed _ same
  dsimp only
  rw [present, ok_bind]
  refine Follows.bind (readMessages_follows messagesRead same) ?_
  intro messages wideAfter _ same
  exact .refl _ same

end Protocol

end Avro
