import Avro.Proofs.Protocol.Parts

/-!
# Reading a written protocol

The types of a written protocol are read one after another as the branches of a union are, and so
are the types of all messages.
-/

set_option autoImplicit false

open List

namespace Avro

open Members Schema

open Json (membersAsRead itemsAsRead)

variable {ints : Prop}

structure Message.Regular (ints : Prop) (message : Message) : Prop where
  name : message.name.Clean
  doc : message.doc.Clean
  custom : message.props.Custom ints Protocol.messageReservedKeys
  request : ∀ field ∈ message.request, field.Regular ints
  response : message.response.Regular ints
  errors : ∀ schema ∈ message.errors, schema.Regular ints

structure Protocol.Regular (ints : Prop) (protocol : Protocol) : Prop where
  simple : protocol.name.simple.Clean
  space : protocol.name.space.Clean
  doc : protocol.doc.Clean
  custom : protocol.props.Custom ints Protocol.reservedKeys
  messages : ∀ message ∈ protocol.messages, message.Regular ints
  distinct : (protocol.messages.map (·.name)).Nodup

def Message.Silent (message : Message) : Prop :=
  message.oneWay → message.response.isNull ∧ message.errors = []

def Message.asReadWith (message : Message) (types : Parts Schema) : Message :=
  { message with
    props := membersAsRead message.props
    request := List.zipWith Field.asReadWith message.request types.request
    response := types.response
    errors := types.errors }

def Protocol.asReadWith (protocol : Protocol) (types : List Reference)
    (parts : List (Parts Schema)) : Protocol :=
  { protocol with
    props := membersAsRead protocol.props
    types := types
    messages := List.zipWith Message.asReadWith protocol.messages parts }

private theorem Json.itemsAsRead_append (first second : List Json) :
    itemsAsRead (first ++ second) = itemsAsRead first ++ itemsAsRead second := by
  rw [itemsAsRead_eq, itemsAsRead_eq, itemsAsRead_eq, map_append]

/-! ## Lists of types -/

namespace Schema

variable {scope after : Scope} {space : Text}

theorem length_readBranches {values branches}
    (read : readBranches scope space values = .ok (branches, after)) :
    branches.length = values.length := by
  induction values generalizing scope branches with
  | nil =>
    rw [readBranches] at read
    cases read
    rfl
  | cons _ _ ih =>
    obtain ⟨branch, others, middle, rfl, _, later⟩ := readBranches_cons_ok.mp read
    rw [length_cons, length_cons, ih later]

theorem readBranches_append_ok {first second branches} :
    readBranches scope space (first ++ second) = .ok (branches, after) ↔
      ∃ front back middle, branches = front ++ back ∧
        readBranches scope space first = .ok (front, middle) ∧
        readBranches middle space second = .ok (back, after) := by
  induction first generalizing scope branches with
  | nil =>
    rw [nil_append]
    constructor
    · intro read
      exact ⟨[], branches, scope, rfl, by rw [readBranches], read⟩
    · rintro ⟨front, back, middle, rfl, none, read⟩
      rw [readBranches] at none
      cases none
      exact read
  | cons _ _ ih =>
    rw [cons_append, readBranches_cons_ok]
    constructor
    · rintro ⟨branch, others, middle, rfl, first, read⟩
      obtain ⟨front, back, inner, rfl, others, read⟩ := ih.mp read
      exact ⟨branch :: front, back, inner, rfl,
        readBranches_cons_ok.mpr ⟨_, _, _, rfl, first, others⟩, read⟩
    · rintro ⟨_, back, inner, rfl, read, last⟩
      obtain ⟨branch, front, middle, rfl, first, others⟩ := readBranches_cons_ok.mp read
      exact ⟨branch, front ++ back, middle, rfl, first, ih.mpr ⟨_, _, _, rfl, others, last⟩⟩

theorem readBranches_all_ok {values types} (alike : Parts.Alike values types) :
    readBranches scope space values.all = .ok (types.all, after) ↔
      ∃ first second, readBranches scope space values.request = .ok (types.request, first) ∧
        read first space values.response = .ok (types.response, second) ∧
        readBranches second space values.errors = .ok (types.errors, after) := by
  rw [Parts.all, readBranches_append_ok]
  constructor
  · rintro ⟨front, back, first, same, request, rest⟩
    obtain ⟨branch, errors, second, rfl, response, thrown⟩ := readBranches_cons_ok.mp rest
    have length := (length_readBranches request).trans alike.request
    obtain ⟨rfl, behind⟩ := append_inj' same (by
      have total := congrArg List.length same
      simp only [Parts.all, length_append, length_cons] at total ⊢
      omega)
    cases behind
    exact ⟨first, second, request, response, thrown⟩
  · rintro ⟨first, second, request, response, thrown⟩
    exact ⟨_, _, first, rfl, request, readBranches_cons_ok.mpr ⟨_, _, _, rfl, response, thrown⟩⟩

end Schema

/-! ## Messages -/

namespace Protocol

theorem readRequest_fieldTrees_ok {name space fields again}
    (regular : ∀ field ∈ fields, field.Regular ints) {trees : List Json}
    (length : fields.length = trees.length) {scope after} :
    readRequest name space scope (itemsAsRead (List.zipWith fieldTree fields trees)) =
        .ok (again, after) ↔
      ∃ types, readBranches scope space (itemsAsRead trees) = .ok (types, after) ∧
        again = List.zipWith Field.asReadWith fields types := by
  induction fields generalizing trees scope again with
  | nil =>
    cases trees with
    | nil =>
      rw [zipWith_nil_left, itemsAsRead, readRequest, readBranches]
      simp only [Except.ok.injEq, Prod.mk.injEq, zipWith_nil_left]
      grind
    | cons => cases length
  | cons _ _ ih =>
    cases trees with
    | nil => cases length
    | cons tree trees =>
      obtain ⟨first, others⟩ := forall_mem_cons.mp regular
      have step (middle : Scope) (fields : List Field) := @ih fields others trees
        (Nat.succ.inj length) middle
      rw [zipWith_cons_cons, itemsAsRead, itemsAsRead, asRead_fieldTree tree first,
        readRequest_cons, readField_fieldMembersAsRead tree first]
      constructor
      · intro read
        obtain ⟨⟨_, middle⟩, firstRead, read⟩ := bind_ok.mp read
        obtain ⟨⟨type, _⟩, typeRead, same⟩ := map_ok.mp (mapError_ok.mp firstRead)
        cases same
        obtain ⟨⟨fields, _⟩, othersRead, read⟩ := bind_ok.mp read
        cases read
        obtain ⟨types, listed, rfl⟩ := (step _ _).mp othersRead
        exact ⟨type :: types, readBranches_cons_ok.mpr ⟨_, _, _, rfl, typeRead, listed⟩, rfl⟩
      · rintro ⟨_, read, rfl⟩
        obtain ⟨type, types, middle, rfl, typeRead, listed⟩ := readBranches_cons_ok.mp read
        rw [typeRead]
        simp only [ok_map, ok_mapError, ok_bind, (step _ _).mpr ⟨types, listed, rfl⟩]
        rfl

def messageObjectAsRead (message : Message) (values : Parts Json) : Members :=
  textMember "doc" message.doc ++ membersAsRead message.props ++
    (one "request" (.arr (itemsAsRead (List.zipWith fieldTree message.request values.request))) ++
      one "response" values.response.asRead ++
      (if values.errors.isEmpty then [] else one "errors" (.arr (itemsAsRead values.errors))) ++
      (if message.oneWay then one "one-way" (.bool true) else []))

section Message

variable {message : Message} (regular : message.Regular ints) (trees : Parts Json)

include regular

private theorem asRead_messageObject :
    membersAsRead (messageObject message trees) = messageObjectAsRead message trees := by
  rw [messageObject, messageObjectAsRead]
  simp only [Json.membersAsRead_append, sanitize_textMember _ regular.doc,
    Json.membersAsRead_one, Json.asRead]
  congr 3
  · split
    · rfl
    · rw [Json.membersAsRead_one, Json.asRead]
  · split
    · rw [Json.membersAsRead_one, Json.asRead]
    · rfl

theorem get?_messageObject {key : Text} (isReserved : key ∈ messageReservedKeys) :
    (messageObjectAsRead message trees).get? key = ((textMember "doc" message.doc).get? key).or
      ((one "request"
          (.arr (itemsAsRead (List.zipWith fieldTree message.request trees.request))) ++
        one "response" trees.response.asRead ++
        (if trees.errors.isEmpty then []
          else one "errors" (.arr (itemsAsRead trees.errors))) ++
        (if message.oneWay then one "one-way" (.bool true) else [])).get? key) := by
  rw [messageObjectAsRead, get?_around regular.custom.asRead isReserved, get?_append]

theorem request_messageObject (absent : Except SchemaError (List Json)) (noList : SchemaError) :
    listOf (messageObjectAsRead message trees) "request" absent noList =
      .ok (itemsAsRead (List.zipWith fieldTree message.request trees.request)) := by
  have found : (messageObjectAsRead message trees).get? "request" =
      some (.arr (itemsAsRead (List.zipWith fieldTree message.request trees.request))) := by
    rw [get?_messageObject regular trees (by decide)]
    simp [get?_append, get?_one, get?_textMember]
  rw [listOf, found]

theorem response_messageObject (name : Text) :
    responseOf name (messageObjectAsRead message trees) = .ok trees.response.asRead := by
  have found : (messageObjectAsRead message trees).get? "response" =
      some trees.response.asRead := by
    rw [get?_messageObject regular trees (by decide)]
    simp [get?_append, get?_one, get?_textMember]
  rw [responseOf, found]

theorem errors_messageObject (noList : SchemaError) :
    listOf (messageObjectAsRead message trees) "errors" (.ok []) noList =
      .ok (itemsAsRead trees.errors) := by
  have found : (messageObjectAsRead message trees).get? "errors" =
      if trees.errors.isEmpty then none else some (.arr (itemsAsRead trees.errors)) := by
    rw [get?_messageObject regular trees (by decide)]
    cases trees.errors.isEmpty <;> cases message.oneWay <;>
      simp [get?_append, get?_one, get?_textMember]
  rw [listOf, found]
  split
  · rename_i absent
    split at absent
    · rename_i empty
      rw [List.isEmpty_iff.mp empty, itemsAsRead]
    · cases absent
  · rename_i present
    split at present
    · cases present
    · cases present
      rfl
  · rename_i noList present
    split at present
    · cases present
    · cases present
      exact absurd rfl (noList _)

theorem oneWay_messageObject (name : Text) :
    oneWayOf name (messageObjectAsRead message trees) = .ok message.oneWay := by
  have found : (messageObjectAsRead message trees).get? "one-way" =
      if message.oneWay then some (.bool true) else none := by
    rw [get?_messageObject regular trees (by decide)]
    cases trees.errors.isEmpty <;> cases message.oneWay <;>
      simp [get?_append, get?_one, get?_textMember]
  rw [oneWayOf, found]
  cases message.oneWay <;> rfl

theorem doc_messageObject : docOf (messageObjectAsRead message trees) = message.doc := by
  refine docOf_textMember ?_
  rw [get?_messageObject regular trees (by decide)]
  cases trees.errors.isEmpty <;> cases message.oneWay <;>
    simp [get?_append, get?_one]

theorem props_messageObject :
    customProps messageReservedKeys (messageObjectAsRead message trees) =
      membersAsRead message.props := by
  refine customProps_around regular.custom.asRead ?_
  rw [textMember]
  cases message.doc.isEmpty <;> cases trees.errors.isEmpty <;> cases message.oneWay <;>
    simp [one] <;> decide

theorem readMessage_messageObject_ok (alike : Parts.Alike message.parts trees)
    {space scope after again} :
    readMessage message.name space scope (messageObjectAsRead message trees) = .ok (again, after) ↔
      ∃ types, Parts.Alike trees types ∧
        readBranches scope space (itemsAsRead trees.all) = .ok (types.all, after) ∧
        again = message.asReadWith types ∧ again.Silent := by
  have length : message.request.length = trees.request.length := by
    rw [← alike.request, Message.parts, length_map]
  have asRead : itemsAsRead trees.all = (trees.map Json.asRead).all := by
    rw [Json.itemsAsRead_eq, Parts.all_map]
  constructor
  · intro read
    obtain ⟨_, _, _, first, second, requested, requestRead, responded, responseRead, listed,
      errorsRead, directed, silent, named, documented, props⟩ := readMessage_ok read
    rw [request_messageObject regular] at requested
    rw [response_messageObject regular] at responded
    rw [errors_messageObject regular] at listed
    rw [oneWay_messageObject regular] at directed
    rw [doc_messageObject regular] at documented
    rw [props_messageObject regular] at props
    cases requested
    cases responded
    cases listed
    obtain ⟨types, typesRead, request⟩ :=
      (readRequest_fieldTrees_ok regular.request length).mp requestRead
    have similar : Parts.Alike trees ⟨types, again.response, again.errors⟩ := by
      refine ⟨?_, ?_⟩
      · rw [length_readBranches typesRead, Json.itemsAsRead_eq, length_map]
      · rw [length_readBranches errorsRead, Json.itemsAsRead_eq, length_map]
    refine ⟨_, similar, ?_, ?_, silent⟩
    · rw [asRead, readBranches_all_ok ((similar.symm.map_right _).symm)]
      simp only [Parts.map, ← Json.itemsAsRead_eq]
      exact ⟨first, second, typesRead, responseRead, errorsRead⟩
    · cases again
      cases named
      cases documented
      cases props
      cases request
      cases directed
      rfl
  · rintro ⟨types, similar, read, rfl, silent⟩
    rw [asRead, readBranches_all_ok ((similar.symm.map_right _).symm)] at read
    simp only [Parts.map, ← Json.itemsAsRead_eq] at read
    obtain ⟨first, second, typesRead, responseRead, errorsRead⟩ := read
    have requestRead := (@readRequest_fieldTrees_ok ints message.name space message.request _
      regular.request trees.request length scope first).mpr ⟨_, typesRead, rfl⟩
    have allowed : (message.oneWay && (!types.response.isNull || !types.errors.isEmpty)) = false := by
      cases directed : message.oneWay with
      | false => rfl
      | true =>
        obtain ⟨isNull, none⟩ : types.response.isNull = true ∧ types.errors = [] := silent directed
        simp [isNull, none]
    simp only [readMessage, request_messageObject regular, ok_bind, requestRead,
      response_messageObject regular, responseRead, errors_messageObject regular, errorsRead,
      oneWay_messageObject regular, allowed, doc_messageObject regular, props_messageObject regular,
      Bool.false_eq_true, if_false]
    rfl

end Message

theorem asRead_messagesObject {messages : List Message}
    (regular : ∀ message ∈ messages, message.Regular ints) (trees : List (Parts Json)) :
    membersAsRead (messagesObject messages trees) = List.zipWith
      (fun message trees => (message.name, .obj (messageObjectAsRead message trees))) messages
        trees := by
  induction messages generalizing trees with
  | nil => rfl
  | cons _ _ ih =>
    cases trees with
    | nil => rfl
    | cons _ others =>
      obtain ⟨regularFirst, regularRest⟩ := forall_mem_cons.mp regular
      simp only [messagesObject, zipWith_cons_cons, membersAsRead, Json.asRead,
        regularFirst.name.sanitize_eq, asRead_messageObject regularFirst]
      exact congrArg _ (ih regularRest others)

theorem readMessages_messagesObject_ok {messages}
    (regular : ∀ message ∈ messages, message.Regular ints) {trees}
    (alike : List.Forall₂ Parts.Alike (messages.map (·.parts)) trees) {space scope after again} :
    readMessages space scope (membersAsRead (messagesObject messages trees)) = .ok (again, after) ↔
      ∃ types, List.Forall₂ Parts.Alike trees types ∧
        readBranches scope space (itemsAsRead (Parts.flat trees)) = .ok (Parts.flat types, after) ∧
        again = List.zipWith Message.asReadWith messages types ∧ ∀ message ∈ again, message.Silent := by
  rw [asRead_messagesObject regular]
  induction messages generalizing trees scope again with
  | nil =>
    cases alike
    rw [zipWith_nil_left, readMessages, Parts.flat, flatMap_nil, itemsAsRead, readBranches]
    constructor
    · intro read
      cases read
      exact ⟨[], .nil, rfl, rfl, forall_mem_nil _⟩
    · rintro ⟨types, similar, read, rfl, _⟩
      cases similar
      cases read
      rfl
  | cons _ _ ih =>
    obtain ⟨regularFirst, regularRest⟩ := forall_mem_cons.mp regular
    cases alike with
    | @cons _ first _ others alikeFirst alikeRest =>
      have step (middle : Scope) (later : List Message) := @ih regularRest others alikeRest middle later
      rw [zipWith_cons_cons, readMessages, Parts.flat_cons, Json.itemsAsRead_append]
      constructor
      · intro read
        obtain ⟨⟨_, middle⟩, firstRead, read⟩ := bind_ok.mp read
        obtain ⟨⟨later, _⟩, othersRead, read⟩ := bind_ok.mp read
        cases read
        obtain ⟨types, similar, listed, rfl, silent⟩ :=
          (readMessage_messageObject_ok regularFirst first alikeFirst).mp firstRead
        obtain ⟨more, similarRest, listedRest, rfl, silentRest⟩ := (step _ _).mp othersRead
        refine ⟨types :: more, .cons similar similarRest, ?_, rfl,
          forall_mem_cons.mpr ⟨silent, silentRest⟩⟩
        rw [Parts.flat_cons]
        exact readBranches_append_ok.mpr ⟨_, _, _, rfl, listed, listedRest⟩
      · rintro ⟨_, similar, read, rfl, silent⟩
        cases similar with
        | @cons _ types _ more similar similarRest =>
          obtain ⟨silentFirst, silentRest⟩ := forall_mem_cons.mp silent
          obtain ⟨front, back, middle, same, listed, listedRest⟩ :=
            readBranches_append_ok.mp read
          have length : types.all.length = front.length := by
            rw [length_readBranches listed, Json.itemsAsRead_eq, length_map,
              similar.length_all]
          rw [Parts.flat_cons] at same
          obtain ⟨rfl, rfl⟩ := List.append_inj same length
          have firstRead := (readMessage_messageObject_ok regularFirst first alikeFirst).mpr
            ⟨types, similar, listed, rfl, silentFirst⟩
          have othersRead := (step _ _).mpr ⟨more, similarRest, listedRest, rfl, silentRest⟩
          simp only [firstRead, ok_bind, othersRead]
          rfl

/-! ## Protocols -/

def protocolObjectAsRead (protocol : Protocol) (types : List Json) (trees : List (Parts Json)) :
    Members :=
  one "protocol" (.str protocol.name.simple) ++
    textMember "namespace" protocol.name.space ++ textMember "doc" protocol.doc ++
    membersAsRead protocol.props ++
    (one "types" (.arr (itemsAsRead types)) ++
      one "messages" (.obj (membersAsRead (messagesObject protocol.messages trees))))

section Document

variable {protocol : Protocol} (regular : protocol.Regular ints) (types : List Json)
  (trees : List (Parts Json))

include regular

theorem asRead_protocolObject :
    membersAsRead (protocolObject protocol types trees) =
      protocolObjectAsRead protocol types trees := by
  simp only [protocolObject, protocolObjectAsRead, Json.membersAsRead_append,
    Json.membersAsRead_one, Json.asRead, sanitize_textMember _ regular.doc,
    sanitize_textMember _ regular.space, regular.simple.sanitize_eq]

theorem get?_protocolObject {key : Text} (isReserved : key ∈ reservedKeys) :
    (protocolObjectAsRead protocol types trees).get? key =
      (one "protocol" (.str protocol.name.simple) ++
        textMember "namespace" protocol.name.space ++ textMember "doc" protocol.doc ++
        (one "types" (.arr (itemsAsRead types)) ++ one "messages"
          (.obj (membersAsRead (messagesObject protocol.messages trees))))).get? key :=
  get?_around regular.custom.asRead isReserved

theorem name_protocolObject :
    nameOf (protocolObjectAsRead protocol types trees) = .ok protocol.name.simple := by
  have found : (protocolObjectAsRead protocol types trees).get? "protocol" =
      some (.str protocol.name.simple) := by
    rw [get?_protocolObject regular types trees (by decide)]
    simp [get?_append, get?_one]
  simp only [nameOf, text?, found]

theorem space_protocolObject :
    ((protocolObjectAsRead protocol types trees).text? "namespace").getD [] =
      protocol.name.space := by
  have found : (protocolObjectAsRead protocol types trees).get? "namespace" =
      (textMember "namespace" protocol.name.space).get? "namespace" := by
    rw [get?_protocolObject regular types trees (by decide)]
    simp [get?_append, get?_one, get?_textMember]
  rw [text?, found, get?_textMember]
  cases protocol.name.space with
  | nil | cons => simp

theorem types_protocolObject (absent : Except SchemaError (List Json)) (noList : SchemaError) :
    listOf (protocolObjectAsRead protocol types trees) "types" absent noList =
      .ok (itemsAsRead types) := by
  have found : (protocolObjectAsRead protocol types trees).get? "types" =
      some (.arr (itemsAsRead types)) := by
    rw [get?_protocolObject regular types trees (by decide)]
    simp [get?_append, get?_one, get?_textMember]
  rw [listOf, found]

theorem messages_protocolObject :
    messagesOf (protocolObjectAsRead protocol types trees) =
      .ok (membersAsRead (messagesObject protocol.messages trees)) := by
  have found : (protocolObjectAsRead protocol types trees).get? "messages" =
      some (.obj (membersAsRead (messagesObject protocol.messages trees))) := by
    rw [get?_protocolObject regular types trees (by decide)]
    simp [get?_append, get?_one, get?_textMember]
  rw [messagesOf, found]

theorem doc_protocolObject :
    docOf (protocolObjectAsRead protocol types trees) = protocol.doc := by
  refine docOf_textMember ?_
  rw [get?_protocolObject regular types trees (by decide)]
  simp [get?_append, get?_one, get?_textMember]

theorem props_protocolObject :
    customProps reservedKeys (protocolObjectAsRead protocol types trees) =
      membersAsRead protocol.props := by
  refine customProps_around regular.custom.asRead ?_
  rw [textMember, textMember]
  cases protocol.doc.isEmpty <;> cases protocol.name.space.isEmpty <;> simp [one] <;> decide

/-- A written protocol is read if its types and then those of its messages are. -/
theorem readMembers_protocolObject_ok
    (alike : List.Forall₂ Parts.Alike (protocol.messages.map (·.parts)) trees) {scope after again} :
    readMembers scope (membersAsRead (protocolObject protocol types trees)) = .ok (again, after) ↔
      ∃ schemas listed parts,
        readBranches scope protocol.name.space (itemsAsRead types) = .ok (schemas, listed) ∧
        (∀ schema ∈ schemas, schema.isNamed = true) ∧ List.Forall₂ Parts.Alike trees parts ∧
        readBranches listed protocol.name.space (itemsAsRead (Parts.flat trees)) =
          .ok (Parts.flat parts, after) ∧
        again = protocol.asReadWith (listed.defined.drop scope.defined.length) parts ∧
        ∀ message ∈ again.messages, message.Silent := by
  rw [asRead_protocolObject regular]
  constructor
  · intro read
    obtain ⟨_, listed, _, named, spaced, valued, typesRead, defined, present, messagesRead, documented,
      props⟩ := readMembers_ok read
    rw [name_protocolObject regular] at named
    rw [space_protocolObject regular] at spaced
    rw [types_protocolObject regular] at valued
    rw [messages_protocolObject regular] at present
    rw [doc_protocolObject regular] at documented
    rw [props_protocolObject regular] at props
    cases valued
    cases present
    rw [spaced] at typesRead messagesRead
    obtain ⟨schemas, schemasRead, each⟩ := readTypes_ok_iff.mp typesRead
    obtain ⟨parts, similar, partsRead, messages, silent⟩ :=
      (readMessages_messagesObject_ok regular.messages alike).mp messagesRead
    refine ⟨schemas, listed, parts, schemasRead, each, similar, partsRead, ?_, silent⟩
    rw [← defined]
    obtain ⟨⟨space, simple⟩, _, _, _, _⟩ := again
    cases named
    cases spaced
    cases documented
    cases props
    cases messages
    rfl
  · rintro ⟨schemas, listed, parts, schemasRead, each, similar, partsRead, rfl, silent⟩
    have typesRead := readTypes_ok_iff.mpr ⟨schemas, schemasRead, each⟩
    have messagesRead := (readMessages_messagesObject_ok regular.messages alike).mpr
      ⟨parts, similar, partsRead, rfl, silent⟩
    simp only [readMembers, name_protocolObject regular, ok_bind, space_protocolObject regular,
      types_protocolObject regular, typesRead, messages_protocolObject regular, messagesRead,
      doc_protocolObject regular, props_protocolObject regular]
    rfl

end Document

end Protocol

end Avro
