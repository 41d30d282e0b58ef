import Avro.Proofs.Protocol.Reading

/-!
# References that nothing defines

Where the reader comes to a part that cannot be read, the document is refused for the same reason,
however deep the part stands.
-/

set_option autoImplicit false

namespace Avro

variable {scope last middle : Scope} {space name text : Text} {members : Members}

/-- Something is refused, and this is at the root of the error. -/
def SchemaError.Ends {α : Type} (root : SchemaError) (outcome : Except SchemaError α) : Prop :=
  ∃ error, outcome = .error error ∧ error.root = root

namespace SchemaError

variable {α β : Type} {root : SchemaError} {outcome : Except SchemaError α}

theorem ends_map {change : α → β} : root.Ends (outcome.map change) ↔ root.Ends outcome := by
  cases outcome <;> simp [Ends]

theorem Ends.bind (ends : root.Ends outcome) (next : α → Except SchemaError β) :
    root.Ends (outcome >>= next) := by
  obtain ⟨error, rfl, rooted⟩ := ends
  exact ⟨error, rfl, rooted⟩

theorem Ends.mapError (ends : root.Ends outcome) (wrap : SchemaError → SchemaError)
    (keeps : ∀ error, (wrap error).root = error.root) : root.Ends (outcome.mapError wrap) := by
  obtain ⟨error, rfl, rooted⟩ := ends
  exact ⟨wrap error, rfl, (keeps error).trans rooted⟩

end SchemaError

open SchemaError

namespace Schema

open Kind

/-- The reader of a part comes to a part inside it: what stands before has been read. -/
inductive Enters (last : Scope) (goal : Part) : Scope → Part → Prop
  | here : Enters last goal last goal
  | union {scope space values} (inner : Enters last goal scope (.branches space values)) :
      Enters last goal scope (.schema space (.arr values))
  | record {scope defined space isError head reference list} {members : Members}
      (typed : members.get? "type" = some (.str (cond isError error record).name))
      (headed : readHead (cond isError .error .record) members space = .ok head)
      (defines : scope.define head = .ok (reference, defined))
      (listed : readFieldList head.name.text members = .ok list)
      (inner : Enters last goal defined (.fields head.name [] list)) :
      Enters last goal scope (.schema space (.obj members))
  | container {scope space value} {members : Members} {kind : Container}
      (typed : members.get? "type" = some (.str kind.name))
      (present : members.get? kind.key = some value)
      (inner : Enters last goal scope (.schema space value)) :
      Enters last goal scope (.schema space (.obj members))
  | nameObject {scope space type} {members : Members}
      (typed : members.get? "type" = some (.str type))
      (other : Primitive.ofName? type = none) (noKind : ofName? type = none)
      (noContainer : Container.ofName? type = none)
      (inner : Enters last goal scope (.schema space (.str type))) :
      Enters last goal scope (.schema space (.obj members))
  | wrapped {scope space value} {members : Members} (typed : members.get? "type" = some value)
      (noName : ∀ type, value ≠ .str type)
      (inner : Enters last goal scope (.schema space value)) :
      Enters last goal scope (.schema space (.obj members))
  | branch {scope space value rest} (inner : Enters last goal scope (.schema space value)) :
      Enters last goal scope (.branches space (value :: rest))
  | laterBranch {scope middle space value rest branch}
      (first : Reads scope (.schema space value) (.schema branch) middle)
      (inner : Enters last goal middle (.branches space rest)) :
      Enters last goal scope (.branches space (value :: rest))
  | ofFields {scope owner seen rest members}
      (inner : Enters last goal scope (.field owner.space members)) :
      Enters last goal scope (.fields owner seen (.obj members :: rest))
  | laterField {scope middle owner seen rest field members}
      (first : Reads scope (.field owner.space members) (.field field) middle)
      (fresh : field.name ∉ seen)
      (inner : Enters last goal middle (.fields owner (field.name :: seen) rest)) :
      Enters last goal scope (.fields owner seen (.obj members :: rest))
  | fieldType {scope space name value members} (called : readFieldName members = .ok name)
      (typed : members.get? "type" = some value)
      (inner : Enters last goal scope (.schema space value)) :
      Enters last goal scope (.field space members)

theorem Enters.ends {goal part : Part} {root : SchemaError} (enters : Enters last goal scope part)
    (stopped : root.Ends (goal.read last)) : root.Ends (part.read scope) := by
  induction enters with
  | here => exact stopped
  | union inner ih =>
    rw [Part.read, ends_map, read]
    exact (ends_map.mp ih).bind _
  | record typed headed defines listed inner ih =>
    rw [Part.read, ends_map, read_record typed, headed, ok_bind, defines, ok_bind]
    dsimp only
    rw [listed, ok_bind]
    exact (ends_map.mp ih).bind _
  | container typed present inner ih =>
    rw [Part.read, ends_map, read_container typed present]
    exact (ends_map.mp ih).bind _
  | nameObject typed other noKind noContainer inner ih =>
    rw [Part.read, ends_map, read_nameObject typed other noKind noContainer, ← read]
    exact ends_map.mp ih
  | wrapped typed noName inner ih =>
    rw [Part.read, ends_map, read_wrapped typed noName]
    exact ends_map.mp ih
  | branch inner ih =>
    rw [Part.read, ends_map, readBranches]
    exact (ends_map.mp ih).bind _
  | laterBranch first inner ih =>
    rw [Part.read, ends_map, readBranches, read_ok_iff.mpr first, ok_bind]
    exact (ends_map.mp ih).bind _
  | ofFields inner ih =>
    rw [Part.read, ends_map, readFields_cons]
    exact ((ends_map.mp ih).mapError (.inRecord _) fun _ => rfl).bind _
  | laterField first fresh inner ih =>
    rw [Part.read, ends_map, readFields_cons, readField_ok_iff.mpr first, ok_mapError, ok_bind]
    dsimp only
    rw [if_neg fresh]
    exact (ends_map.mp ih).bind _
  | fieldType called typed inner ih =>
    rw [Part.read, ends_map, readField_typed called typed]
    exact (ends_map.mp ih).bind _

/-- The reader comes to a name that is not that of a type. -/
def Part.Misses (scope : Scope) (part : Part) (name : Text) : Prop :=
  ∃ last space text, Enters last (.schema space (.str text)) scope part ∧
    Primitive.ofName? text = none ∧ last.resolve? text space = none ∧
    name = Scope.expand text space

theorem Part.Misses.ends {part : Part} (misses : part.Misses scope name) :
    (undefinedName name).Ends (part.read scope) := by
  obtain ⟨last, space, text, enters, other, unresolved, rfl⟩ := misses
  refine enters.ends ⟨undefinedName (Scope.expand text space), ?_, rfl⟩
  simp [Part.read, Schema.read, readName, other, unresolved]

end Schema

namespace Protocol

open Schema (Part)

/-- A message is read up to a name that is not that of a type. -/
inductive MissesInMessage (title space name : Text) (scope : Scope) (members : Members) : Prop
  | parameter {before parameter after fields middle}
      (listed : listOf members "request" (.error (.noRequest title)) (.requestNotList title) =
        .ok (before ++ .obj parameter :: after))
      (earlier : readRequest title space scope before = .ok (fields, middle))
      (misses : (Part.field space parameter).Misses middle name)
  | response {parameters fields middle answer}
      (listed : listOf members "request" (.error (.noRequest title)) (.requestNotList title) =
        .ok parameters)
      (earlier : readRequest title space scope parameters = .ok (fields, middle))
      (answered : responseOf title members = .ok answer)
      (misses : (Part.schema space answer).Misses middle name)
  | error {parameters fields middle answer response later thrown}
      (listed : listOf members "request" (.error (.noRequest title)) (.requestNotList title) =
        .ok parameters)
      (earlier : readRequest title space scope parameters = .ok (fields, middle))
      (answered : responseOf title members = .ok answer)
      (responds : Schema.read middle space answer = .ok (response, later))
      (throws : listOf members "errors" (.ok []) (.errorsNotList title) = .ok thrown)
      (misses : (Part.branches space thrown).Misses later name)

/-- A protocol is read up to a name that is not that of a type. -/
inductive Misses (scope : Scope) (members : Members) (name : Text) : Prop
  | type {title before value after middle} (named : nameOf members = .ok title)
      (listed : listOf members "types" (.ok []) .typesNotList = .ok (before ++ value :: after))
      (earlier : readTypes ((members.text? "namespace").getD []) scope before = .ok middle)
      (misses : (Part.schema ((members.text? "namespace").getD []) value).Misses middle name)
  | message {title values typed before message inner after messages middle}
      (named : nameOf members = .ok title)
      (listed : listOf members "types" (.ok []) .typesNotList = .ok values)
      (types : readTypes ((members.text? "namespace").getD []) scope values = .ok typed)
      (listedToo : messagesOf members = .ok (before ++ (message, .obj inner) :: after))
      (earlier : readMessages ((members.text? "namespace").getD []) typed before =
        .ok (messages, middle))
      (misses : MissesInMessage message ((members.text? "namespace").getD []) name middle inner)

variable {root : SchemaError}

theorem ends_readTypes {before after value} (earlier : readTypes space scope before = .ok middle)
    (ends : root.Ends (Schema.read middle space value)) :
    root.Ends (readTypes space scope (before ++ value :: after)) := by
  induction before generalizing scope with
  | nil =>
    cases earlier
    exact ends.bind _
  | cons first before ih =>
    obtain ⟨⟨schema, next⟩, read, earlier⟩ := bind_ok.mp earlier
    dsimp only at earlier
    split at earlier
    · rename_i isNamed
      rw [List.cons_append, readTypes, read, ok_bind]
      dsimp only
      rw [if_pos isNamed]
      exact ih earlier
    · cases earlier

private theorem ends_readRequest {title before after fields}
    (earlier : readRequest title space scope before = .ok (fields, middle))
    (ends : root.Ends (Schema.readField middle space members)) :
    root.Ends (readRequest title space scope (before ++ .obj members :: after)) := by
  induction before generalizing scope fields with
  | nil =>
    cases earlier
    rw [List.nil_append, readRequest_cons]
    exact (ends.mapError (.inMessage title) fun _ => rfl).bind _
  | cons first before ih =>
    cases first with
    | obj =>
      rw [readRequest_cons] at earlier
      obtain ⟨⟨field, next⟩, read, earlier⟩ := bind_ok.mp earlier
      obtain ⟨⟨fields, middle⟩, others, ⟨⟩⟩ := bind_ok.mp earlier
      rw [List.cons_append, readRequest_cons, read, ok_bind]
      exact (ih others).bind _
    | _ => cases earlier

theorem MissesInMessage.ends {title : Text}
    (misses : MissesInMessage title space name scope members) :
    (undefinedName name).Ends (readMessage title space scope members) := by
  rw [readMessage]
  cases misses with
  | parameter listed earlier misses =>
    rw [listed, ok_bind]
    exact (ends_readRequest earlier (ends_map.mp misses.ends)).bind _
  | response listed earlier answered misses =>
    simp only [listed, earlier, answered, ok_bind]
    exact (ends_map.mp misses.ends).bind _
  | error listed earlier answered responds throws misses =>
    simp only [listed, earlier, answered, responds, throws, ok_bind]
    exact (ends_map.mp misses.ends).bind _

private theorem ends_readMessages {before after message messages}
    (earlier : readMessages space scope before = .ok (messages, middle))
    (ends : root.Ends (readMessage message space middle members)) :
    root.Ends (readMessages space scope (before ++ (message, .obj members) :: after)) := by
  induction before generalizing scope messages with
  | nil =>
    cases earlier
    exact ends.bind _
  | cons first before ih =>
    obtain ⟨title, value⟩ := first
    cases value with
    | obj =>
      obtain ⟨⟨message, next⟩, read, earlier⟩ := bind_ok.mp earlier
      obtain ⟨⟨messages, middle⟩, others, ⟨⟩⟩ := bind_ok.mp earlier
      rw [List.cons_append, readMessages, read, ok_bind]
      exact (ih others).bind _
    | _ => cases earlier

theorem Misses.ends (misses : Misses scope members name) :
    (undefinedName name).Ends (readMembers scope members) := by
  rw [readMembers]
  cases misses with
  | type named listed earlier misses =>
    simp only [named, listed, ok_bind]
    exact (ends_readTypes earlier (ends_map.mp misses.ends)).bind _
  | message named listed types listedToo earlier misses =>
    simp only [named, listed, types, listedToo, ok_bind]
    exact (ends_readMessages earlier misses.ends).bind _

end Protocol

end Avro
