import Avro.Proofs.Outcome
import Avro.Schema.Read

/-!
# Reading as a relation

`Reads scope part meaning after` has one rule for each form that a part of a document may have, and
no rule for a part that is refused. `Part.read_ok_iff` says that these are exactly the successful
readings.
-/

set_option autoImplicit false

namespace Avro.Schema

open Kind

inductive Part where
  | schema (space : Text) (value : Json)
  | branches (space : Text) (values : List Json)
  | fields (owner : FullName) (seen : List Text) (values : List Json)
  | field (space : Text) (members : Members)

inductive Meaning where
  | schema (schema : Schema)
  | branches (branches : List Schema)
  | fields (fields : List Field)
  | field (field : Field)

def Part.read (scope : Scope) : Part → Except SchemaError (Meaning × Scope)
  | .schema space value =>
    (Schema.read scope space value).map fun result => (.schema result.1, result.2)
  | .branches space values =>
    (readBranches scope space values).map fun result => (.branches result.1, result.2)
  | .fields owner seen values =>
    (readFields scope owner seen values).map fun result => (.fields result.1, result.2)
  | .field space members =>
    (readField scope space members).map fun result => (.field result.1, result.2)

/-- Successful readings. A record is in scope while its fields are read. -/
inductive Reads : Scope → Part → Meaning → Scope → Prop where
  | primitive {scope space name kind} (found : Primitive.ofName? name = some kind) :
      Reads scope (.schema space (.str name)) (.schema (.plain kind)) scope
  | name {scope : Scope} {space name schema} (other : Primitive.ofName? name = none)
      (resolved : scope.resolve? name space = some schema) :
      Reads scope (.schema space (.str name)) (.schema schema) scope
  | union {scope after space values branches union}
      (items : Reads scope (.branches space values) (.branches branches) after)
      (made : makeUnion branches = .ok union) :
      Reads scope (.schema space (.arr values)) (.schema union) after
  | primitiveObject {scope : Scope} {space type : Text} {members : Members} {kind : Primitive}
      (typed : members.get? "type" = some (.str type)) (found : Primitive.ofName? type = some kind) :
      Reads scope (.schema space (.obj members))
        (.schema (.primitive kind (customProps reservedKeys members))) scope
  | leaf {scope inner : Scope} {space} {members : Members} {kind : Kind} {readBody}
      {head reference body} (isLeaf : kind.readLeaf? = some readBody)
      (typed : members.get? "type" = some (.str kind.name))
      (headed : readHead kind members space = .ok head)
      (defined : scope.define head = .ok (reference, inner))
      (bodied : readBody head.name.text members = .ok body) :
      Reads scope (.schema space (.obj members)) (.schema (.named reference))
        (inner.install reference body)
  | record {scope inner after : Scope} {space} {members : Members}
      {isError head reference list fields}
      (typed : members.get? "type" = some (.str (cond isError error record).name))
      (headed : readHead (cond isError .error .record) members space = .ok head)
      (defined : scope.define head = .ok (reference, inner))
      (listed : readFieldList head.name.text members = .ok list)
      (items : Reads inner (.fields head.name [] list) (.fields fields) after) :
      Reads scope (.schema space (.obj members)) (.schema (.named reference))
        (after.install reference (.record isError fields))
  | container {scope after space} {members : Members} {value schema} {kind : Container}
      (typed : members.get? "type" = some (.str kind.name))
      (present : members.get? kind.key = some value)
      (inner : Reads scope (.schema space value) (.schema schema) after) :
      Reads scope (.schema space (.obj members))
        (.schema (.container kind schema (customProps reservedKeys members))) after
  | nameObject {scope : Scope} {space type} {members : Members} {schema}
      (typed : members.get? "type" = some (.str type)) (other : Primitive.ofName? type = none)
      (noKind : ofName? type = none) (noContainer : Container.ofName? type = none)
      (resolved : scope.resolve? type space = some schema) :
      Reads scope (.schema space (.obj members)) (.schema schema) scope
  | wrapped {scope after space} {members : Members} {value schema}
      (typed : members.get? "type" = some value) (noName : ∀ type, value ≠ .str type)
      (inner : Reads scope (.schema space value) (.schema schema) after) :
      Reads scope (.schema space (.obj members)) (.schema schema) after
  | noBranches {scope space} : Reads scope (.branches space []) (.branches []) scope
  | moreBranches {scope middle after space value rest branch branches}
      (first : Reads scope (.schema space value) (.schema branch) middle)
      (others : Reads middle (.branches space rest) (.branches branches) after) :
      Reads scope (.branches space (value :: rest)) (.branches (branch :: branches)) after
  | noFields {scope owner seen} : Reads scope (.fields owner seen []) (.fields []) scope
  | moreFields {scope middle after} {owner : FullName} {seen members rest field fields}
      (first : Reads scope (.field owner.space members) (.field field) middle)
      (fresh : field.name ∉ seen)
      (others : Reads middle (.fields owner (field.name :: seen) rest) (.fields fields) after) :
      Reads scope (.fields owner seen (.obj members :: rest)) (.fields (field :: fields)) after
  | field {scope after space name members value type field}
      (called : readFieldName members = .ok name) (typed : members.get? "type" = some value)
      (inner : Reads scope (.schema space value) (.schema type) after)
      (completed : readFieldRest members name type = .ok field) :
      Reads scope (.field space members) (.field field) after

def readTyped (scope : Scope) (space : Text) (members : Members) (type : Text) :
    Except SchemaError (Schema × Scope) :=
  match Primitive.ofName? type with
  | some kind => .ok (.primitive kind (customProps reservedKeys members), scope)
  | none =>
    match ofName? type with
    | some kind => do
      let head ← readHead kind members space
      let (reference, inner) ← scope.define head
      match kind.readLeaf? with
      | some readBody => do
        let body ← readBody head.name.text members
        return (.named reference, inner.install reference body)
      | none => do
        let list ← readFieldList head.name.text members
        let (fields, after) ← readFields inner head.name [] list
        return (.named reference, after.install reference (.record (kind = .error) fields))
    | none =>
      match Container.ofName? type with
      | some kind =>
        match members.get? kind.key with
        | none => .error (.noInner kind.name kind.key)
        | some inner => do
          let (inner, after) ← read scope space inner
          return (.container kind inner (customProps reservedKeys members), after)
      | none => (readName scope space type).map fun schema => (schema, scope)

variable {value : Json} {meaning : Meaning} {type : Text} {scope : Scope} {schema : Schema}
  {owner : FullName}

theorem read_obj (scope : Scope) (space : Text) (members : Members) :
    read scope space (.obj members) =
      match members.get? "type" with
      | none => .error .noType
      | some (.str type) => readTyped scope space members type
      | some inner => read scope space inner := by
  rw [read]
  split
  next absent => simp only [absent]
  next type typed =>
    simp only [typed, readTyped]
    cases Primitive.ofName? type with
    | some kind => rfl
    | none =>
      cases ofName? type with
      | some kind =>
        refine bind_congr fun head => bind_congr fun result => ?_
        cases kind.readLeaf? with
        | some => rfl
        | none =>
          dsimp only
          split
          next failed => simp only [failed]; rfl
          next listed => simp only [listed]; rfl
      | none =>
        cases Container.ofName? type with
        | none => rfl
        | some =>
          dsimp only
          split
          next absent => simp only [absent]
          next present => simp only [present]
  next inner other typed =>
    simp only [typed]

theorem Kind.ofName?_eq_some_iff {kind : Kind} :
    ofName? type = some kind ↔ type = kind.name := by
  constructor
  · intro found
    have same := List.find?_some found
    exact (of_decide_eq_true same).symm
  · rintro rfl
    cases kind <;> decide

theorem readName_ok_iff {space name : Text} :
    readName scope space name = .ok schema ↔
      (∃ kind, Primitive.ofName? name = some kind ∧ schema = .plain kind) ∨
        (Primitive.ofName? name = none ∧ scope.resolve? name space = some schema) := by
  unfold readName
  cases Primitive.ofName? name with
  | some kind => simp [eq_comm]
  | none => cases scope.resolve? name space <;> simp

theorem Kind.not_primitive (kind : Kind) : Primitive.ofName? kind.name = none := by
  cases kind <;> decide

private theorem name_of_container {kind : Container} (found : Container.ofName? type = some kind) :
    type = kind.name := by
  have same := List.find?_some found
  exact (of_decide_eq_true same).symm

theorem ofName?_container (kind : Container) : Primitive.ofName? kind.name = none ∧
    Kind.ofName? kind.name = none ∧ Container.ofName? kind.name = some kind := by
  cases kind <;> decide

section Forms

variable {scope : Scope} {space : Text} {members : Members}

theorem read_primitive {kind : Primitive} (typed : members.get? "type" = some (.str type))
    (found : Primitive.ofName? type = some kind) :
    read scope space (.obj members) =
      .ok (.primitive kind (customProps reservedKeys members), scope) := by
  simp [read_obj, typed, readTyped, found]

theorem read_leaf {kind : Kind} {readBody} (isLeaf : kind.readLeaf? = some readBody)
    (typed : members.get? "type" = some (.str kind.name)) :
    read scope space (.obj members) = do
      let head ← readHead kind members space
      let (reference, inner) ← scope.define head
      let body ← readBody head.name.text members
      return (.named reference, inner.install reference body) := by
  have found := ofName?_eq_some_iff.mpr (rfl : kind.name = kind.name)
  simp only [read_obj, typed, readTyped, not_primitive, found, isLeaf]

theorem read_record {isError : Bool}
    (typed : members.get? "type" = some (.str (cond isError error record).name)) :
    read scope space (.obj members) = do
      let head ← readHead (cond isError .error .record) members space
      let (reference, inner) ← scope.define head
      let list ← readFieldList head.name.text members
      let (fields, after) ← readFields inner head.name [] list
      return (.named reference, after.install reference (.record isError fields)) := by
  have kind := ofName?_eq_some_iff.mpr
    (rfl : (cond isError error record).name = (cond isError error record).name)
  simp only [read_obj, typed, readTyped, not_primitive, kind]
  cases isError <;> rfl

theorem read_container {kind : Container} (typed : members.get? "type" = some (.str kind.name))
    (present : members.get? kind.key = some value) :
    read scope space (.obj members) = do
      let (inner, after) ← read scope space value
      return (.container kind inner (customProps reservedKeys members), after) := by
  obtain ⟨noPrimitive, noKind, found⟩ := ofName?_container kind
  simp [read_obj, typed, readTyped, noPrimitive, noKind, found, present]

theorem read_nameObject (typed : members.get? "type" = some (.str type))
    (other : Primitive.ofName? type = none) (noKind : ofName? type = none)
    (noContainer : Container.ofName? type = none) :
    read scope space (.obj members) = (readName scope space type).map fun schema => (schema, scope) := by
  simp [read_obj, typed, readTyped, other, noKind, noContainer]

theorem read_wrapped (typed : members.get? "type" = some value) (noName : ∀ type, value ≠ .str type)
    : read scope space (.obj members) = read scope space value := by
  simp only [read_obj, typed]

theorem readField_typed {name : Text} (called : readFieldName members = .ok name)
    (typed : members.get? "type" = some value) :
    readField scope space members = do
      let (type, after) ← read scope space value
      let field ← readFieldRest members name type
      return (field, after) := by
  rw [readField]
  simp only [called, ok_bind]
  split
  next absent => cases absent.symm.trans typed
  next present =>
    cases typed.symm.trans present
    rfl

theorem readFields_cons {seen rest} :
    readFields scope owner seen (.obj members :: rest) = do
      let (field, middle) ← (readField scope owner.space members).mapError (.inRecord owner.text)
      if field.name ∈ seen then .error (.duplicateField field.name owner.text)
      else do
        let (fields, after) ← readFields middle owner (field.name :: seen) rest
        return (field :: fields, after) := by
  rw [readFields]
  cases readField scope owner.space members <;> rfl

end Forms

theorem Reads.read_ok {after : Scope} {part : Part} (reads : Reads scope part meaning after) :
    part.read scope = .ok (meaning, after) := by
  induction reads with
  | primitive found => simp [Part.read, read, readName, found]
  | name other resolved => simp [Part.read, read, readName, other, resolved]
  | union items made ih =>
    obtain ⟨_, done, ⟨⟩⟩ := map_ok.mp ih
    simp [Part.read, read, done, made]
  | primitiveObject typed found => simp [Part.read, read_primitive typed found]
  | leaf isLeaf typed headed defined bodied =>
    simp [Part.read, read_leaf isLeaf typed, headed, defined, bodied]
  | record typed headed defined listed items ih =>
    obtain ⟨_, done, ⟨⟩⟩ := map_ok.mp ih
    simp [Part.read, read_record typed, headed, defined, listed, done]
  | container typed present inner ih =>
    obtain ⟨_, done, ⟨⟩⟩ := map_ok.mp ih
    simp [Part.read, read_container typed present, done]
  | nameObject typed other noKind noContainer resolved =>
    simp [Part.read, read_nameObject typed other noKind noContainer, readName, other, resolved]
  | wrapped typed noName inner ih =>
    obtain ⟨_, done, ⟨⟩⟩ := map_ok.mp ih
    simp [Part.read, read_wrapped typed noName, done]
  | noBranches => simp [Part.read, readBranches]
  | moreBranches _ _ firstIH othersIH =>
    obtain ⟨_, done, ⟨⟩⟩ := map_ok.mp firstIH
    obtain ⟨_, continued, ⟨⟩⟩ := map_ok.mp othersIH
    simp [Part.read, readBranches, done, continued]
  | noFields => simp [Part.read, readFields]
  | moreFields first fresh others firstIH othersIH =>
    obtain ⟨_, done, ⟨⟩⟩ := map_ok.mp firstIH
    obtain ⟨_, continued, ⟨⟩⟩ := map_ok.mp othersIH
    simp [Part.read, readFields, done, fresh, continued]
  | field called typed inner completed ih =>
    obtain ⟨_, done, ⟨⟩⟩ := map_ok.mp ih
    simp [Part.read, readField_typed called typed, done, completed]

private theorem reads_typed {after : Scope} {space : Text} {members : Members}
    (typed : members.get? "type" = some (.str type))
    (fieldsRead : ∀ inner owner list fields after, readFieldList owner.text members = .ok list →
      readFields inner owner [] list = .ok (fields, after) →
      Reads inner (.fields owner [] list) (.fields fields) after)
    (partRead : ∀ key value inner after, members.get? key = some value →
      read scope space value = .ok (inner, after) →
      Reads scope (.schema space value) (.schema inner) after)
    (accepted : readTyped scope space members type = .ok (schema, after)) :
    Reads scope (.schema space (.obj members)) (.schema schema) after := by
  unfold readTyped at accepted
  split at accepted
  next kind found =>
    cases accepted
    exact .primitiveObject typed found
  next other =>
    split at accepted
    next kind found =>
      cases ofName?_eq_some_iff.mp found
      obtain ⟨head, headed, accepted⟩ := bind_ok.mp accepted
      obtain ⟨⟨reference, inner⟩, defined, accepted⟩ := bind_ok.mp accepted
      dsimp only at accepted
      split at accepted
      next readBody isLeaf =>
        obtain ⟨body, bodied, accepted⟩ := bind_ok.mp accepted
        cases accepted
        exact .leaf isLeaf typed headed defined bodied
      next noLeaf =>
        obtain ⟨list, listed, accepted⟩ := bind_ok.mp accepted
        obtain ⟨⟨fields, after⟩, items, accepted⟩ := bind_ok.mp accepted
        cases kind with
        | enum | fixed => cases noLeaf
        | record | error =>
          cases accepted
          exact .record typed headed defined listed (fieldsRead _ _ _ _ _ listed items)
    next noKind =>
      split at accepted
      next kind found =>
        cases name_of_container found
        split at accepted
        next => cases accepted
        next value present =>
          obtain ⟨⟨schema, after⟩, inner, accepted⟩ := bind_ok.mp accepted
          cases accepted
          exact .container typed present (partRead _ _ _ _ present inner)
      next noContainer =>
        obtain ⟨schema, named, ⟨⟩⟩ := map_ok.mp accepted
        rcases readName_ok_iff.mp named with ⟨kind, found, _⟩ | ⟨_, resolved⟩
        · cases other.symm.trans found
        · exact .nameObject typed other noKind noContainer resolved

noncomputable def Part.size : Part → Nat
  | .schema _ value => sizeOf value
  | .branches _ values => sizeOf values
  | .fields _ _ values => sizeOf values
  | .field _ members => sizeOf members

/-- The rules of the relation are exactly the successful readings. -/
theorem Part.read_ok_iff {after : Scope} {part : Part} :
    part.read scope = .ok (meaning, after) ↔ Reads scope part meaning after := by
  refine ⟨?_, Reads.read_ok⟩
  -- The parts of a part are smaller, whatever its form, so the induction is on the size.
  induction size : part.size using Nat.strongRecOn generalizing scope after part meaning with
  | ind _ ih =>
  subst size
  intro accepted
  have inner {space : Text} {value : Json} (smaller : sizeOf value < part.size) {scope after : Scope}
      {schema : Schema} (read : Schema.read scope space value = .ok (schema, after)) :
      Reads scope (.schema space value) (.schema schema) after :=
    ih _ smaller rfl (by simp [Part.read, read])
  cases part with
  | schema space value =>
    obtain ⟨⟨schema, after⟩, done, ⟨⟩⟩ := map_ok.mp accepted
    cases value with
    | str name =>
      rw [Schema.read] at done
      obtain ⟨schema, named, ⟨⟩⟩ := map_ok.mp done
      rcases readName_ok_iff.mp named with ⟨kind, found, rfl⟩ | ⟨other, resolved⟩
      · exact .primitive found
      · exact .name other resolved
    | arr values =>
      rw [Schema.read] at done
      obtain ⟨⟨branches, after⟩, items, done⟩ := bind_ok.mp done
      obtain ⟨union, made, done⟩ := bind_ok.mp done
      cases done
      have smaller : (Part.branches space values).size < (Part.schema space (.arr values)).size := by
        simp [Part.size]
      exact .union (ih _ smaller rfl (by simp [Part.read, items])) made
    | obj members =>
      rw [read_obj] at done
      split at done
      next => cases done
      next type typed =>
        refine reads_typed typed ?_ ?_ done
        · intro scope owner list fields after listed items
          have smaller : (Part.fields owner [] list).size < (Part.schema space (.obj members)).size := by
            have := sizeOf_fieldList listed
            simp only [Part.size, Json.obj.sizeOf_spec]
            omega
          exact ih _ smaller rfl (by simp [Part.read, items])
        · intro key value schema after present
          refine inner ?_
          have := Members.sizeOf_get? present
          simp only [Part.size, Json.obj.sizeOf_spec]
          omega
      next value noName typed =>
        refine .wrapped typed noName (inner ?_ done)
        have := Members.sizeOf_get? typed
        simp only [Part.size, Json.obj.sizeOf_spec]
        omega
    | null | bool _ | num _ | int _ => simp [Schema.read] at done
  | branches space values =>
    obtain ⟨⟨branches, after⟩, done, ⟨⟩⟩ := map_ok.mp accepted
    cases values with
    | nil =>
      rw [readBranches] at done
      cases done
      exact .noBranches
    | cons value rest =>
      rw [readBranches] at done
      obtain ⟨⟨branch, middle⟩, first, done⟩ := bind_ok.mp done
      obtain ⟨⟨branches, after⟩, others, done⟩ := bind_ok.mp done
      cases done
      have smaller : (Part.branches space rest).size < (Part.branches space (value :: rest)).size := by
        simp only [Part.size, List.cons.sizeOf_spec]
        omega
      refine .moreBranches (inner ?_ first) (ih _ smaller rfl (by simp [Part.read, others]))
      simp only [Part.size, List.cons.sizeOf_spec]
      omega
  | fields owner seen values =>
    obtain ⟨⟨fields, after⟩, done, ⟨⟩⟩ := map_ok.mp accepted
    cases values with
    | nil =>
      rw [readFields] at done
      cases done
      exact .noFields
    | cons value rest =>
      cases value with
      | obj members =>
        rw [readFields] at done
        split at done
        next => cases done
        next field middle first =>
          split at done
          next => cases done
          next fresh =>
            obtain ⟨⟨fields, after⟩, others, done⟩ := bind_ok.mp done
            cases done
            have firstSmaller : (Part.field owner.space members).size <
                (Part.fields owner seen (.obj members :: rest)).size := by
              simp only [Part.size, List.cons.sizeOf_spec, Json.obj.sizeOf_spec]
              omega
            have othersSmaller : (Part.fields owner (field.name :: seen) rest).size <
                (Part.fields owner seen (.obj members :: rest)).size := by
              simp only [Part.size, List.cons.sizeOf_spec]
              omega
            have firstRead : Reads scope (.field owner.space members) (.field field) middle :=
              ih _ firstSmaller rfl (by simp [Part.read, first])
            exact .moreFields firstRead fresh (ih _ othersSmaller rfl (by simp [Part.read, others]))
      | _ => simp [readFields] at done
  | field space members =>
    obtain ⟨⟨field, after⟩, done, ⟨⟩⟩ := map_ok.mp accepted
    rw [readField] at done
    obtain ⟨name, called, done⟩ := bind_ok.mp done
    split at done
    next => cases done
    next value typed =>
      obtain ⟨⟨type, after⟩, read, done⟩ := bind_ok.mp done
      obtain ⟨field, completed, done⟩ := bind_ok.mp done
      cases done
      exact .field called typed (inner (Members.sizeOf_get? typed) read) completed

section Parts

variable {scope after : Scope} {space : Text} {values : List Json}

theorem read_schema_ok :
    Part.read scope (.schema space value) = .ok (meaning, after) ↔
      ∃ schema, meaning = .schema schema ∧ read scope space value = .ok (schema, after) := by
  rw [Part.read, map_ok]
  grind

theorem read_branches_ok :
    Part.read scope (.branches space values) = .ok (meaning, after) ↔
      ∃ branches, meaning = .branches branches ∧
        readBranches scope space values = .ok (branches, after) := by
  rw [Part.read, map_ok]
  grind

theorem read_fields_ok {before : List Text} :
    Part.read scope (.fields owner before values) = .ok (meaning, after) ↔
      ∃ fields, meaning = .fields fields ∧
        readFields scope owner before values = .ok (fields, after) := by
  rw [Part.read, map_ok]
  grind

theorem read_schema_iff :
    Part.read scope (.schema space value) = .ok (.schema schema, after) ↔
      read scope space value = .ok (schema, after) := by
  simp [read_schema_ok]

theorem read_branches_iff {branches : List Schema} :
    Part.read scope (.branches space values) = .ok (.branches branches, after) ↔
      readBranches scope space values = .ok (branches, after) := by
  simp [read_branches_ok]

theorem read_fields_iff {before fields} :
    Part.read scope (.fields owner before values) = .ok (.fields fields, after) ↔
      readFields scope owner before values = .ok (fields, after) := by
  simp [read_fields_ok]

theorem read_ok_iff :
    read scope space value = .ok (schema, after) ↔
      Reads scope (.schema space value) (.schema schema) after := by
  rw [← Part.read_ok_iff, read_schema_iff]

theorem readBranches_ok_iff {branches : List Schema} :
    readBranches scope space values = .ok (branches, after) ↔
      Reads scope (.branches space values) (.branches branches) after := by
  rw [← Part.read_ok_iff, read_branches_iff]

theorem readFields_ok_iff {seen fields} :
    readFields scope owner seen values = .ok (fields, after) ↔
      Reads scope (.fields owner seen values) (.fields fields) after := by
  rw [← Part.read_ok_iff, read_fields_iff]

theorem readField_ok_iff {members field} :
    readField scope space members = .ok (field, after) ↔
      Reads scope (.field space members) (.field field) after := by
  rw [← Part.read_ok_iff, Part.read, map_ok]
  simp

end Parts

end Avro.Schema
