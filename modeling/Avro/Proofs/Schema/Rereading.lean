import Avro.Proofs.Schema.Mentions
import Avro.Proofs.Schema.Positions

/-!
# Reading back what was written

Where a written document is read again, a faithful mention is read as the type it stands for, and
all the rest is read as it was.
-/

set_option autoImplicit false

open List

namespace Avro

open Json (membersAsRead itemsAsRead)

variable {ints : Prop}

mutual

/-- What is read where a schema was written. -/
def Schema.asRead : Schema → Schema
  | .primitive kind props => .primitive kind (membersAsRead props)
  | .container kind inner props => .container kind inner.asRead (membersAsRead props)
  | .union branches _ => .union (allAsRead branches) []
  | .named reference => .named reference

def Schema.allAsRead : List Schema → List Schema
  | [] => []
  | schema :: rest => schema.asRead :: allAsRead rest

end

theorem Schema.allAsRead_eq (schemas : List Schema) : allAsRead schemas = schemas.map asRead := by
  induction schemas with
  | nil => rw [allAsRead, map_nil]
  | cons _ _ ih => rw [allAsRead, ih, map_cons]

def Field.asRead (field : Field) : Field := field.asReadWith field.type.asRead

def Body.asRead : Body → Body
  | .record isError fields => .record isError (fields.map Field.asRead)
  | .enum symbols default => .enum symbols default
  | .fixed size => .fixed size

def Definition.asRead (definition : Definition) : Definition :=
  definition.asReadWith definition.body.asRead

theorem Definition.map_name_asRead (definitions : List Definition) :
    (definitions.map Definition.asRead).map (·.name) = definitions.map (·.name) := by
  rw [map_map]
  rfl

namespace Schema

variable {meaning : Meaning}

/-- The part to be read where a piece met in a namespace was written. -/
inductive Rereads : Text → Piece → Trees → Part → Prop
  | schema {space schema tree} :
      Rereads space (.schema schema) (.one tree) (.schema space tree.asRead)
  | schemas {space schemas trees} :
      Rereads space (.schemas schemas) (.many trees) (.branches space (itemsAsRead trees))
  | fields {owner : FullName} {before : List Text} {fields : List Field} {trees : List Json}
      (fresh : ∀ field ∈ fields, field.name ∉ before) :
      Rereads owner.space (.fields fields) (.many trees) (.fields owner before (itemsAsRead trees))

def Piece.asRead : Piece → Meaning
  | .schema whole => .schema whole.asRead
  | .schemas all => .branches (allAsRead all)
  | .fields all => .fields (all.map Field.asRead)

section Parts

variable {scope after : Scope} {space : Text}

theorem exists_extend {part : Part} (done : part.read scope = .ok (meaning, after)) :
    ∃ definitions, after = scope.extend definitions := by
  obtain ⟨definitions, extended, _⟩ := (Part.read_ok_iff.mp done).offers.1
  exact ⟨definitions, extended.eq_extend⟩

theorem read_str_ok {name schema} :
    read scope space (.str name) = .ok (schema, after) ↔
      after = scope ∧ readName scope space name = .ok schema := by
  rw [read, map_ok]
  grind

theorem read_arr_ok {values schema} :
    read scope space (.arr values) = .ok (schema, after) ↔
      ∃ branches, readBranches scope space values = .ok (branches, after) ∧
        makeUnion branches = .ok schema := by
  rw [read, bind_ok]
  simp only [Prod.exists, bind_ok, pure_ok, Except.ok.injEq, Prod.mk.injEq]
  grind

theorem readBranches_cons_ok {value rest branches} :
    readBranches scope space (value :: rest) = .ok (branches, after) ↔
      ∃ branch others middle, branches = branch :: others ∧
        read scope space value = .ok (branch, middle) ∧
        readBranches middle space rest = .ok (others, after) := by
  rw [readBranches, bind_ok]
  simp only [Prod.exists, bind_ok, pure_ok, Except.ok.injEq, Prod.mk.injEq]
  grind

end Parts

theorem names_extend (scope : Scope) (definitions : List Definition) :
    (scope.extend definitions).names = scope.names ++ definitions.map (·.name.text) :=
  (Scope.extends_extend scope definitions).names

theorem readFields_fieldTree_ok {scope after owner before} {field : Field} {tree rest fields}
    (regular : field.Regular ints) (fresh : field.name ∉ before) :
    readFields scope owner before ((fieldTree field tree).asRead :: rest) = .ok (fields, after) ↔
      ∃ type others middle, fields = field.asReadWith type :: others ∧
        read scope owner.space tree.asRead = .ok (type, middle) ∧
        readFields middle owner (field.name :: before) rest = .ok (others, after) := by
  rw [asRead_fieldTree tree regular, readFields_cons, readField_fieldMembersAsRead tree regular]
  cases read scope owner.space tree.asRead with
  | error => simp
  | ok =>
    have name (type : Schema) : (field.asReadWith type).name = field.name := rfl
    simp only [ok_map, ok_mapError, ok_bind, name, fresh, if_false, bind_ok, Prod.exists, pure_ok,
      Except.ok.injEq, Prod.mk.injEq]
    grind

theorem fresh_rest {field : Field} {rest : List Field} {before : List Text}
    (apart : field.name ∉ rest.map (·.name)) (fresh : ∀ other ∈ rest, other.name ∉ before) :
    ∀ other ∈ rest, other.name ∉ field.name :: before := by
  intro other among present
  rcases mem_cons.mp present with same | earlier
  · exact apart (mem_map.mpr ⟨other, among, same⟩)
  · exact fresh other among earlier

theorem Rereads.marks {space piece trees part} (rereads : Rereads space piece trees part) :
    part.marks = trees.marks space piece := by
  cases rereads <;> rfl

/-- However names are read, the types defined are those that were written in full. -/
theorem Writes.names_after {catalog space piece seen trees news mentions}
    (writes : Writes catalog space piece seen trees news mentions)
    (regular : piece.Regular ints) (each : ∀ definition ∈ catalog, definition.Regular ints)
    {part : Part} (rereads : Rereads space piece trees part) {scope after : Scope}
    (names : scope.names = seen.reverse) (done : part.read scope = .ok (meaning, after)) :
    after.names = (seen.add news).reverse := by
  obtain ⟨events, marked, defined, _, _⟩ := writes.events regular each
  rw [(Part.read_ok_iff.mp done).names, rereads.marks, marked, declared_map_mark, defined, names,
    Seen.add, reverse_append, reverse_reverse]

/-- A document has told the types of a catalog that have been written, and some definitions of the
catalog come next. -/
structure Retells (scope : Scope) (catalog : Catalog) (seen : Seen) (next : List Definition) :
    Prop where
  told : ∃ types, scope.Names catalog types ∧ seen = Seen.add [] types
  stands : ∃ before later, catalog = before ++ next ++ later ∧
    before.length = scope.catalog.length

section Retelling

variable {scope : Scope} {catalog : Catalog} {seen : Seen}
  {first second definitions : List Definition} {place : Nat}

theorem Retells.names (retells : Retells scope catalog seen first) : scope.names = seen.reverse := by
  obtain ⟨types, names, rfl⟩ := retells.told
  rw [names.toTells.names, Seen.add, append_nil, reverse_reverse]

theorem Retells.find? {definition : Definition}
    (retells : Retells scope catalog seen (definition :: first)) (name : FullName) :
    catalog.find? ⟨scope.catalog.length, name⟩ = some definition := by
  obtain ⟨before, later, rfl, length⟩ := retells.stands
  rw [← length, append_assoc]
  exact Catalog.find?_middle before (first ++ later) definition name

theorem Retells.front (retells : Retells scope catalog seen (first ++ second)) :
    Retells scope catalog seen first where
  told := retells.told
  stands := by
    obtain ⟨before, later, same, length⟩ := retells.stands
    exact ⟨before, second ++ later, by simp only [same, append_assoc], length⟩

theorem Retells.extend {begun : List Definition}
    (retells : Retells scope catalog seen (first ++ second))
    (same : begun.map (·.name) = first.map (·.name)) :
    Retells (scope.extend begun) catalog
      (seen.add (Scope.references scope.catalog.length first)) second where
  told := by
    obtain ⟨types, names, rfl⟩ := retells.told
    obtain ⟨before, later, whole, length⟩ := retells.stands
    have extended := names.toTells.extends_ (Scope.extends_extend scope begun)
    rw [Scope.references_congr same] at extended
    refine ⟨_, ⟨extended, forall_mem_append.mpr ⟨names.held, ?_⟩⟩, Seen.add_append .. |>.symm⟩
    intro reference member
    rw [← length] at member
    obtain ⟨definition, _, found, named⟩ := Catalog.find?_references before first reference member
    rw [whole, ← append_assoc, append_assoc]
    exact Catalog.Holds.append ⟨definition, found, named⟩ _
  stands := by
    obtain ⟨before, later, whole, length⟩ := retells.stands
    have lengths : begun.length = first.length := by
      rw [← length_map (·.name), same, length_map]
    refine ⟨before ++ first, later, by simp only [whole, append_assoc], ?_⟩
    rw [length_append, length, ← lengths]
    exact length_append.symm

theorem Retells.length_names (retells : Retells scope catalog seen second) {middle : Scope}
    (names : middle.names = (seen.add (Scope.references place first)).reverse) :
    middle.names.length = scope.names.length + (first.map Definition.asRead).length := by
  rw [names, retells.names, Seen.add]
  simp only [length_reverse, length_append, length_map, Scope.length_references]
  exact Nat.add_comm ..

theorem references_eq_nil (same : [] = Scope.references place definitions) : definitions = [] := by
  cases definitions with
  | nil => rfl
  | cons => cases same

theorem references_eq_cons {reference news}
    (same : reference :: news = Scope.references place definitions) :
    ∃ definition rest, definitions = definition :: rest ∧ reference = ⟨place, definition.name⟩ ∧
      news = Scope.references (place + 1) rest := by
  cases definitions with
  | nil => cases same
  | cons definition rest =>
    obtain ⟨rfl, rfl⟩ := List.cons.inj same
    exact ⟨definition, rest, rfl, rfl, rfl⟩

theorem references_eq_append {news more : List Reference}
    (same : news ++ more = Scope.references place definitions) :
    ∃ front back, definitions = front ++ back ∧ news = Scope.references place front ∧
      more = Scope.references (place + front.length) back := by
  induction news generalizing place definitions with
  | nil => exact ⟨[], definitions, rfl, rfl, same⟩
  | cons _ _ ih =>
    obtain ⟨definition, rest, rfl, rfl, later⟩ := references_eq_cons same
    obtain ⟨front, back, rfl, rfl, rfl⟩ := ih later
    refine ⟨definition :: front, back, rfl, rfl, ?_⟩
    rw [length_cons, Nat.add_assoc, Nat.add_comm 1]

/-- Where two parts are read one after the other, the first has added as many definitions as it
should, and so those that it should if both together have. -/
theorem eq_extend_of_length {part next : Part} {rest middle}
    (begun : part.read scope = .ok (meaning, middle))
    (ended : next.read middle = .ok (rest, scope.extend (first ++ second)))
    (length : middle.names.length = scope.names.length + first.length) :
    middle = scope.extend first := by
  obtain ⟨front, rfl⟩ := exists_extend begun
  obtain ⟨back, same⟩ := exists_extend ended
  rw [Scope.extend_append, Scope.extend_inj] at same
  rw [names_extend, length_append, length_map] at length
  rw [(List.append_inj same (by omega)).1]

end Retelling

end Schema

end Avro
