import Avro.Idl.Compile
import Avro.Proofs.Idl.Grammar
import Avro.Proofs.Idl.Values

/-!
# What readers build

There are few ways to build a type, so what each of them keeps holds of every type that is read.
Each field and parameter was read at some place behind the first token.
-/

set_option autoImplicit false

open List

namespace Avro.Idl

/-! ## Types -/

theorem Site.resolve?_within {site : Site} {name schema}
    (resolved : site.resolve? name = some schema) :
    ∃ space, site.scope.resolve? name space = some schema := by
  rw [Site.resolve?] at resolved
  split at resolved
  · rename_i found
    cases resolved
    exact ⟨_, found⟩
  · split at resolved
    · cases resolved
    · exact ⟨_, resolved⟩

structure Site.Keeps (site : Site) (Holds : Schema → Prop) : Prop where
  plain (kind : Primitive) : Holds (.plain kind)
  logical : ∀ entry ∈ logicalTypes, Holds entry.2
  decimal (precision scale : Nat) : Holds (decimal precision scale)
  resolved {name : Text} {schema : Schema} (found : site.resolve? name = some schema) : Holds schema
  container {kind : Container} {schema : Schema} (inner : Holds schema) :
    Holds (.container kind schema [])
  union {branches : List Schema} {union : Schema} (each : ∀ branch ∈ branches, Holds branch)
    (made : Schema.makeUnion branches = .ok union) : Holds union

section Types

variable {site : Site} {Holds : Schema → Prop} {last : Token} {tokens : List Token}

def Phrase.All (Holds : Schema → Prop) : Phrase → Prop
  | .base schema | .whole schema => Holds schema
  | .branches schemas => ∀ schema ∈ schemas, Holds schema

private theorem Site.Keeps.denoted {phrase rest} (keeps : site.Keeps Holds)
    (denotes : Denotes site phrase tokens rest) : phrase.All Holds := by
  induction denotes with
  | container _ _ _ _ ih => exact keeps.container ih
  | union _ _ _ _ legal ih => exact keeps.union ih (makeUnion_ok_iff.mpr ⟨legal, rfl⟩)
  | decimal | scaled => exact keeps.decimal _ _
  | builtIn _ known =>
    rw [builtIn?_eq] at known
    rcases Option.or_eq_some_iff.mp known with listed | ⟨_, isPrimitive⟩
    · exact keeps.logical _ (Scope.mem_of_lookup listed)
    · obtain ⟨kind, _, rfl⟩ := Option.map_eq_some_iff.mp isPrimitive
      exact keeps.plain kind
  | name _ resolved => exact keeps.resolved resolved
  | plain _ _ ih | null _ _ _ ih => exact ih
  | optional _ _ _ legal ih =>
    have each := forall_mem_cons.mpr ⟨keeps.plain .null, forall_mem_singleton.mpr ih⟩
    exact keeps.union each (makeUnion_ok_iff.mpr ⟨legal, rfl⟩)
  | one _ ih => exact forall_mem_singleton.mpr ih
  | more _ _ _ ih others => exact forall_mem_cons.mpr ⟨ih, others⟩

theorem Site.Keeps.readType {result} (keeps : site.Keeps Holds)
    (read : readType site last tokens = .ok result) : Holds result.value :=
  keeps.denoted (denotes_of_readType read)

theorem Site.Keeps.readResponse {result} (keeps : site.Keeps Holds)
    (read : readResponse site last tokens = .ok result) : Holds result.value := by
  cases tokens with
  | nil => exact keeps.readType read
  | cons =>
    rw [Idl.readResponse] at read
    split at read
    · cases read
      exact keeps.plain .null
    · exact keeps.readType read

theorem Site.Keeps.readThrows {tokens result} (keeps : site.Keeps Holds)
    (read : readThrows site last tokens = .ok result) : ∀ schema ∈ result.value, Holds schema := by
  rw [Idl.readThrows] at read
  obtain ⟨name, _, read⟩ := bind_ok.mp read
  split at read
  · cases read
  · rename_i found
    have here := keeps.resolved found
    split at read
    · cases read
    · split at read
      · obtain ⟨errors, others, read⟩ := bind_ok.mp read
        cases read
        have shorter := name.skip.shorter
        exact forall_mem_cons.mpr ⟨here, keeps.readThrows others⟩
      · cases read
        exact forall_mem_singleton.mpr here
termination_by tokens.length

theorem Site.Keeps.passEnding {name response result} (keeps : site.Keeps Holds)
    (read : passEnding site name response last tokens = .ok result) :
    (∀ schema ∈ result.value.errors, Holds schema) ∧
      (result.value.oneWay → response.isNull ∧ result.value.errors = []) := by
  have plainly : (∀ schema ∈ (Ending.mk false []).errors, Holds schema) ∧
      ((Ending.mk false []).oneWay → response.isNull ∧ (Ending.mk false []).errors = []) :=
    ⟨forall_mem_nil _, fun wrong => Bool.noConfusion wrong⟩
  cases tokens with
  | nil =>
    cases read
    exact plainly
  | cons =>
    rw [Idl.passEnding] at read
    split at read
    · split at read
      · rename_i isNull
        cases read
        exact ⟨forall_mem_nil _, fun _ => ⟨isNull, rfl⟩⟩
      · cases read
    · split at read
      · obtain ⟨errors, thrown, same⟩ := map_ok.mp read
        cases same
        exact ⟨keeps.readThrows thrown, fun wrong => Bool.noConfusion wrong⟩
      · cases read
        exact plainly

end Types

/-! ## Fields -/

section Fields

variable {site : Site} {last : Token} {field : Field} {tokens : List Token}

theorem readVariable_ok {type doc inherited result}
    (read : readVariable type doc inherited last tokens = .ok result) :
    ∃ (back : Passed tokens Members) (name : Consumed back.rest Token) (drawn : Field)
      (default : Passed name.rest (Option Json)), readAnnotations last tokens = .ok back ∧
      Name.isLegal name.value.text = true ∧
      back.value.foldlM (annotateField name.value.position)
        ⟨name.value.text, type, doc, none, .ascending, none, inherited⟩ = .ok drawn ∧
      passDefault last name.rest = .ok default ∧
      result.value = { drawn with default := default.value } := by
  obtain ⟨back, noted, read⟩ := bind_ok.mp read
  obtain ⟨name, _, read⟩ := bind_ok.mp read
  obtain ⟨_, legal, read⟩ := bind_ok.mp read
  obtain ⟨drawn, annotated, read⟩ := bind_ok.mp read
  obtain ⟨default, chosen, read⟩ := bind_ok.mp read
  cases read
  exact ⟨back, name, drawn, default, noted, require_ok legal, annotated, chosen, rfl⟩

/-- How a field or a parameter is read: annotations, a type, and behind it, maybe not at once, the
variable. -/
inductive FieldRead (site : Site) (last : Token) (tokens : List Token) (field : Field) : Prop
  | mk {front type doc part found} (noted : readAnnotations last tokens = .ok front)
      (typed : readType site last front.rest = .ok type)
      (documented : doc = (peek last tokens).doc ∨ doc = (peek last front.rest).doc)
      (within : part <:+ type.rest)
      (read : readVariable (type.value.withProps front.value) doc
        (if type.value.isNamed then front.value else []) last part = .ok found)
      (same : found.value = field)

theorem mem_readVariables {type doc inherited tokens result}
    (read : readVariables type doc inherited last tokens = .ok result)
    (member : field ∈ result.value) :
    ∃ (part : List Token) (found : Consumed part Field), part <:+ tokens ∧
      readVariable type doc inherited last part = .ok found ∧ found.value = field := by
  rw [readVariables] at read
  obtain ⟨variable_, first, read⟩ := bind_ok.mp read
  split at read
  · obtain ⟨fields, others, read⟩ := bind_ok.mp read
    cases read
    have shorter := variable_.skip.shorter
    rcases mem_cons.mp member with rfl | later
    · exact ⟨tokens, variable_, suffix_rfl, first, rfl⟩
    · obtain ⟨part, found, within, readThere, same⟩ := mem_readVariables others later
      exact ⟨part, found, within.trans variable_.skip.suffix, readThere, same⟩
  · cases read
    cases mem_singleton.mp member
    exact ⟨tokens, variable_, suffix_rfl, first, rfl⟩
termination_by tokens.length

private theorem mem_readFieldLine {result} (read : readFieldLine site last tokens = .ok result)
    (member : field ∈ result.value) : FieldRead site last tokens field := by
  obtain ⟨front, noted, read⟩ := bind_ok.mp read
  obtain ⟨type, typed, read⟩ := bind_ok.mp read
  obtain ⟨fields, listed, read⟩ := bind_ok.mp read
  obtain ⟨closing, _, read⟩ := bind_ok.mp read
  cases read
  obtain ⟨part, found, within, read, same⟩ := mem_readVariables listed member
  refine .mk noted typed ?_ within read same
  split
  · exact .inr rfl
  · exact .inl rfl

theorem mem_readParameters {tokens result} (read : readParameters site last tokens = .ok result)
    (member : field ∈ result.value) : ∃ part, part <:+ tokens ∧ FieldRead site last part field := by
  cases tokens with
  | nil =>
    rw [readParameters] at read
    cases read
  | cons =>
    rw [readParameters] at read
    split at read
    · cases read
      cases member
    · obtain ⟨parameter, first, read⟩ := bind_ok.mp read
      obtain ⟨next, _, read⟩ := bind_ok.mp read
      obtain ⟨fields, others, read⟩ := bind_ok.mp read
      cases read
      have shorter := (parameter.andPass next).shorter
      rcases mem_cons.mp member with rfl | later
      · obtain ⟨front, noted, first⟩ := bind_ok.mp first
        obtain ⟨type, typed, first⟩ := bind_ok.mp first
        obtain ⟨found, drawn, same⟩ := bind_ok.mp first
        cases same
        exact ⟨_, suffix_rfl, .mk noted typed (.inl rfl) suffix_rfl drawn rfl⟩
      · obtain ⟨part, within, readThere⟩ := mem_readParameters others later
        exact ⟨part, within.trans (parameter.andPass next).suffix, readThere⟩
termination_by tokens.length
decreasing_by
  subst_vars
  exact shorter

private theorem repeated?_eq_none_iff {seen fields} :
    repeated? seen fields = none ↔
      (fields.map (·.name)).Nodup ∧ ∀ field ∈ fields, field.name ∉ seen := by
  induction fields generalizing seen with
  | nil => simp [repeated?]
  | cons _ _ ih =>
    rw [repeated?]
    split
    · rename_i before
      simp [before]
    · rename_i fresh
      rw [ih]
      simp only [map_cons, nodup_cons, mem_map, mem_cons, not_or]
      grind

theorem readRecordFields_ok {name owner before tokens result}
    (read : readRecordFields site name owner last before tokens = .ok result)
    (distinct : (before.map (·.name)).Nodup) :
    (result.value.map (·.name)).Nodup ∧
      ∀ field ∈ result.value, field ∈ before ∨
        ∃ part, part <:+ tokens ∧ FieldRead site last part field := by
  cases tokens with
  | nil =>
    rw [readRecordFields] at read
    cases read
  | cons =>
    rw [readRecordFields] at read
    split at read
    · cases read
      exact ⟨distinct, fun _ => .inl⟩
    · obtain ⟨line, listed, read⟩ := bind_ok.mp read
      split at read
      · cases read
      · rename_i fresh
        obtain ⟨fields, others, read⟩ := bind_ok.mp read
        cases read
        have shorter := line.shorter
        obtain ⟨apart, new⟩ := repeated?_eq_none_iff.mp fresh
        have distinctToo : ((before ++ line.value).map (·.name)).Nodup := by
          rw [map_append, nodup_append]
          refine ⟨distinct, apart, ?_⟩
          rintro _ earlier _ later rfl
          obtain ⟨field, among, same⟩ := mem_map.mp later
          exact new field among (same ▸ earlier)
        obtain ⟨whole, sources⟩ := readRecordFields_ok others distinctToo
        refine ⟨whole, fun field member => ?_⟩
        rcases sources field member with earlier | ⟨part, within, readThere⟩
        · rcases mem_append.mp earlier with given | here
          · exact .inl given
          · exact .inr ⟨_, suffix_rfl, mem_readFieldLine listed here⟩
        · exact .inr ⟨part, within.trans line.suffix, readThere⟩
termination_by tokens.length
decreasing_by
  subst_vars
  exact shorter

end Fields

/-! ## Declarations -/

section Declarations

variable {front : Front} {last : Token} {tokens : List Token} {result : Consumed tokens Scope}

theorem readSymbols_ok {before tokens result}
    (legal : ∀ symbol ∈ before, Name.isLegal symbol = true) (distinct : before.Nodup)
    (read : readSymbols last before tokens = .ok result) :
    (∀ symbol ∈ result.value, Name.isLegal symbol = true) ∧ result.value.Nodup := by
  cases tokens with
  | nil =>
    rw [readSymbols] at read
    cases read
  | cons =>
    rw [readSymbols] at read
    split at read
    · cases read
      exact ⟨legal, distinct⟩
    · obtain ⟨symbol, _, read⟩ := bind_ok.mp read
      obtain ⟨_, allowed, read⟩ := bind_ok.mp read
      obtain ⟨next, _, read⟩ := bind_ok.mp read
      obtain ⟨symbols, others, read⟩ := bind_ok.mp read
      cases read
      have shorter := (symbol.andPass next).shorter
      obtain ⟨here, fresh⟩ := Bool.and_eq_true_iff.mp (require_ok allowed)
      have longer := forall_mem_append.mpr ⟨legal, forall_mem_singleton.mpr here⟩
      have apart : (before ++ [symbol.value.text]).Nodup := by
        rw [nodup_append]
        refine ⟨distinct, pairwise_singleton _ _, ?_⟩
        rintro text earlier _ new rfl
        rw [mem_singleton.mp new] at earlier
        exact of_decide_eq_true fresh earlier
      have whole := readSymbols_ok longer apart others
      exact whole
termination_by tokens.length
decreasing_by
  subst_vars
  exact shorter

private theorem passEnumDefault_ok {owner symbols result}
    (read : passEnumDefault owner symbols last tokens = .ok result) :
    ∀ symbol, result.value = some symbol → symbol ∈ symbols := by
  intro symbol chosen
  cases tokens with
  | nil =>
    cases read
    cases chosen
  | cons =>
    rw [passEnumDefault] at read
    split at read
    · obtain ⟨name, _, read⟩ := bind_ok.mp read
      obtain ⟨_, allowed, read⟩ := bind_ok.mp read
      obtain ⟨closing, _, read⟩ := bind_ok.mp read
      cases read
      cases chosen
      exact contains_iff_mem.mp (require_ok allowed)
    · cases read
      cases chosen

theorem defineAt_ok {scope after definition name reference}
    (defined : defineAt scope definition name = .ok (reference, after)) :
    Name.isLegal definition.name.simple = true ∧ definition.name.text ∉ scope.names ∧
      reference = ⟨scope.catalog.length, definition.name⟩ ∧ after = scope.extend [definition] := by
  unfold defineAt at defined
  split at defined
  · cases defined
  · rename_i legal
    split at defined
    · rename_i accepted
      cases defined
      obtain ⟨fresh, placed, extended⟩ := Scope.define_ok_iff.mp accepted
      exact ⟨by simpa using legal, fresh, placed, extended.eq_extend⟩
    · cases defined

inductive BodyRead (site : Site) (last : Token) (tokens : List Token) : Body → Prop
  | record {fields : List Field} (isError : Bool) (distinct : (fields.map (·.name)).Nodup)
      (each : ∀ field ∈ fields, ∃ part, part <:+ tokens ∧ FieldRead site last part field) :
      BodyRead site last tokens (.record isError fields)
  | enum {symbols default} (legal : ∀ symbol ∈ symbols, Name.isLegal symbol = true)
      (distinct : symbols.Nodup) (among : ∀ symbol, default = some symbol → symbol ∈ symbols) :
      BodyRead site last tokens (.enum symbols default)
  | fixed {size : Nat} (small : (size : Int) ≤ Number.maxInt64) :
      BodyRead site last tokens (.fixed size)

/-- How a type is declared: it is in scope while its body is read. -/
inductive TypeRead (front : Front) (last : Token) (tokens : List Token) : Scope → Prop
  | mk {name start body definition}
      (made : definitionOf front.protocolSpace front.doc front.annotations name start =
        .ok definition) (legal : Name.isLegal definition.name.simple = true)
      (fresh : definition.name.text ∉ front.scope.names)
      (read : BodyRead (front.site (front.scope.extend [definition]) definition.name.space) last
        tokens body) :
      TypeRead front last tokens (front.scope.extend [{ definition with body := body }])

private theorem typeRead_readRecord {isError : Bool}
    (read : readRecord front isError last tokens = .ok result) :
    TypeRead front last tokens result.value := by
  obtain ⟨name, _, read⟩ := bind_ok.mp read
  obtain ⟨definition, made, read⟩ := bind_ok.mp read
  obtain ⟨⟨reference, scope⟩, defined, read⟩ := bind_ok.mp read
  obtain ⟨opening, _, read⟩ := bind_ok.mp read
  obtain ⟨fields, listed, read⟩ := bind_ok.mp read
  cases read
  obtain ⟨legal, fresh, rfl, rfl⟩ := defineAt_ok defined
  obtain ⟨distinct, sources⟩ := readRecordFields_ok listed nodup_nil
  have each : ∀ field ∈ fields.value, ∃ part, part <:+ tokens ∧ FieldRead
      (front.site (front.scope.extend [definition]) definition.name.space) last part field := by
    intro field member
    rcases sources field member with given | ⟨part, within, read⟩
    · cases given
    · exact ⟨part, within.trans (name.andThen opening).suffix, read⟩
  have whole := TypeRead.mk made legal fresh (.record isError distinct each)
  rwa [← Scope.install_extend] at whole

private theorem typeRead_readEnum (read : readEnum front last tokens = .ok result) :
    TypeRead front last tokens result.value := by
  obtain ⟨name, _, read⟩ := bind_ok.mp read
  obtain ⟨definition, made, read⟩ := bind_ok.mp read
  obtain ⟨opening, _, read⟩ := bind_ok.mp read
  obtain ⟨symbols, listed, read⟩ := bind_ok.mp read
  obtain ⟨default, chosen, read⟩ := bind_ok.mp read
  obtain ⟨⟨reference, scope⟩, defined, read⟩ := bind_ok.mp read
  cases read
  obtain ⟨legal, fresh, rfl, rfl⟩ := defineAt_ok defined
  obtain ⟨each, distinct⟩ := readSymbols_ok (forall_mem_nil _) nodup_nil listed
  exact .mk made legal fresh (.enum each distinct (passEnumDefault_ok chosen))

private theorem typeRead_readFixed (read : readFixed front last tokens = .ok result) :
    TypeRead front last tokens result.value := by
  obtain ⟨name, _, read⟩ := bind_ok.mp read
  obtain ⟨definition, made, read⟩ := bind_ok.mp read
  obtain ⟨opening, _, read⟩ := bind_ok.mp read
  obtain ⟨size, sized, read⟩ := bind_ok.mp read
  obtain ⟨closing, _, read⟩ := bind_ok.mp read
  obtain ⟨semicolon, _, read⟩ := bind_ok.mp read
  obtain ⟨⟨reference, scope⟩, defined, read⟩ := bind_ok.mp read
  cases read
  obtain ⟨legal, fresh, rfl, rfl⟩ := defineAt_ok defined
  exact .mk made legal fresh (.fixed (le_maxInt64_of_readInteger sized))

inductive MessageRead (front : Front) (messages : List Message) (last : Token)
    (tokens : List Token) : Message → Prop
  | mk {response name request part ending}
      (responded : readResponse (front.site front.scope front.protocolSpace) last tokens =
        .ok response) (legal : Name.isLegal name = true) (fresh : name ∉ messages.map (·.name))
      (requested : ∀ field ∈ request, ∃ part, part <:+ tokens ∧
        FieldRead (front.site front.scope front.protocolSpace) last part field)
      (ended : passEnding (front.site front.scope front.protocolSpace) name response.value last
        part = .ok ending) :
      MessageRead front messages last tokens ⟨name, front.doc, front.annotations, request,
        response.value, ending.value.errors, ending.value.oneWay⟩

private theorem messageRead_readMessage {messages result}
    (read : readMessage front messages last tokens = .ok result) :
    MessageRead front messages last tokens result.value := by
  obtain ⟨response, responded, read⟩ := bind_ok.mp read
  obtain ⟨name, _, read⟩ := bind_ok.mp read
  obtain ⟨_, legal, read⟩ := bind_ok.mp read
  obtain ⟨_, different, read⟩ := bind_ok.mp read
  obtain ⟨opening, _, read⟩ := bind_ok.mp read
  obtain ⟨request, requested, read⟩ := bind_ok.mp read
  obtain ⟨ending, ended, read⟩ := bind_ok.mp read
  obtain ⟨closing, _, read⟩ := bind_ok.mp read
  cases read
  refine .mk responded (require_ok legal) (fun present => ?_) (fun field member => ?_) ended
  · obtain ⟨message, member, same⟩ := mem_map.mp present
    exact of_decide_eq_true (all_eq_true.mp (require_ok different) message member) same
  · obtain ⟨part, within, read⟩ := mem_readParameters requested member
    exact ⟨part, within.trans ((response.andThen name).andThen opening).suffix, read⟩

theorem MessageRead.fresh {messages : List Message} {message : Message}
    (read : MessageRead front messages last tokens message) :
    message.name ∉ messages.map (·.name) := by
  obtain ⟨_, _, fresh⟩ := read
  exact fresh

/-- How a declaration that is no import is read: it adds a type to the scope, or a message. -/
inductive DeclarationRead (space : Text) (draft : Draft) (last : Token) (tokens : List Token) :
    Draft → Prop
  | type {annotations doc scope} (noted : readAnnotations last tokens = .ok annotations)
      (documented : doc = (peek last tokens).doc ∨ doc = (peek last annotations.rest).doc)
      (read : TypeRead ⟨draft.session.scope, space, doc, annotations.value⟩ last
        annotations.skip.rest scope) :
      DeclarationRead space draft last tokens
        { draft with session := { draft.session with scope := scope } }
  | message {annotations doc message} (noted : readAnnotations last tokens = .ok annotations)
      (documented : doc = (peek last tokens).doc ∨ doc = (peek last annotations.rest).doc)
      (read : MessageRead ⟨draft.session.scope, space, doc, annotations.value⟩ draft.messages last
        annotations.rest message) :
      DeclarationRead space draft last tokens
        { draft with messages := draft.messages ++ [message] }

theorem declarationRead_readDeclaration {space draft declared}
    (read : readDeclaration space draft last tokens = .ok declared) :
    DeclarationRead space draft last tokens declared.value := by
  obtain ⟨annotations, noted, read⟩ := bind_ok.mp read
  have documented : ∀ doc, doc = (if (peek last tokens).doc.isEmpty then
      (peek last annotations.rest).doc else (peek last tokens).doc) →
      doc = (peek last tokens).doc ∨ doc = (peek last annotations.rest).doc := by
    rintro doc rfl
    split
    · exact .inr rfl
    · exact .inl rfl
  dsimp only at read
  split at read
  · cases read
  split at read
  · obtain ⟨scope, declared, rfl⟩ := map_ok.mp read
    exact .type noted (documented _ rfl) (typeRead_readRecord declared)
  split at read
  · obtain ⟨scope, declared, rfl⟩ := map_ok.mp read
    exact .type noted (documented _ rfl) (typeRead_readEnum declared)
  split at read
  · obtain ⟨scope, declared, rfl⟩ := map_ok.mp read
    exact .type noted (documented _ rfl) (typeRead_readFixed declared)
  split at read
  · obtain ⟨message, declared, rfl⟩ := map_ok.mp read
    exact .message noted (documented _ rfl) (messageRead_readMessage declared)
  · cases read

end Declarations

end Avro.Idl
