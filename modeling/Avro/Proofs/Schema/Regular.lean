import Avro.Proofs.Name
import Avro.Proofs.Number.Integer
import Avro.Proofs.Schema.References

/-!
# Regular schemas

A schema is regular if it keeps the rules that reading enforces: legal names, symbols and fields
that do not repeat, sound unions, and custom properties whose keys are not taken.
-/

set_option autoImplicit false

open List

namespace Avro

open Json (Tidy)

variable {ints : Prop} {members : Members} {after scope : Scope}

def Members.Free (reserved : List Text) (members : Members) : Prop :=
  ∀ member ∈ members, member.1 ∉ reserved

theorem Members.Free.absent {reserved : List Text} {members : Members} {key : Text}
    (free : members.Free reserved) (isReserved : key ∈ reserved) :
    key ∉ members.map Prod.fst := by
  intro present
  obtain ⟨member, among, rfl⟩ := List.mem_map.mp present
  exact free member among isReserved

/-- Custom properties: tidy, and with other keys than the reserved ones. -/
structure Members.Custom (ints : Prop) (reserved : List Text) (props : Members) : Prop where
  tidy : Tidy ints (.obj props)
  free : props.Free reserved

def CleanTexts (texts : Option (List Text)) : Prop :=
  ∀ list, texts = some list → ∀ text ∈ list, text.Clean

theorem cleanTexts_none : CleanTexts none := fun _ same => nomatch same

/-- A schema expression that keeps the rules. The properties of a union are not written, so one that
has been read has none. -/
inductive Schema.Regular (ints : Prop) : Schema → Prop
  | primitive (kind : Primitive) {props : Members} (custom : props.Custom ints reservedKeys) :
      Regular ints (.primitive kind props)
  | container {kind schema} {props : Members} (inner : Regular ints schema)
      (custom : props.Custom ints reservedKeys) : Regular ints (.container kind schema props)
  | union {branches : List Schema} {props : Members}
      (each : ∀ branch ∈ branches, Regular ints branch)
      (sound : branchFault? [] branches = none) (unread : props ≠ [] → ints) :
      Regular ints (.union branches props)
  | named {reference : Reference} (legal : reference.name.Legal) : Regular ints (.named reference)

structure Field.Regular (ints : Prop) (field : Field) : Prop where
  legal : Name.isLegal field.name = true
  type : field.type.Regular ints
  doc : field.doc.Clean
  default : ∀ value, field.default = some value → Tidy ints value
  aliases : CleanTexts field.aliases
  custom : field.props.Custom ints Schema.fieldReservedKeys

inductive Body.Regular (ints : Prop) : Body → Prop
  | record {isError fields} (each : ∀ field ∈ fields, field.Regular ints)
      (distinct : (fields.map (·.name)).Nodup) : Regular ints (.record isError fields)
  | enum {symbols default} (legal : ∀ symbol ∈ symbols, Name.isLegal symbol = true)
      (distinct : symbols.Nodup) (among : ∀ symbol, default = some symbol → symbol ∈ symbols) :
      Regular ints (.enum symbols default)
  | fixed {size : Nat} (small : (size : Int) ≤ Number.maxInt64) : Regular ints (.fixed size)

structure Definition.RegularHead (ints : Prop) (definition : Definition) : Prop where
  legal : definition.name.Legal
  doc : definition.doc.Clean
  aliases : CleanTexts definition.aliases
  custom : definition.props.Custom ints Schema.reservedKeys

structure Definition.Regular (ints : Prop) (definition : Definition) : Prop
    extends definition.RegularHead ints where
  body : definition.body.Regular ints

inductive Schema.Meaning.Regular (ints : Prop) : Meaning → Prop
  | schema {schema : Schema} (regular : schema.Regular ints) : Regular ints (.schema schema)
  | branches {branches} (each : ∀ branch ∈ branches, branch.Regular ints) :
      Regular ints (.branches branches)
  | fields {fields} (each : ∀ field ∈ fields, field.Regular ints) : Regular ints (.fields fields)
  | field {field : Field} (regular : field.Regular ints) : Regular ints (.field field)

/-! ## Parts of tidy objects -/

namespace Json.Tidy

theorem get? {key : Text} {value : Json} (tidy : Tidy ints (.obj members))
    (found : members.get? key = some value) : Tidy ints value := by
  cases tidy with
  | obj _ _ each => exact each _ (Members.mem_of_get? found)

theorem text? {key text : Text} (tidy : Tidy ints (.obj members))
    (found : members.text? key = some text) : text.Clean := by
  rw [Members.text?] at found
  split at found
  · rename_i same
    cases found
    cases tidy.get? same with
    | str clean => exact clean
  · cases found

theorem filter (tidy : Tidy ints (.obj members)) (keep : Text × Json → Bool) :
    Tidy ints (.obj (members.filter keep)) := by
  cases tidy with
  | obj clean distinct each =>
    refine .obj (fun member among => clean member (mem_filter.mp among).1) ?_
      (fun member among => each member (mem_filter.mp among).1)
    exact distinct.sublist (filter_sublist.map _)

end Json.Tidy

namespace Schema

variable {owner : Text}

theorem texts?_eq_some {items texts} (found : texts? items = some texts) :
    items = texts.map .str := by
  induction items generalizing texts with
  | nil =>
    cases found
    rfl
  | cons item _ ih =>
    cases item with
    | str =>
      rw [texts?, Option.map_eq_some_iff] at found
      obtain ⟨rest, listed, rfl⟩ := found
      rw [map_cons, ← ih listed]
    | _ => cases found

section Parts

variable {members : Members} (tidy : Tidy ints (.obj members))

include tidy

theorem cleanTexts_textList? {key texts} (read : textList? members key = .ok texts) :
    CleanTexts texts := by
  intro list same text member
  rw [textList?] at read
  split at read
  · cases read
    cases same
  · rename_i items found
    split at read
    · rename_i listed spelled
      cases read
      cases same
      cases tidy.get? found with
      | arr each =>
        have strings := texts?_eq_some spelled
        cases each (.str text) (by rw [strings]; exact mem_map_of_mem member) with
        | str clean => exact clean
    · cases read
  · cases read

theorem clean_docOf : (docOf members).Clean := by
  rw [docOf]
  cases found : members.text? "doc" with
  | none => exact Text.clean_nil
  | some => exact tidy.text? found

theorem custom_customProps (reserved : List Text) :
    (customProps reserved members).Custom ints reserved where
  tidy := tidy.filter _
  free := by
    intro member among present
    have kept := (mem_filter.mp among).2
    rw [Bool.not_eq_true', contains_eq_mem, decide_eq_false_iff_not] at kept
    exact kept present

theorem readHead_regular {kind space head} (read : readHead kind members space = .ok head) :
    head.RegularHead ints := by
  obtain ⟨written, _, read⟩ := bind_ok.mp read
  obtain ⟨outer, _, read⟩ := bind_ok.mp read
  obtain ⟨name, named, read⟩ := bind_ok.mp read
  obtain ⟨aliases, listed, read⟩ := bind_ok.mp read
  cases read
  refine ⟨?_, clean_docOf tidy, cleanTexts_textList? tidy listed, custom_customProps tidy _⟩
  simp only [legalName] at named
  split at named
  · cases named
  · rename_i simple
    split at named
    · cases named
    · rename_i space
      cases named
      exact ⟨by simpa using simple, by simpa using space⟩

theorem readFieldList_tidy {list : List Json} (read : readFieldList owner members = .ok list) :
    ∀ value ∈ list, Tidy ints value := by
  rw [readFieldList] at read
  split at read
  · cases read
  · rename_i fields found
    cases read
    cases tidy.get? found with
    | arr each => exact each
  · cases read

private theorem readFieldRest_regular {name : Text} {type : Schema} {field : Field}
    (legal : Name.isLegal name = true) (regular : type.Regular ints)
    (read : readFieldRest members name type = .ok field) : field.Regular ints := by
  obtain ⟨order, _, read⟩ := bind_ok.mp read
  obtain ⟨aliases, listed, read⟩ := bind_ok.mp read
  cases read
  exact ⟨legal, regular, clean_docOf tidy, fun _ found => tidy.get? found,
    cleanTexts_textList? tidy listed, custom_customProps tidy _⟩

end Parts

theorem symbolFault?_eq_none_iff {seen symbols : List Text} :
    symbolFault? owner seen symbols = none ↔
      (∀ symbol ∈ symbols, Name.isLegal symbol = true) ∧ symbols.Nodup ∧
        ∀ symbol ∈ symbols, symbol ∉ seen := by
  induction symbols generalizing seen with
  | nil => simp [symbolFault?]
  | cons _ _ ih =>
    rw [symbolFault?]
    split
    · rename_i illegal
      simp at illegal
      simp [illegal]
    · rename_i legal
      simp at legal
      split
      · rename_i before
        simp [before]
      · rename_i fresh
        rw [ih]
        simp only [nodup_cons, mem_cons, not_or]
        grind

private theorem readEnum_regular {body : Body} (read : readEnum owner members = .ok body) :
    body.Regular ints := by
  obtain ⟨symbols, listed, read⟩ := bind_ok.mp read
  obtain ⟨default, chosen, read⟩ := bind_ok.mp read
  cases read
  obtain ⟨found, listed, read⟩ := bind_ok.mp listed
  split at read
  · cases read
  · split at read
    · cases read
    · rename_i faultless
      cases read
      obtain ⟨legal, distinct, _⟩ := symbolFault?_eq_none_iff.mp faultless
      refine .enum legal distinct ?_
      rintro symbol rfl
      rw [readEnumDefault] at chosen
      split at chosen
      · cases chosen
      · split at chosen
        · rename_i among
          cases chosen
          exact among
        · cases chosen
      · cases chosen

theorem readLeaf_regular (ints : Prop) {kind : Kind} {readBody body}
    (isLeaf : kind.readLeaf? = some readBody) (read : readBody owner members = .ok body) :
    body.Regular ints := by
  cases kind with
  | record | error => cases isLeaf
  | enum =>
    cases isLeaf
    exact readEnum_regular read
  | fixed =>
    cases isLeaf
    rw [readFixed] at read
    split at read
    · split at read
      · rename_i size number
        cases read
        exact .fixed (Number.le_maxInt64_of_readInt64 number)
      · cases read
    · cases read

theorem readFieldName_legal {name : Text} (read : readFieldName members = .ok name) :
    Name.isLegal name = true := by
  rw [readFieldName] at read
  split at read
  · cases read
  · split at read
    · rename_i legal
      cases read
      exact legal
    · cases read

theorem readFields_distinct {values owner seen fields}
    (read : readFields scope owner seen values = .ok (fields, after)) :
    (fields.map (·.name)).Nodup ∧ ∀ field ∈ fields, field.name ∉ seen := by
  induction values generalizing scope seen fields with
  | nil =>
    rw [readFields] at read
    cases read
    exact ⟨nodup_nil, forall_mem_nil _⟩
  | cons value _ ih =>
    cases value with
    | obj =>
      rw [readFields_cons] at read
      obtain ⟨⟨field, middle⟩, _, read⟩ := bind_ok.mp read
      dsimp only at read
      split at read
      · cases read
      · rename_i fresh
        obtain ⟨⟨others, last⟩, continued, read⟩ := bind_ok.mp read
        cases read
        obtain ⟨distinct, later⟩ := ih continued
        refine ⟨nodup_cons.mpr ⟨?_, distinct⟩, forall_mem_cons.mpr ⟨fresh, ?_⟩⟩
        · intro member
          obtain ⟨other, among, same⟩ := mem_map.mp member
          exact later other among (same ▸ mem_cons_self)
        · exact fun other among seen => later other among (mem_cons_of_mem _ seen)
    | _ => simp [readFields] at read

/-! ## Whole documents -/

def Part.Tidy (ints : Prop) : Part → Prop
  | .schema _ value => Json.Tidy ints value
  | .branches _ values => ∀ value ∈ values, Json.Tidy ints value
  | .fields _ _ values => ∀ value ∈ values, Json.Tidy ints value
  | .field _ members => Json.Tidy ints (.obj members)

end Schema

namespace Scope

def Regular (ints : Prop) (scope : Scope) : Prop :=
  ∀ entry ∈ scope.known ++ scope.own, entry.2.Regular ints

def Gains (ints : Prop) (before after : Scope) : Prop :=
  ∃ definitions, before.Extends after definitions ∧
    ∀ definition ∈ definitions, definition.Regular ints

theorem Gains.refl (scope : Scope) : scope.Gains ints scope :=
  ⟨[], .refl scope, forall_mem_nil _⟩

theorem Gains.trans {before middle : Scope} (start : before.Gains ints middle)
    (continued : middle.Gains ints after) : before.Gains ints after := by
  obtain ⟨_, first, firstRegular⟩ := start
  obtain ⟨_, others, othersRegular⟩ := continued
  exact ⟨_, first.trans others, forall_mem_append.mpr ⟨firstRegular, othersRegular⟩⟩

theorem Gains.install {inner head reference} {body : Body}
    (defined : scope.define head = .ok (reference, inner)) (headed : head.RegularHead ints)
    (gains : inner.Gains ints after) (bodied : body.Regular ints) :
    scope.Gains ints (after.install reference body) := by
  obtain ⟨_, extended, regular⟩ := gains
  have complete : Definition.Regular ints { head with body := body } :=
    ⟨⟨headed.legal, headed.doc, headed.aliases, headed.custom⟩, bodied⟩
  exact ⟨_, extended.complete defined body, forall_mem_cons.mpr ⟨complete, regular⟩⟩

theorem Regular.extends_ {before : Scope} {definitions} (regular : before.Regular ints)
    (extended : before.Extends after definitions)
    (legal : ∀ definition ∈ definitions, definition.name.Legal) : after.Regular ints := by
  intro entry member
  rw [extended.known, extended.own, ← append_assoc, mem_append] at member
  rcases member with earlier | later
  · exact regular entry earlier
  · obtain ⟨reference, defined, rfl⟩ := mem_map.mp later
    obtain ⟨definition, listed, named⟩ := name_of_mem_references defined
    exact .named (named ▸ legal definition listed)

theorem Regular.gains {before : Scope} (regular : before.Regular ints)
    (gains : before.Gains ints after) : after.Regular ints := by
  obtain ⟨_, extended, each⟩ := gains
  exact regular.extends_ extended fun definition listed => (each definition listed).legal

theorem Regular.resolve? {name space schema} (regular : scope.Regular ints)
    (resolved : scope.resolve? name space = some schema) : schema.Regular ints := by
  obtain ⟨full, _, listed⟩ := mem_of_resolve? resolved
  exact regular _ listed

end Scope

namespace Schema

theorem branchFault?_of_makeUnion {branches union} (made : makeUnion branches = .ok union) :
    branchFault? [] branches = none := by
  rw [makeUnion] at made
  split at made
  · cases made
  · assumption

theorem custom_nil (reserved : List Text) : Members.Custom ints reserved [] where
  tidy := Json.tidy_emptyObject
  free := forall_mem_nil _

/-- What is read from a tidy document keeps the rules, and so do the definitions that it adds. -/
theorem Reads.regular {part meaning} (reads : Reads scope part meaning after)
    (tidy : part.Tidy ints) (regular : scope.Regular ints) :
    meaning.Regular ints ∧ scope.Gains ints after := by
  induction reads with
  | @primitive _ _ _ kind => exact ⟨.schema (.primitive kind (custom_nil _)), .refl _⟩
  | name _ resolved | nameObject _ _ _ _ resolved =>
    exact ⟨.schema (regular.resolve? resolved), .refl _⟩
  | union _ made ih =>
    cases tidy with
    | arr each =>
      obtain ⟨branches, gains⟩ := ih each regular
      cases makeUnion_eq made
      cases branches with
      | branches each =>
        have sound := branchFault?_of_makeUnion made
        exact ⟨.schema (.union each sound fun wrong => absurd rfl wrong), gains⟩
  | @primitiveObject _ _ _ _ kind =>
    exact ⟨.schema (.primitive kind (custom_customProps tidy _)), .refl _⟩
  | leaf isLeaf _ headed defined bodied =>
    have head := readHead_regular tidy headed
    obtain ⟨_, rfl, _⟩ := Scope.define_ok_iff.mp defined
    exact ⟨.schema (.named head.legal),
      .install defined head (.refl _) (readLeaf_regular ints isLeaf bodied)⟩
  | record _ headed defined listed items ih =>
    have head := readHead_regular tidy headed
    have values := readFieldList_tidy tidy listed
    obtain ⟨_, rfl, begun⟩ := Scope.define_ok_iff.mp defined
    have inside := regular.extends_ begun (forall_mem_singleton.mpr head.legal)
    obtain ⟨fields, gains⟩ := ih values inside
    cases fields with
    | fields each =>
      have distinct := (readFields_distinct (readFields_ok_iff.mpr items)).1
      exact ⟨.schema (.named head.legal), .install defined head gains (.record each distinct)⟩
  | container _ present _ ih =>
    obtain ⟨inner, gains⟩ := ih (Json.Tidy.get? tidy present) regular
    obtain ⟨inner⟩ := inner
    exact ⟨.schema (.container inner (custom_customProps tidy _)), gains⟩
  | wrapped typed _ _ ih => exact ih (Json.Tidy.get? tidy typed) regular
  | noBranches => exact ⟨.branches (forall_mem_nil _), .refl _⟩
  | moreBranches _ _ firstIH othersIH =>
    obtain ⟨here, later⟩ := forall_mem_cons.mp tidy
    obtain ⟨branch, gains⟩ := firstIH here regular
    obtain ⟨branches, more⟩ := othersIH later (regular.gains gains)
    obtain ⟨branch⟩ := branch
    cases branches with
    | branches each =>
      exact ⟨.branches (forall_mem_cons.mpr ⟨branch, each⟩), gains.trans more⟩
  | noFields => exact ⟨.fields (forall_mem_nil _), .refl _⟩
  | moreFields _ _ _ firstIH othersIH =>
    obtain ⟨here, later⟩ := forall_mem_cons.mp tidy
    obtain ⟨field, gains⟩ := firstIH here regular
    obtain ⟨fields, more⟩ := othersIH later (regular.gains gains)
    cases field with
    | field field =>
      cases fields with
      | fields each => exact ⟨.fields (forall_mem_cons.mpr ⟨field, each⟩), gains.trans more⟩
  | field called typed _ completed ih =>
    obtain ⟨type, gains⟩ := ih (Json.Tidy.get? tidy typed) regular
    obtain ⟨type⟩ := type
    exact ⟨.field (readFieldRest_regular tidy (readFieldName_legal called) type completed), gains⟩

end Schema

end Avro
