import Avro.Proofs.Idl.Readers
import Avro.Proofs.Schema.Drafted
import Avro.Proofs.Schema.Rewriting
import Avro.Proofs.Protocol.Drafted

/-!
# Declarations of valid sources

A declaration of a type adds one definition to the scope, drafted over the types before it and
itself. A message is drafted over the types that are there.
-/

set_option autoImplicit false

open List

namespace Avro.Idl

open Json (Plain)

variable {tokens : List Token}

/-! ## Type expressions -/

section Words

variable {types : List Reference} {site : Site}

private theorem drafted_logical (base : Primitive) (meaning : String) :
    (logical base meaning).Drafted types := by
  have value : Json.Tidy True (.str meaning) := .str (Text.clean_ofString meaning)
  exact .primitive base (Json.tidy_emptyObject.addMember (Text.clean_ofString "logicalType")
    not_mem_nil value)

theorem drafted_decimal (precision scale : Nat) : (decimal precision scale).Drafted types := by
  have value : Json.Tidy True (.str "decimal") := .str (Text.clean_ofString "decimal")
  have kind := Json.tidy_emptyObject.addMember (Text.clean_ofString "logicalType")
    not_mem_nil value
  have digits := kind.addMember (Text.clean_ofString "precision") (by decide)
    (.int trivial precision)
  exact .primitive .bytes (digits.addMember (Text.clean_ofString "scale") (by simp)
    (.int trivial scale))

private theorem drafted_logicalTypes : ∀ entry ∈ logicalTypes, entry.2.Drafted types := by
  refine forall_mem_cons.mpr ⟨?_, forall_mem_cons.mpr ⟨?_, forall_mem_cons.mpr
    ⟨?_, forall_mem_singleton.mpr ?_⟩⟩⟩
  all_goals exact drafted_logical _ _

theorem keeps_drafted (tells : site.scope.Tells types) : site.Keeps (Schema.Drafted types) where
  plain kind := .primitive kind Json.tidy_emptyObject
  logical := drafted_logicalTypes
  decimal := drafted_decimal
  resolved found := by
    obtain ⟨_, within⟩ := Site.resolve?_within found
    obtain ⟨reference, told, rfl⟩ := tells.resolve? within
    exact .named told
  container inner := inner.container
  union each made := .union each made

end Words

/-! ## Fields -/

theorem clean_textsOf? {value texts} (plain : Plain value) (listed : textsOf? value = some texts) :
    CleanTexts (some texts) := by
  intro list same text member
  cases same
  cases plain with
  | arr each =>
    have strings := Schema.texts?_eq_some listed
    cases each (.str text) (by rw [strings]; exact mem_map_of_mem member) with
    | str clean => exact clean
  | _ => cases listed

/-- A field of a name, a type and documentation, and what annotations add to it. -/
structure Annotated (name : Text) (type : Schema) (doc : Text) (field : Field) : Prop where
  name : field.name = name
  type : field.type = type
  doc : field.doc = doc
  aliases : CleanTexts field.aliases
  props : Plain (.obj field.props)

section Annotations

variable {position : Position} {name : Text} {type : Schema} {doc : Text}

theorem Annotated.annotateField {before after : Field} {entry : Text × Json}
    (holds : Annotated name type doc before) (clean : entry.1.Clean) (value : Plain entry.2)
    (done : annotateField position before entry = .ok after) : Annotated name type doc after := by
  unfold Idl.annotateField at done
  dsimp only at done
  split at done
  · split at done
    · cases done
      exact ⟨holds.name, holds.type, holds.doc, holds.aliases, holds.props⟩
    · cases done
  · split at done
    · split at done
      · rename_i aliases listed
        cases done
        exact ⟨holds.name, holds.type, holds.doc, clean_textsOf? value listed, holds.props⟩
      · cases done
    · cases done
      exact ⟨holds.name, holds.type, holds.doc, holds.aliases, holds.props.set clean value⟩

private theorem annotated_foldlM {before after : Field} {annotations : Members}
    (done : annotations.foldlM (annotateField position) before = .ok after)
    (noted : Plain (.obj annotations)) (holds : Annotated name type doc before) :
    Annotated name type doc after := by
  cases noted with
  | obj clean _ each =>
    exact foldlM_keeps holds done fun entry among _ _ kept =>
      kept.annotateField (clean entry among) (each entry among)

end Annotations

private theorem plain_passDefault {last result} (sound : AllSound tokens)
    (read : passDefault last tokens = .ok result) :
    ∀ value, result.value = some value → Plain value := by
  intro value present
  cases tokens with
  | nil =>
    cases read
    cases present
  | cons =>
    rw [passDefault] at read
    split at read
    · obtain ⟨found, valued, same⟩ := map_ok.mp read
      cases same
      cases present
      exact plain_readJson sound.tail valued
    · cases read
      cases present

section Fields

variable {types : List Reference} {site : Site} {type : Schema} {doc : Text} {inherited : Members}
  {last : Token}

theorem drafted_readVariable {result} (sound : AllSound tokens) (drafted : type.Drafted types)
    (documented : doc.Clean) (plain : Plain (.obj inherited))
    (read : readVariable type doc inherited last tokens = .ok result) :
    result.value.Drafted types := by
  obtain ⟨back, name, field, default, noted, legal, annotated, chosen, same⟩ := readVariable_ok read
  have behind := (sound.past back).behind name
  have holds : Annotated name.value.text type doc field :=
    annotated_foldlM annotated (plain_readAnnotations sound noted)
      ⟨rfl, rfl, rfl, cleanTexts_none, plain⟩
  rw [same]
  rw [← holds.type] at drafted
  refine ⟨drafted.told, fun legalNames unreserved => ?_⟩
  refine ⟨?_, drafted.regular legalNames unreserved.type, ?_, fun value present => ?_,
    holds.aliases, ⟨holds.props.mono False.elim, unreserved.free⟩⟩
  · rw [← legal]
    exact congrArg Name.isLegal holds.name
  · rw [← holds.doc] at documented
    exact documented
  · exact (plain_passDefault behind chosen value present).mono False.elim

theorem clean_documented {part : List Token} (sound : AllSound tokens) (ending : last.Sound)
    (within : part <:+ tokens)
    (documented : doc = (peek last tokens).doc ∨ doc = (peek last part).doc) : doc.Clean := by
  rcases documented with rfl | rfl
  · exact (sound_peek sound ending).doc
  · exact (sound_peek (sound.part within) ending).doc

theorem FieldRead.drafted {field : Field} (read : FieldRead site last tokens field)
    (sound : AllSound tokens) (ending : last.Sound) (tells : site.scope.Tells types) :
    field.Drafted types := by
  obtain @⟨front, type, doc, part, found, noted, typed, documented, within, read, rfl⟩ := read
  have plain := plain_readAnnotations sound noted
  have inherited : Plain (.obj (if type.value.isNamed then front.value else [])) := by
    split
    · exact plain
    · exact Json.tidy_emptyObject
  exact drafted_readVariable (((sound.past front).behind type).part within)
    (((keeps_drafted tells).readType typed).withProps plain)
    (clean_documented sound ending front.suffix documented) inherited read

end Fields

variable {definition : Definition}

/-! ## Heads -/

structure Heading.Sound (heading : Heading) : Prop where
  aliases : CleanTexts heading.aliases
  props : Plain (.obj heading.props)

theorem Heading.Sound.annotateNamed {position : Position} {before after : Heading}
    {entry : Text × Json} (sound : before.Sound) (clean : entry.1.Clean) (value : Plain entry.2)
    (done : annotateNamed position before entry = .ok after) : after.Sound := by
  unfold Idl.annotateNamed at done
  dsimp only at done
  split at done
  · split at done
    · cases done
      exact ⟨sound.aliases, sound.props⟩
    · cases done
  · split at done
    · split at done
      · rename_i aliases listed
        cases done
        exact ⟨clean_textsOf? value listed, sound.props⟩
      · cases done
    · cases done
      exact ⟨sound.aliases, sound.props.set clean value⟩

structure Headed (doc : Text) (definition : Definition) : Prop where
  doc : definition.doc = doc
  aliases : CleanTexts definition.aliases
  props : Plain (.obj definition.props)

theorem definitionOf_headed {space doc annotations name body} (noted : Plain (.obj annotations))
    (made : definitionOf space doc annotations name body = .ok definition) :
    Headed doc definition := by
  obtain ⟨heading, annotated, made⟩ := bind_ok.mp made
  cases made
  cases noted with
  | obj clean _ each =>
    have start : Heading.Sound ⟨space, none, []⟩ := ⟨cleanTexts_none, Json.tidy_emptyObject⟩
    have sound : heading.Sound := foldlM_keeps start annotated fun entry among _ _ kept =>
      kept.annotateNamed (clean entry among) (each entry among)
    exact ⟨rfl, sound.aliases, sound.props⟩

/-! ## Types and messages -/

/-- A scope goes on with one definition, drafted over the types before it and itself. -/
def Adds (types : List Reference) (scope after : Scope) : Prop :=
  ∃ definition : Definition, after = scope.extend [definition] ∧
    definition.name.text ∉ scope.names ∧
    definition.Drafted (types ++ [⟨scope.catalog.length, definition.name⟩])

structure Front.Sound (front : Front) : Prop where
  doc : front.doc.Clean
  annotations : Plain (.obj front.annotations)

section Types

variable {types : List Reference} {front : Front} {last : Token}

theorem BodyRead.drafted {site : Site} {body : Body} (read : BodyRead site last tokens body)
    (sound : AllSound tokens) (ending : last.Sound) (tells : site.scope.Tells types) :
    (∀ field ∈ body.fields, field.Drafted types) ∧
      ((∀ field ∈ body.fields, field.Regular True) → body.Regular True) := by
  cases read with
  | record _ distinct each =>
    refine ⟨fun field member => ?_, fun regular => .record regular distinct⟩
    obtain ⟨part, within, read⟩ := each field member
    exact read.drafted (sound.part within) ending tells
  | enum legal distinct among => exact ⟨forall_mem_nil _, fun _ => .enum legal distinct among⟩
  | fixed small => exact ⟨forall_mem_nil _, fun _ => .fixed small⟩

theorem TypeRead.adds {after : Scope} (read : TypeRead front last tokens after)
    (sound : AllSound tokens) (ending : last.Sound) (valid : front.Sound)
    (tells : front.scope.Tells types) : Adds types front.scope after := by
  obtain @⟨_, _, body, definition, made, _, fresh, read⟩ := read
  have headed := definitionOf_headed valid.annotations made
  have inside := tells.extends_ (Scope.extends_extend front.scope [definition])
  obtain ⟨each, regular⟩ := read.drafted sound ending inside
  refine ⟨_, rfl, fresh, ?_, fun legalNames legal unreserved => ?_⟩
  · intro mentioned member
    obtain ⟨field, isField, inField⟩ := mem_flatMap.mp member
    exact (each field isField).told mentioned inField
  · refine ⟨⟨legal, headed.doc ▸ valid.doc, headed.aliases,
      Members.custom_of_plain headed.props unreserved.free⟩, regular fun field member => ?_⟩
    exact (each field member).regular legalNames (unreserved.fields field member)

theorem MessageRead.drafted {messages message}
    (read : MessageRead front messages last tokens message) (sound : AllSound tokens)
    (ending : last.Sound) (valid : front.Sound) (tells : front.scope.Tells types) :
    message.Drafted types := by
  obtain @⟨response, name, request, _, _, responded, legal, _, requested, ended⟩ := read
  have keeps : Site.Keeps (front.site front.scope front.protocolSpace) (Schema.Drafted types) :=
    keeps_drafted tells
  have answer := keeps.readResponse responded
  obtain ⟨errors, silent⟩ := keeps.passEnding ended
  have parameters : ∀ field ∈ request, field.Drafted types := by
    intro field member
    obtain ⟨part, within, read⟩ := requested field member
    exact read.drafted (sound.part within) ending tells
  refine ⟨?_, fun legalNames unreserved => ?_, silent⟩
  · refine forall_mem_append.mpr ⟨fun schema member => ?_,
      forall_mem_cons.mpr ⟨answer.told, fun schema member => (errors schema member).told⟩⟩
    obtain ⟨field, isField, rfl⟩ := mem_map.mp member
    exact (parameters field isField).told
  · exact {
      name := Name.clean_of_isLegal legal
      doc := valid.doc
      custom := Members.custom_of_plain valid.annotations unreserved.free
      request := fun field member =>
        (parameters field member).regular legalNames (unreserved.request field member)
      response := answer.regular legalNames unreserved.response
      errors := fun schema member =>
        (errors schema member).regular legalNames (unreserved.errors schema member) }

end Types

end Avro.Idl
