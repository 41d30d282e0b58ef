import Avro.Binding.Render
import Avro.Proofs.Binding.Identifiers
import Avro.Proofs.Idl.WellFormed
import Mathlib.Data.List.Perm.Subperm

/-!
# What a declaration introduces

The fields of a struct get names of their own, whatever the fields of the record are called. The
constants of an enumeration do not.
-/

set_option autoImplicit false

open List

namespace Avro

private theorem Text.isUpper_toUpper {char : Char} (letter : char.isAlpha = true) :
    (toUpper char).isUpper = true := by
  have table : (range 128).all (fun point =>
      !(Char.ofNat point).isAlpha || (toUpper (Char.ofNat point)).isUpper) = true := by
    decide +kernel
  have narrow : char.toNat < 128 := by
    rcases Bool.or_eq_true_iff.mp letter with upper | lower
    · have upTo := (of_decide_eq_true upper).2
      exact Nat.lt_of_le_of_lt (UInt32.le_iff_toNat_le.mp upTo) (by decide)
    · have upTo : char.val ≤ _ := of_decide_eq_true (Bool.and_eq_true_iff.mp lower).2
      exact Nat.lt_of_le_of_lt (UInt32.le_iff_toNat_le.mp upTo) (by decide)
  have entry := all_eq_true.mp table char.toNat (mem_range.mpr narrow)
  rwa [Char.ofNat_toNat, letter] at entry

namespace Binding

/-- A Go identifier that other packages can use, of ASCII characters. -/
def isExported : Text → Bool
  | .scalar first :: rest => first.isUpper && rest.all Name.isPart
  | _ => false

theorem isExported_exported {name : Text} (legal : Name.isLegal name = true) :
    isExported (exported name) = true := by
  cases name with
  | nil => cases legal
  | cons first rest =>
    have clean : Text.sanitize rest = rest :=
      Text.Clean.sanitize_eq fun cell member =>
        Name.clean_of_isLegal legal cell (mem_cons_of_mem _ member)
    rw [Name.isLegal, Bool.and_eq_true] at legal
    cases first with
    | stray => cases legal.1
    | scalar char =>
      rw [exported, clean]
      rcases Bool.or_eq_true_iff.mp legal.1 with letter | underscore
      · have upper := Text.isUpper_toUpper letter
        have plain : Text.toUpper char ≠ '_' := by
          intro same
          rw [same] at upper
          cases upper
        simpa [Cell.shown, plain, isExported, upper] using legal.2
      · cases eq_of_beq underscore
        exact legal.2

theorem isPart_of_isExported {name : Text} (exported : isExported name = true) :
    ∀ cell ∈ name, Name.isPart cell = true := by
  unfold isExported at exported
  split at exported
  next first _ =>
    rw [Bool.and_eq_true, all_eq_true] at exported
    refine forall_mem_cons.mpr ⟨?_, exported.2⟩
    have letter : first.isAlpha = true := Bool.or_eq_true_iff.mpr (.inl exported.1)
    exact Bool.or_eq_true_iff.mpr (.inl (Bool.or_eq_true_iff.mpr (.inl letter)))
  next => cases exported

theorem isExported_append {name more : Text} (exported : isExported name = true)
    (parts : ∀ cell ∈ more, Name.isPart cell = true) : isExported (name ++ more) = true := by
  unfold isExported at exported
  split at exported
  next =>
    rw [Bool.and_eq_true] at exported
    simpa [isExported, exported, or_imp, forall_and] using parts
  next => cases exported

/-! ## The fields of a struct -/

def leads : List Text := ["type ", "const ", "\t"]

/-- The identifier that a line of a declaration introduces, after `type`, `const` or, in a group of
constants, a tab. -/
def introduced? (line : Text) : Option Text :=
  let found := leads.findSome? fun lead => lead.isPrefixOf? line
  (found.map (·.takeWhile (!·.isChar ' '))).filter isExported

private theorem filterMap_docLines (name : TypeName) (doc : Text) :
    (docLines name doc).filterMap introduced? = [] := by
  have comment (line : Text) : introduced? (commentLine line) = none := by
    rw [commentLine]
    split <;> rfl
  rw [docLines, filterMap_cons_none rfl]
  split
  · rfl
  · rw [filterMap_cons_none rfl, commentLines, filterMap_map, filterMap_eq_nil_iff]
    exact fun line _ => comment line

private theorem introduced?_word {line lead word rest : Text} (known : lead ∈ leads)
    (exported : isExported word = true) (same : line = lead ++ word ++ (.scalar ' ' :: rest)) :
    introduced? line = some word := by
  have inside : ∀ cell ∈ word, (!cell.isChar ' ') = true := by
    intro cell member
    have part := isPart_of_isExported exported cell member
    rw [Bool.not_eq_true', Cell.isChar, beq_eq_false_iff_ne]
    rintro rfl
    exact absurd part (by decide)
  have found : introduced? line =
      (some ((word ++ (.scalar ' ' :: rest)).takeWhile (!·.isChar ' '))).filter isExported := by
    rw [same, append_assoc]
    simp only [leads, mem_cons, not_mem_nil, or_false] at known
    rcases known with rfl | rfl | rfl <;> rfl
  rw [found, takeWhile_append_of_pos inside, takeWhile_cons_of_neg (by decide), append_nil,
    Option.filter_some, if_pos exported]

/-- What is written behind the name of an enumeration to make its constants. -/
def constants (symbols : List Text) (default : Text) : List Text :=
  symbols.map exported ++
    ((if default.isEmpty then [] else [("Default" : Text)]) ++ [("Schema" : Text)])

section Enumeration

variable {name : TypeName} (typeExported : isExported name.identifier = true)

include typeExported

private theorem filterMap_symbols {symbols : List Text}
    (legal : ∀ symbol ∈ symbols, Name.isLegal symbol = true) :
    (group "const" (symbols.map (symbolLine name.identifier))).filterMap introduced? =
      symbols.map fun symbol => name.identifier ++ exported symbol := by
  have each : ∀ symbol ∈ symbols, introduced? ("\t" ++ symbolLine name.identifier symbol) =
      some (name.identifier ++ exported symbol) := by
    intro symbol member
    have parts := isPart_of_isExported (isExported_exported (legal symbol member))
    refine @introduced?_word _ "\t" _ (name.identifier ++ " = " ++ Text.quote symbol) (by decide)
      (isExported_append typeExported parts) ?_
    simp only [symbolLine, append_assoc]
    rfl
  rw [group, filterMap_cons_none rfl, filterMap_append, indent, filterMap_map, filterMap_map]
  exact (append_nil _).trans ((filterMap_congr each).trans (congrFun filterMap_eq_map symbols))

private theorem introduced_enum (doc : Text) {symbols : List Text} (default schema : Text)
    (legal : ∀ symbol ∈ symbols, Name.isLegal symbol = true) :
    (declarationLines ⟨.enum name doc symbols default, schema⟩).filterMap introduced? =
      ([] :: constants symbols default).map (name.identifier ++ ·) := by
  have type : introduced? ("type " ++ name.identifier ++ " string") = some name.identifier :=
    @introduced?_word _ "type " _ "string" (by decide) typeExported rfl
  have constant {line constant rest : Text} (parts : ∀ cell ∈ constant, Name.isPart cell = true)
      (same : line = "const " ++ (name.identifier ++ constant) ++ (.scalar ' ' :: rest)) :
      introduced? line = some (name.identifier ++ constant) :=
    introduced?_word (by decide) (isExported_append typeExported parts) same
  have schemaLine := @constant ("const " ++ (name.identifier ++ "Schema") ++ " = " ++ Text.quote schema)
    "Schema" ("= " ++ Text.quote schema) (by decide) (by simp only [append_assoc]; rfl)
  have defaultLine := @constant
    ("const " ++ name.identifier ++ "Default = " ++ name.identifier ++ exported default) "Default"
    ("= " ++ name.identifier ++ exported default) (by decide) (by simp only [append_assoc]; rfl)
  have symbolLines : (if symbols.isEmpty then []
      else group "const" (symbols.map (symbolLine name.identifier))).filterMap introduced? =
      (symbols.map exported).map (name.identifier ++ ·) := by
    split
    next none => rw [isEmpty_iff.mp none]; rfl
    next => rw [filterMap_symbols typeExported legal, map_map]; rfl
  have defaultLines : (if default.isEmpty then [] else
      ["// " ++ name.identifier ++ "Default is the symbol readers use for unknown values.",
        "const " ++ name.identifier ++ "Default = " ++ name.identifier ++ exported default,
        []]).filterMap introduced? =
      (if default.isEmpty then [] else [("Default" : Text)]).map (name.identifier ++ ·) := by
    split
    · rfl
    · rw [filterMap_cons_none rfl, filterMap_cons_some defaultLine]
      rfl
  have schemaLines : (schemaLines name schema).filterMap introduced? =
      [name.identifier ++ "Schema"] := by
    rw [schemaLines, filterMap_cons_none rfl, filterMap_cons_some schemaLine]
    rfl
  change (typeLines _ ++ Binding.schemaLines name schema).filterMap introduced? = _
  simp only [typeLines, filterMap_append, filterMap_docLines, filterMap_cons_some type, symbolLines,
    defaultLines, schemaLines]
  rw [constants, map_cons, map_append, map_append, append_nil, append_assoc, append_assoc]
  rfl

end Enumeration

theorem isExported_identifierAmong (names : List FullName) {name : FullName} (legal : name.Legal) :
    isExported (identifierAmong names name) = true := by
  have simple := isExported_exported legal.simple
  rw [identifierAmong]
  split
  · rcases Bool.or_eq_true_iff.mp legal.space with outside | inside
    · rw [isEmpty_iff.mp outside]
      exact simple
    · rw [all_eq_true] at inside
      generalize Text.splitOn '.' name.space = pieces at inside
      induction pieces with
      | nil => exact simple
      | cons piece _ ih =>
        obtain ⟨first, others⟩ := forall_mem_cons.mp inside
        rw [map_cons, flatten_cons, append_assoc]
        exact isExported_append (isExported_exported first) (isPart_of_isExported (ih others))
  · exact simple

/-- A type that a schema leads to that is read, or that belongs to a protocol that is compiled. -/
inductive Accepted (catalog : Catalog) (reference : Reference) : Prop
  | read {before known text root after} (formed : ∀ entry ∈ known, entry.2.WellFormed before)
      (read : Schema.readDocument (.start before known) text = .ok (root, after))
      (whole : after.catalog = catalog) (path : root.Leads catalog (.named reference))
  | compiled {Failure : Type} {importer : Option (Idl.Importer Failure)} {path source : Text}
      {protocol : Protocol} (compiled : Idl.compile importer path source = .ok (protocol, catalog))
      (listed : reference ∈ protocol.types)

theorem Accepted.formed {catalog reference} (accepted : Accepted catalog reference) :
    (Schema.named reference).Formed catalog := by
  cases accepted with
  | read formed read whole path =>
    exact (whole ▸ (Schema.readDocument_wellFormed formed read).1) _ path
  | compiled compiled listed => exact (Idl.compile_wellFormed compiled).types _ listed _ .here

theorem nodup_constants_iff {symbols default} (formed : (Body.enum symbols default).Formed) :
    ([] :: constants symbols (default.getD [])).Nodup ↔
      (∀ first ∈ symbols, ∀ second ∈ symbols, exported first = exported second → first = second) ∧
        ∀ symbol ∈ symbols, exported symbol ≠ "Schema" ∧
          (default.isSome = true → exported symbol ≠ "Default") := by
  obtain ⟨legal, distinct, among⟩ := formed
  have filled : ∀ symbol ∈ symbols, exported symbol ≠ [] := by
    intro symbol member empty
    have exported := isExported_exported (legal symbol member)
    rw [empty] at exported
    cases exported
  rw [← nodup_map_iff_inj_on distinct]
  cases default with
  | none => simpa [constants, nodup_append, Text.ofString] using fun _ _ => filled
  | some symbol =>
    have given : symbol ≠ [] := by
      rintro rfl
      cases legal _ (among _ rfl)
    simpa [constants, nodup_append, Text.ofString, given, forall_and, and_comm]
      using fun _ _ _ => filled

/-- The identifiers that the declaration of an accepted enumeration introduces are those of the type,
of its symbols, of its default if it has one, and of its schema. They are distinct exactly if no two
symbols are exported alike and none is exported like one of the other constants. -/
theorem enum_identifiers_nodup_iff {catalog : Catalog} {reference : Reference}
    {definition : Definition} {symbols : List Text} {default : Option Text} {names : List FullName}
    {declaration : Declaration} (accepted : Accepted catalog reference)
    (found : catalog.find? reference = some definition)
    (body : definition.body = .enum symbols default) (legal : ∀ name ∈ names, name.Legal)
    (listed : reference.name ∈ names)
    (declared : declare catalog (assignNames names) reference = .ok declaration) :
    (declarationLines declaration).filterMap introduced? =
        ([] :: constants symbols (default.getD [])).map (declaration.node.name.identifier ++ ·) ∧
      (((declarationLines declaration).filterMap introduced?).Nodup ↔
        (∀ first ∈ symbols, ∀ second ∈ symbols, exported first = exported second → first = second) ∧
          ∀ symbol ∈ symbols, exported symbol ≠ "Schema" ∧
            (default.isSome = true → exported symbol ≠ "Default")) := by
  obtain ⟨_, same, named, _, formed⟩ := accepted.formed
  cases found.symm.trans same
  rw [body] at formed
  obtain ⟨_, same, node⟩ := declare_ok declared
  cases found.symm.trans same
  rw [declarationNode, body, typeName_assignNames legal (named ▸ listed), named] at node
  obtain ⟨written, schema⟩ := declaration
  cases node
  have introduced := @introduced_enum ⟨reference.name.text, identifierAmong names reference.name⟩
    (isExported_identifierAmong names (legal _ listed)) definition.doc symbols (default.getD []) schema
    formed.1
  refine ⟨introduced, ?_⟩
  rw [introduced, nodup_map_iff (append_right_injective _)]
  exact nodup_constants_iff formed

def cases : Definition := ⟨⟨"", "T"⟩, "", none, [], .enum ["a", "A"] none⟩

def casesTree : Json :=
  .obj [("type", .str "enum"), ("name", .str "T"), ("symbols", .arr [.str "a", .str "A"])]

private theorem readDocument_casesTree : Schema.readDocument .empty (casesTree.render .compact) =
    .ok (.named ⟨0, ⟨"", "T"⟩⟩, Scope.empty.extend [cases]) := by
  have legible : casesTree.Legible := by
    refine .obj (by decide) (forall_mem_cons.mpr ⟨.str _, forall_mem_cons.mpr ⟨.str _, ?_⟩⟩)
    exact forall_mem_singleton.mpr (.arr (forall_mem_cons.mpr ⟨.str _,
      forall_mem_singleton.mpr (.str _)⟩))
  rw [Schema.readDocument, legible.decode_render]
  with_unfolding_all rfl

/-- An enumeration whose symbols differ in the case of a letter has two constants of one name. -/
theorem cases_not_nodup : ∃ declaration,
    declare [cases] (assignNames [⟨"", "T"⟩]) ⟨0, ⟨"", "T"⟩⟩ = .ok declaration ∧
      ¬((declarationLines declaration).filterMap introduced?).Nodup := by
  obtain ⟨declaration, _, declared⟩ := @declare_of_form [cases] (assignNames [⟨"", "T"⟩])
    ⟨0, ⟨"", "T"⟩⟩ _ casesTree rfl rfl rfl (by rw [casesTree, Codec.build?, Codec.buildObject?]; rfl) rfl
  refine ⟨declaration, declared, fun distinct => ?_⟩
  have accepted : Accepted [cases] ⟨0, ⟨"", "T"⟩⟩ :=
    .read (forall_mem_nil _) readDocument_casesTree rfl .here
  have apart := (enum_identifiers_nodup_iff accepted rfl rfl (forall_mem_singleton.mpr ⟨rfl, rfl⟩)
    mem_cons_self declared).2.mp distinct
  exact absurd (apart.1 "a" (by decide) "A" (by decide) (by decide)) (by decide)

end Binding

end Avro
