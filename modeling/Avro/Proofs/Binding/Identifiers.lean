import Avro.Proofs.Binding.References
import Avro.Proofs.FileTree.Endings
import Avro.Proofs.Name
import Mathlib.Data.List.Nodup

/-!
# Which declarations share an identifier

A type whose simple name is claimed by another one is called by all parts of its full name, run
together. Nothing makes such a name differ from the others.
-/

set_option autoImplicit false

open List

namespace Avro

namespace Binding

theorem namedOffers_named (references : List Reference) :
    namedOffers (references.map .named) = .ok references := by
  induction references with
  | nil => rfl
  | cons _ _ ih => rw [map_cons, namedOffers, ih, ok_map]

/-- Another type of a list claims the simple name of a type. -/
def Crowded (names : List FullName) (name : FullName) : Prop :=
  ∃ other ∈ names, other ≠ name ∧ exported other.simple = exported name.simple

/-- All parts of a full name, run together. -/
def spelledOut (name : FullName) : Text := (Text.splitOn '.' name.text).flatMap exported

/-- Two types of a list that are called alike: both are spelled out, or one of them is. -/
inductive Clash (names : List FullName) (name other : FullName) : Prop
  | both (differ : name ≠ other) (crowded : Crowded names name) (also : Crowded names other)
      (same : spelledOut name = spelledOut other)
  | one (crowded : Crowded names name) (alone : ¬Crowded names other)
      (same : spelledOut name = exported other.simple)

section Names

variable {names : List FullName} {name other : FullName}

private theorem spelledOut_eq (legal : name.Legal) : spelledOut name =
    ((Text.splitOn '.' name.space).map exported).flatten ++ exported name.simple := by
  have simple := Text.splitOn_of_absent (Name.no_dot_of_isLegal legal.simple)
  by_cases outside : name.space = []
  · rw [spelledOut, FullName.text_of_space_nil outside, simple, outside]
    simp [Text.splitOn, exported]
  · have text : name.text = name.space ++ .scalar '.' :: name.simple := by
      rw [FullName.text, Name.qualify, if_neg (by rwa [List.isEmpty_iff]), append_assoc]
      rfl
    rw [spelledOut, text, Text.splitOn_at, simple, flatMap_append, flatMap_singleton]
    rfl

theorem typeName_assignNames (legal : ∀ name ∈ names, name.Legal) (listed : name ∈ names) :
    typeName (assignNames names) name = ⟨name.text, identifierAmong names name⟩ := by
  have present : ((assignNames names).lookup name.text).isSome := by
    rw [Scope.lookup_isSome_iff_mem, assignNames, map_map]
    exact mem_map.mpr ⟨name, listed, rfl⟩
  obtain ⟨identifier, found⟩ := Option.isSome_iff_exists.mp present
  obtain ⟨other, alsoListed, same⟩ := mem_map.mp (Scope.mem_of_lookup found)
  obtain ⟨text, rfl⟩ := Prod.mk.inj same
  cases (legal other alsoListed).eq_of_text (legal name listed) text
  rw [typeName, found, Option.getD_some]

theorem crowded_iff (distinct : names.Nodup) (listed : name ∈ names) : Crowded names name ↔
    1 < (names.map fun other => exported other.simple).count (exported name.simple) := by
  obtain ⟨before, later, rfl⟩ := append_of_mem listed
  have apart : name ∉ before ++ later := (nodup_middle.mp distinct).notMem
  have claims : Crowded (before ++ name :: later) name ↔
      exported name.simple ∈ (before ++ later).map fun other => exported other.simple := by
    rw [mem_map]
    constructor
    · rintro ⟨other, among, differs, same⟩
      refine ⟨other, ?_, same⟩
      simpa [differs] using among
    · rintro ⟨other, among, same⟩
      refine ⟨other, ?_, fun equal => apart (equal ▸ among), same⟩
      rcases mem_append.mp among with early | late
      · exact mem_append_left _ early
      · exact mem_append_right _ (mem_cons_of_mem _ late)
  rw [claims, ← count_pos_iff]
  simp only [map_append, map_cons, count_append, count_cons_self]
  omega

variable (distinct : names.Nodup) (legal : ∀ name ∈ names, name.Legal)

include distinct

theorem identifierAmong_of_alone (listed : name ∈ names) (alone : ¬Crowded names name) :
    identifierAmong names name = exported name.simple := by
  rw [crowded_iff distinct listed] at alone
  rw [identifierAmong, if_neg alone]

include legal

theorem identifierAmong_of_crowded (listed : name ∈ names) (crowded : Crowded names name) :
    identifierAmong names name = spelledOut name := by
  rw [crowded_iff distinct listed] at crowded
  rw [identifierAmong, if_pos crowded, spelledOut_eq (legal name listed)]

private theorem nodup_identifiers_iff : (names.map (identifierAmong names)).Nodup ↔
    ∀ name ∈ names, ∀ other ∈ names, ¬Clash names name other := by
  rw [nodup_map_iff_inj_on distinct]
  constructor
  · intro injective name listed other alsoListed clash
    cases clash with
    | both differ crowded also same =>
      refine differ (injective name listed other alsoListed ?_)
      rw [identifierAmong_of_crowded distinct legal listed crowded,
        identifierAmong_of_crowded distinct legal alsoListed also, same]
    | one crowded alone same =>
      have equal := injective name listed other alsoListed (by
        rw [identifierAmong_of_crowded distinct legal listed crowded,
          identifierAmong_of_alone distinct alsoListed alone, same])
      exact alone (equal ▸ crowded)
  · intro apart name listed other alsoListed same
    by_contra differ
    by_cases crowded : Crowded names name <;> by_cases also : Crowded names other
    · rw [identifierAmong_of_crowded distinct legal listed crowded,
        identifierAmong_of_crowded distinct legal alsoListed also] at same
      exact apart name listed other alsoListed (.both differ crowded also same)
    · rw [identifierAmong_of_crowded distinct legal listed crowded,
        identifierAmong_of_alone distinct alsoListed also] at same
      exact apart name listed other alsoListed (.one crowded also same)
    · rw [identifierAmong_of_alone distinct listed crowded,
        identifierAmong_of_crowded distinct legal alsoListed also] at same
      exact apart other alsoListed name listed (.one also crowded same.symm)
    · rw [identifierAmong_of_alone distinct listed crowded,
        identifierAmong_of_alone distinct alsoListed also] at same
      exact crowded ⟨other, alsoListed, Ne.symm differ, same.symm⟩

end Names

/-- The file that is built of some types declares each of them, in order. Its identifiers are
distinct exactly if no two of the types clash. -/
theorem build_identifiers_nodup_iff {catalog : Catalog} {package : Text}
    {references : List Reference} {file : File}
    (held : ∀ reference ∈ references, catalog.Holds reference)
    (legal : ∀ reference ∈ references, reference.name.Legal)
    (distinct : (references.map (·.name.text)).Nodup)
    (built : build catalog package (references.map .named) = .ok file) :
    file.declarations.map (·.node.name.full) = references.map (·.name.text) ∧
      ((file.declarations.map (·.node.name.identifier)).Nodup ↔
        ∀ first ∈ references, ∀ second ∈ references,
          ¬Clash (references.map (·.name)) first.name second.name) := by
  rw [build, namedOffers_named, ok_bind] at built
  obtain ⟨declarations, declared, done⟩ := bind_ok.mp built
  cases done
  have legalNames := forall_mem_map.mpr legal
  have distinctNames : (references.map (·.name)).Nodup :=
    List.Nodup.of_map FullName.text (by rwa [map_map])
  have named : declarations.map (·.node.name) = references.map fun reference =>
      ⟨reference.name.text, identifierAmong (references.map (·.name)) reference.name⟩ := by
    refine map_of_mapM declared fun reference member declaration made => ?_
    obtain ⟨definition, found, node⟩ := declare_ok made
    obtain ⟨_, same, named⟩ := held reference member
    cases found.symm.trans same
    rw [node, declarationNode_name, named]
    exact typeName_assignNames legalNames (mem_map_of_mem member)
  have fulls := congrArg (List.map TypeName.full) named
  have identifiers := congrArg (List.map TypeName.identifier) named
  simp only [map_map, Function.comp_def] at fulls identifiers
  refine ⟨fulls, ?_⟩
  have names := nodup_identifiers_iff distinctNames legalNames
  rw [map_map] at names
  rw [identifiers]
  refine names.trans ?_
  simp only [forall_mem_map]

def twin (name : Text) : Definition := ⟨⟨"", name⟩, "", none, [], .enum ["A"] none⟩

def twinTree (name : Text) : Json :=
  .obj [("type", .str "enum"), ("name", .str name), ("symbols", .arr [.str "A"])]

theorem declare_of_form {catalog : Catalog} (identifiers : Identifiers) {reference definition form}
    (found : catalog.find? reference = some definition)
    (tree : Codec.errorsAsRecords ((Schema.named reference).tree catalog) = form)
    (strict : form.isStrict = true) (built : (Codec.build? .start [] form).map (·.form) = some form)
    (written : (Codec.write? [] [] form).isSome) :
    ∃ declaration, declaration.node = declarationNode identifiers definition ∧
      declare catalog identifiers reference = .ok declaration := by
  obtain ⟨built, builds, form⟩ := Option.map_eq_some_iff.mp built
  obtain ⟨⟨text, names⟩, writes⟩ := Option.isSome_iff_exists.mp written
  have parsed : Codec.parsingForm? catalog (.named reference) = some text := by
    rw [Codec.parsingForm?, tree]
    simp [strict, builds, form, writes]
  exact ⟨⟨declarationNode identifiers definition, text⟩, rfl, by rw [declare, parsed, found]⟩

/-- Two enumerations whose names differ in the case of a letter are called alike. -/
theorem twins_not_nodup : ∃ file,
    build [twin "Id", twin "id"] "p" [.named ⟨0, ⟨"", "Id"⟩⟩, .named ⟨1, ⟨"", "id"⟩⟩] = .ok file ∧
      ¬(file.declarations.map (·.node.name.identifier)).Nodup := by
  obtain ⟨first, _, declaresFirst⟩ := @declare_of_form [twin "Id", twin "id"]
    (assignNames [⟨"", "Id"⟩, ⟨"", "id"⟩]) ⟨0, ⟨"", "Id"⟩⟩ _ (twinTree "Id") rfl rfl rfl
    (by rw [twinTree, Codec.build?, Codec.buildObject?]; rfl) rfl
  obtain ⟨second, _, declaresSecond⟩ := @declare_of_form [twin "Id", twin "id"]
    (assignNames [⟨"", "Id"⟩, ⟨"", "id"⟩]) ⟨1, ⟨"", "id"⟩⟩ _ (twinTree "id") rfl rfl rfl
    (by rw [twinTree, Codec.build?, Codec.buildObject?]; rfl) rfl
  have built : build [twin "Id", twin "id"] "p" ([⟨0, ⟨"", "Id"⟩⟩, ⟨1, ⟨"", "id"⟩⟩].map .named) =
      .ok ⟨packageName "p", [], [first, second]⟩ := by
    rw [build, namedOffers_named, ok_bind]
    simp only [map_cons, map_nil, mapM_cons, mapM_nil, declaresFirst,
      declaresSecond]
    rfl
  refine ⟨_, built, fun distinct => ?_⟩
  refine (build_identifiers_nodup_iff ?_ ?_ (by decide) built).2.mp distinct ⟨0, ⟨"", "Id"⟩⟩
    (by decide) ⟨1, ⟨"", "id"⟩⟩ (by decide) (.both (by decide) ⟨⟨"", "id"⟩, by decide⟩
      ⟨⟨"", "Id"⟩, by decide⟩ (by decide))
  · exact forall_mem_cons.mpr ⟨⟨_, rfl, rfl⟩, forall_mem_singleton.mpr ⟨_, rfl, rfl⟩⟩
  · exact forall_mem_cons.mpr ⟨⟨rfl, rfl⟩, forall_mem_singleton.mpr ⟨rfl, rfl⟩⟩

end Binding

end Avro
