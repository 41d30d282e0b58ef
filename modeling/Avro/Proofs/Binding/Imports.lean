import Avro.Proofs.Binding.Identifiers
import Avro.Proofs.Pipeline.Coherent
import Mathlib.Data.List.Infix

/-!
# What bindings import

A file imports a package exactly if a field has a type of that package. The texts of the types tell:
types that are declared have no dot in their identifiers.
-/

set_option autoImplicit false

open List

namespace Avro

open Codec

namespace Text

/-! ## Identifiers have no dots -/

/-- No character from a base on has an upper-case form at or below the dot. -/
def staysHigh (base : Int) : List (Nat × Nat × Nat × Int) → Bool
  | [] => true
  | (gap, count, step, distance) :: runs =>
    46 < base + gap + distance && staysHigh (base + (gap + (count - 1) * step + 1 : Nat)) runs

theorem upperDistance_high {runs base} (above : 46 < base) (stays : staysHigh base runs = true)
    (point : Nat) : 46 < base + point + upperDistance runs point := by
  induction runs generalizing base point with
  | nil =>
    rw [upperDistance]
    omega
  | cons run _ ih =>
    obtain ⟨gap, count, step, distance⟩ := run
    rw [staysHigh, Bool.and_eq_true, decide_eq_true_eq] at stays
    change 46 < base + point + if gap + (count - 1) * step + 1 ≤ point then _ else _
    split
    · have later := ih (by omega) stays.2 (point - (gap + (count - 1) * step + 1))
      omega
    · split
      · rename_i inside
        rw [Bool.and_eq_true, decide_eq_true_eq] at inside
        omega
      · omega

private theorem ofNat_ne_dot {point : Nat} (above : 46 < point) : Char.ofNat point ≠ '.' := by
  intro dot
  by_cases valid : point.isValidChar
  · rw [Char.ofNat, dif_pos valid] at dot
    have same : point = 46 := congrArg Char.toNat dot
    omega
  · rw [Char.ofNat, dif_neg valid] at dot
    exact absurd dot (by decide)

private theorem toUpper_ne_dot {char : Char} (other : char ≠ '.') : toUpper char ≠ '.' := by
  unfold toUpper
  split
  · rename_i narrow
    have table : (List.range 128).all (fun point =>
        point == 46 || (Char.ofNat point).toUpper != '.') = true := by decide +kernel
    have entry := all_eq_true.mp table char.toNat (mem_range.mpr narrow)
    rw [Char.ofNat_toNat, Bool.or_eq_true, beq_iff_eq, bne_iff_ne] at entry
    refine entry.resolve_left fun point => other ?_
    rw [← Char.ofNat_toNat char, point]
  · rename_i wide
    have high : 46 < (128 : Int) + (char.toNat - 128 : Nat) + upperDistance upperRuns _ :=
      upperDistance_high (by decide) (by decide +kernel) _
    exact ofNat_ne_dot (by omega)

theorem absent_of_mem_splitOn {char : Char} {text piece : Text} (among : piece ∈ splitOn char text) :
    .scalar char ∉ piece := by
  induction text generalizing piece with
  | nil =>
    cases mem_singleton.mp among
    exact not_mem_nil
  | cons cell _ ih =>
    rw [splitOn] at among
    split at among
    · rcases mem_cons.mp among with rfl | later
      · exact not_mem_nil
      · exact ih later
    · rename_i differs
      have apart : .scalar char ≠ cell := fun same => differs (beq_iff_eq.mpr same.symm)
      split at among
      · cases mem_singleton.mp among
        exact fun member => apart (mem_singleton.mp member)
      · rename_i first others split
        rw [split] at ih
        rcases mem_cons.mp among with rfl | later
        · rw [mem_cons, not_or]
          exact ⟨apart, ih mem_cons_self⟩
        · exact ih (mem_cons_of_mem _ later)

end Text

namespace Binding

theorem no_dot_exported {name : Text} (absent : .scalar '.' ∉ name) : .scalar '.' ∉ exported name := by
  have kept {cell : Cell} (member : cell ∈ name) : cell.shown ≠ '.' := by
    cases cell with
    | scalar => exact fun dot => absent (dot ▸ member)
    | stray => exact (by decide : '\ufffd' ≠ '.')
  cases name with
  | nil => exact not_mem_nil
  | cons _ rest =>
    have upper := Text.toUpper_ne_dot (kept mem_cons_self)
    have later : .scalar '.' ∉ Text.sanitize rest := by
      intro member
      obtain ⟨cell, among, dot⟩ := mem_map.mp member
      exact kept (mem_cons_of_mem _ among) (Cell.scalar.inj dot)
    rw [exported]
    split <;> simp [upper.symm, later]

private theorem no_dot_identifierAmong (names : List FullName) {name : FullName}
    (absent : .scalar '.' ∉ name.simple) : .scalar '.' ∉ identifierAmong names name := by
  rw [identifierAmong]
  split
  · rw [mem_append, not_or]
    refine ⟨fun member => ?_, no_dot_exported absent⟩
    obtain ⟨part, isPart, inside⟩ := mem_flatten.mp member
    obtain ⟨piece, isPiece, rfl⟩ := mem_map.mp isPart
    exact no_dot_exported (Text.absent_of_mem_splitOn isPiece) inside
  · exact no_dot_exported absent

private theorem no_dot_typeName {names} (absent : ∀ name ∈ names, .scalar '.' ∉ name.simple) {name}
    (own : .scalar '.' ∉ name.simple) :
    .scalar '.' ∉ (typeName (assignNames names) name).identifier := by
  rw [typeName]
  cases found : (assignNames names).lookup name.text with
  | none => exact no_dot_exported own
  | some =>
    obtain ⟨other, listed, same⟩ := mem_map.mp (Scope.mem_of_lookup found)
    rw [Option.getD_some, ← (Prod.mk.inj same).2]
    exact no_dot_identifierAmong names (absent other listed)

/-! ## The packages of a type -/

/-- What is taken from other packages, as it is written in a type. -/
def qualifiedNames : List (Text × Text) :=
  [("time.Time", "time"), ("time.Duration", "time"), ("big.Rat", "math/big")]

/-- The packages that a type mentions. -/
def mentioned (type : Text) : List Text :=
  (qualifiedNames.filter fun entry => entry.1 <:+: type).map Prod.snd

theorem prefix_at {pattern front rest : Text} {cell : Cell} (absent : cell ∉ pattern)
    (leads : pattern <+: front ++ cell :: rest) : pattern <+: front := by
  have further : front ++ [cell] <+: front ++ cell :: rest := ⟨rest, by simp⟩
  rcases Nat.lt_or_ge front.length pattern.length with longer | shorter
  · have inside := prefix_of_prefix_length_le further leads (by rwa [length_append])
    exact absurd (inside.subset (by simp)) absent
  · exact prefix_of_prefix_length_le leads (prefix_append _ _) shorter

private theorem infix_at {pattern front rest : Text} {cell : Cell} (absent : cell ∉ pattern) :
    pattern <:+: front ++ cell :: rest ↔ pattern <:+: front ∨ pattern <:+: rest := by
  induction front with
  | nil =>
    rw [nil_append, infix_cons_iff]
    refine or_congr_left ⟨fun leads => ?_, fun none => ?_⟩
    · exact (@prefix_at pattern [] rest cell absent leads).isInfix
    · rw [infix_nil.mp none]
      exact nil_prefix
  | cons first front ih =>
    rw [cons_append, infix_cons_iff, ih, infix_cons_iff, or_assoc]
    refine or_congr_left ⟨@prefix_at pattern (first :: front) rest cell absent, fun leads => ?_⟩
    exact leads.trans (prefix_append (first :: front) _)

theorem mentioned_at {front rest cell} (absent : ∀ entry ∈ qualifiedNames, cell ∉ entry.1)
    (none : ∀ entry ∈ qualifiedNames, ¬entry.1 <:+: front) :
    mentioned (front ++ cell :: rest) = mentioned rest := by
  refine congrArg (List.map Prod.snd) (filter_congr fun entry member => ?_)
  rw [decide_eq_decide, infix_at (absent entry member), or_iff_right (none entry member)]

theorem mentioned_of_no_dot {type : Text} (absent : .scalar '.' ∉ type) : mentioned type = [] := by
  have dotted : ∀ entry ∈ qualifiedNames, .scalar '.' ∈ entry.1 := by decide
  rw [mentioned, map_eq_nil_iff, filter_eq_nil_iff]
  intro entry member inside
  exact absent ((of_decide_eq_true inside).subset (dotted entry member))

private theorem mentioned_primitiveType (name meaning : Text) :
    mentioned (primitiveType name meaning).1 = (primitiveType name meaning).2.toList := by
  unfold primitiveType
  repeat' split
  all_goals decide

mutual

theorem mentioned_goType (node : Node)
    (plain : ∀ name, node.Refers name → .scalar '.' ∉ name.identifier) :
    mentioned (goType node) = (packageOf node).toList := by
  match node with
  | .primitive name meaning =>
    rw [goType, packageOf]
    exact mentioned_primitiveType name meaning
  | .array items =>
    rw [goType, packageOf, ← mentioned_goType items fun name inner => plain name (.array inner)]
    exact @mentioned_at "[" _ (.scalar ']') (by decide) (by decide)
  | .map values =>
    rw [goType, packageOf, ← mentioned_goType values fun name inner => plain name (.map inner)]
    exact @mentioned_at "map[string" _ (.scalar ']') (by decide) (by decide)
  | .reference name =>
    exact mentioned_of_no_dot (plain name (.reference name))
  | .oneOf variants true =>
    rw [goType, packageOf]
    exact mentioned_optionalType variants fun variant member name inner =>
      plain name (.oneOf member inner)
  | .oneOf _ false | .object .. | .enum .. | .fixed .. | .absent =>
    exact (by decide : mentioned "any" = [])

private theorem mentioned_optionalType (variants : List Node)
    (plain : ∀ variant ∈ variants, ∀ name, variant.Refers name → .scalar '.' ∉ name.identifier) :
    mentioned (optionalType variants) = (packageOfFirst variants).toList := by
  match variants with
  | [] => decide
  | variant :: rest =>
    rw [optionalType, packageOfFirst, ← mentioned_goType variant (plain variant mem_cons_self)]
    split
    · rfl
    · exact @mentioned_at [] _ (.scalar '*') (by decide) (by decide)

end

/-! ## The import declaration -/

def Node.fieldTypes : Node → List Text
  | .object _ _ _ fields => fields.map fun field => goType field.type
  | _ => []

/-- Some field of a file has a type in which one of the names occurs. -/
def File.mentions (file : File) (names : List Text) : Bool :=
  file.declarations.any fun declaration =>
    declaration.node.fieldTypes.any fun type => names.any fun name => name <:+: type

def importBlock (needsBig needsTime : Bool) : List Text :=
  match needsBig, needsTime with
  | false, false => []
  | true, false => ["import (", "\t\"math/big\"", ")", ""]
  | false, true => ["import (", "\t\"time\"", ")", ""]
  | true, true => ["import (", "\t\"math/big\"", "\t\"time\"", ")", ""]

private theorem declarationPackages_eq (node : Node)
    (plain : ∀ name, node.Refers name → .scalar '.' ∉ name.identifier) :
    declarationPackages node = node.fieldTypes.flatMap mentioned := by
  cases node with
  | object =>
    rw [declarationPackages, Node.fieldTypes, flatMap_map, filterMap_eq_flatMap_toList]
    refine flatMap_congr fun field member => ?_
    exact (mentioned_goType field.type fun name inner => plain name (.object member inner)).symm
  | _ => rfl

def namesOf (package : Text) : List Text :=
  (qualifiedNames.filter fun entry => entry.2 = package).map Prod.fst

private theorem mem_mentioned {package type : Text} :
    package ∈ mentioned type ↔ ∃ name ∈ namesOf package, name <:+: type := by
  simp only [mentioned, namesOf, mem_map, mem_filter, decide_eq_true_eq]
  constructor
  · rintro ⟨entry, ⟨member, inside⟩, rfl⟩
    exact ⟨entry.1, ⟨entry, ⟨member, rfl⟩, rfl⟩, inside⟩
  · rintro ⟨name, ⟨entry, ⟨member, rfl⟩, rfl⟩, inside⟩
    exact ⟨entry, ⟨member, inside⟩, rfl⟩

section Declared

variable {file : File} (plain : ∀ declaration ∈ file.declarations, ∀ name,
  declaration.node.Refers name → .scalar '.' ∉ name.identifier)

include plain

theorem mem_packages_iff (package : Text) :
    package ∈ (file.declarations.flatMap fun declaration => declarationPackages declaration.node) ↔
      file.mentions (namesOf package) = true := by
  simp only [File.mentions, any_eq_true, mem_flatMap, decide_eq_true_eq]
  refine exists_congr fun declaration => and_congr_right fun member => ?_
  rw [declarationPackages_eq _ (plain declaration member), mem_flatMap]
  exact exists_congr fun type => and_congr_right fun _ => mem_mentioned

private theorem importLines_imports : importLines (imports file) =
    importBlock (file.mentions ["big.Rat"]) (file.mentions ["time.Time", "time.Duration"]) := by
  have big : _ ↔ file.mentions ["big.Rat"] = true := mem_packages_iff plain "math/big"
  have time : _ ↔ file.mentions ["time.Time", "time.Duration"] = true :=
    mem_packages_iff plain "time"
  rw [imports]
  simp only [filter_cons, filter_nil, big, time, decide_eq_true_eq]
  cases file.mentions ["big.Rat"] <;> cases file.mentions ["time.Time", "time.Duration"] <;> rfl

end Declared

/-! ## The other lines -/

/-- A line that cannot start with the word import. -/
def isOther (line : Text) : Bool := line.head? != some (.scalar 'i')

theorem not_import_of_isOther {line : Text} (other : isOther line = true) :
    ¬("import" : Text) <+: line := by
  rintro ⟨rest, rfl⟩
  exact absurd other (by exact Bool.false_ne_true)

theorem all_isOther_indent (lines : List Text) : (indent lines).all isOther = true := by
  rw [indent, List.all_map]
  exact all_eq_true.mpr fun _ _ => rfl

theorem all_isOther_docLines (name : TypeName) (doc : Text) :
    (docLines name doc).all isOther = true := by
  have comments : (commentLines doc).all isOther = true := by
    rw [commentLines, List.all_map]
    refine all_eq_true.mpr fun line _ => ?_
    rw [Function.comp_apply, commentLine]
    split <;> rfl
  rw [docLines, all_cons, Bool.and_eq_true]
  refine ⟨rfl, ?_⟩
  split
  · rfl
  · exact comments

private theorem all_isOther_typeLines (node : Node) : (typeLines node).all isOther = true := by
  cases node with
  | object =>
    simp only [typeLines, all_append, all_isOther_docLines, all_isOther_indent]
    split <;> rfl
  | enum =>
    simp only [typeLines, all_append, all_isOther_docLines]
    split <;> split <;>
      simp only [group, all_cons, all_append, all_isOther_indent] <;> rfl
  | fixed =>
    rw [typeLines, all_append, all_isOther_docLines]
    rfl
  | _ => rfl

private theorem all_isOther_declarationLines (declaration : Declaration) :
    (declarationLines declaration).all isOther = true := by
  rw [declarationLines, all_append, all_isOther_typeLines]
  rfl

private theorem all_isOther_headLines (file : File) : (headLines file).all isOther = true := by
  rw [headLines]
  split <;> rfl

theorem mem_of_namedOffers {offers references} (offered : namedOffers offers = .ok references) :
    ∀ reference ∈ references, .named reference ∈ offers := by
  induction offers generalizing references with
  | nil =>
    cases offered
    exact forall_mem_nil _
  | cons offer _ ih =>
    cases offer with
    | named =>
      obtain ⟨others, later, rfl⟩ := map_ok.mp offered
      intro reference member
      rcases mem_cons.mp member with rfl | among
      · exact mem_cons_self
      · exact mem_cons_of_mem _ (ih later reference among)
    | unsupported => cases offered

/-- One import declaration at most, between the head and the declarations, of the packages of the
types of the fields. -/
def File.Imports (file : File) : Prop :=
  fileLines file = headLines file ++
      importBlock (file.mentions ["big.Rat"]) (file.mentions ["time.Time", "time.Duration"]) ++
      file.declarations.flatMap declarationLines ∧
    ∀ line ∈ headLines file ++ file.declarations.flatMap declarationLines,
      ¬("import" : Text) <+: line

theorem imports_of_build {catalog : Catalog} {package : Text} {offers : List Offer} {file : File}
    (formed : ∀ reference, .named reference ∈ offers → (Schema.named reference).WellFormed catalog)
    (built : build catalog package offers = .ok file) : file.Imports := by
  obtain ⟨references, offered, sound, _⟩ := build_ok built
  have simple {root reference : Reference} (isRoot : root ∈ references)
      (path : (Schema.named root).Leads catalog (.named reference)) :
      .scalar '.' ∉ reference.name.simple := by
    obtain ⟨definition, _, named, legal, _⟩ :=
      formed root (mem_of_namedOffers offered root isRoot) _ path
    exact named ▸ Name.no_dot_of_isLegal legal
  have plain (declaration : Declaration) (member : declaration ∈ file.declarations)
      (name : TypeName) (refers : declaration.node.Refers name) : .scalar '.' ∉ name.identifier := by
    obtain ⟨root, isRoot, declared⟩ := sound declaration member
    obtain ⟨definition, found, node⟩ := declare_ok declared
    rw [node] at refers
    obtain ⟨reference, mentioned, rfl⟩ := declarationNode_refers refers
    obtain ⟨field, isField, inside⟩ := mem_flatMap.mp mentioned
    refine no_dot_typeName (forall_mem_map.mpr fun other listed => simple listed .here) ?_
    exact simple isRoot ((Schema.Leads.here.field found isField).mentioned inside)
  refine ⟨by rw [fileLines, importLines_imports plain], fun line member => ?_⟩
  rcases mem_append.mp member with head | later
  · exact not_import_of_isOther (all_eq_true.mp (all_isOther_headLines file) line head)
  · obtain ⟨declaration, _, inside⟩ := mem_flatMap.mp later
    exact not_import_of_isOther
      (all_eq_true.mp (all_isOther_declarationLines declaration) line inside)

/-- The types of a registry that a run builds are well-formed. -/
theorem imports_of_built {registry : Registry} {package : Text} {file : File}
    (run : Pipeline.Built registry)
    (built : build registry.catalog package (Emitter.offers registry) = .ok file) :
    file.Imports := by
  refine imports_of_build (fun reference offered => run.wellFormed reference ?_) built
  obtain ⟨entry, member, isType⟩ := mem_map.mp offered
  cases found : entry.type with
  | none => simp [found] at isType
  | some =>
    rw [found] at isType
    cases isType
    exact mem_filterMap.mpr ⟨entry, member, found⟩

/-- The file that is built of well-formed types has one import declaration at most, between its head
and its declarations. It has the packages of the types of the fields, and there is none if no field
has a type of a package. -/
theorem build_imports {catalog : Catalog} {package : Text} {offers : List Offer} {file : File}
    (formed : ∀ reference, .named reference ∈ offers → (Schema.named reference).WellFormed catalog)
    (built : build catalog package offers = .ok file) :
    fileLines file = headLines file ++
        importBlock (file.mentions ["big.Rat"]) (file.mentions ["time.Time", "time.Duration"]) ++
        file.declarations.flatMap declarationLines ∧
      ∀ line ∈ headLines file ++ file.declarations.flatMap declarationLines,
        ¬("import" : Text) <+: line :=
  imports_of_build formed built

def visit : Definition :=
  ⟨⟨"", "Visit"⟩, "", none, [], .record false
    [⟨"at", .primitive .long [("logicalType", .str "timestamp-millis")], "", none, .ascending, none,
      []⟩]⟩

def timeTree : Members := [("type", .str "long"), ("logicalType", .str "timestamp-millis")]

def visitTree : Json :=
  .obj [("type", .str "record"), ("name", .str "Visit"),
    ("fields", .arr [.obj [("name", .str "at"), ("type", .obj timeTree)]])]

private theorem build_visitTree : (build? .start [] visitTree).map (·.form) = some visitTree := by
  rw [visitTree, build?, buildObject?]
  change (Option.bind (buildFields? _ _ _ _) _).map _ = _
  rw [buildFields?, buildObject?]
  change (Option.bind (Option.bind (Option.bind (build? _ _ _) _) _) _).map _ = _
  rw [build?, buildObject?]
  simp only [buildFields?]
  rfl

private theorem wellFormed_visit : (Schema.named ⟨0, visit.name⟩).WellFormed [visit] := by
  intro node path
  have reached : node = .named ⟨0, visit.name⟩ ∨ node ∈ visit.body.fields.map (·.type) := by
    induction path with
    | here => exact .inl rfl
    | field _ found among ih =>
      rcases ih with same | among'
      · cases same
        cases found
        exact .inr (mem_map_of_mem among)
      · cases mem_singleton.mp among'
    | _ => simp_all [visit, Body.fields]
  rcases reached with rfl | among
  · exact ⟨visit, rfl, rfl, rfl, forall_mem_singleton.mpr rfl, nodup_singleton _⟩
  · cases mem_singleton.mp among
    exact trivial

theorem build_imports_visit : ∃ file,
    build [visit] "p" [.named ⟨0, visit.name⟩] = .ok file ∧ fileLines file = headLines file ++
      importBlock false true ++ file.declarations.flatMap declarationLines := by
  obtain ⟨⟨_, schema⟩, rfl, declares⟩ :=
    @declare_of_form [visit] (assignNames [visit.name]) ⟨0, visit.name⟩ _ visitTree rfl rfl rfl
      build_visitTree rfl
  have built : build [visit] "p" ([⟨0, visit.name⟩].map .named) =
      .ok ⟨packageName "p", [], [⟨declarationNode (assignNames [visit.name]) visit, schema⟩]⟩ := by
    rw [build, namedOffers_named, ok_bind]
    simp only [map_cons, map_nil, mapM_cons, mapM_nil, declares]
    rfl
  refine ⟨_, built, (build_imports ?_ built).1⟩
  intro reference offered
  cases mem_singleton.mp offered
  exact wellFormed_visit

end Binding

end Avro
