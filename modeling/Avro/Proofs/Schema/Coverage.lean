import Avro.Proofs.Schema.Scope

/-!
# Reading with more names known

A document is read twice. If both readings succeed they define the same names, and if the second
scope knows all that the first one knows, the second reading meets no undefined name. It may still
fail, since a name without a namespace can find a nearer type there.
-/

set_option autoImplicit false

namespace Avro

variable {narrow wide after : Scope}

namespace Scope

def Covers (wide narrow : Scope) : Prop := ∀ name, narrow.Knows name → wide.Knows name

theorem Extends.covers {wideAfter first second} (narrowly : narrow.Extends after first)
    (widely : wide.Extends wideAfter second) (covers : wide.Covers narrow) :
    wideAfter.Covers after := fun name knows =>
  (widely.knows name).mpr (covers name ((narrowly.knows name).mp knows))

private theorem resolve?_isSome_of_covers {name space : Text} (same : wide.names = narrow.names)
    (covers : wide.Covers narrow) (resolved : (narrow.resolve? name space).isSome) :
    (wide.resolve? name space).isSome := by
  obtain ⟨full, candidate, found⟩ := resolve?_isSome_iff.mp resolved
  refine resolve?_isSome_iff.mpr ⟨full, candidate, ?_⟩
  rcases found with own | known
  · exact .inl (same ▸ own)
  · exact .inr (covers full known)

end Scope

namespace Schema

variable {α : Type}

/-- What is true of a second reading in `wide` if a first one went from `narrow` to `after`. -/
def Follows {α : Type} (narrow after wide : Scope) : Except SchemaError (α × Scope) → Prop
  | .ok result => result.2.names = after.names ∧ (wide.Covers narrow → result.2.Covers after)
  | .error error => wide.Covers narrow → error.isUndefined = false

theorem Follows.refl (value : α) (same : wide.names = narrow.names) :
    Follows narrow narrow wide (.ok (value, wide)) :=
  ⟨same, id⟩

theorem Follows.bind {β : Type} {middle : Scope} {outcome : Except SchemaError (α × Scope)}
    {next : α × Scope → Except SchemaError (β × Scope)} (start : Follows narrow middle wide outcome)
    (continued : ∀ value wideMiddle, outcome = .ok (value, wideMiddle) →
      wideMiddle.names = middle.names → Follows middle after wideMiddle (next (value, wideMiddle)))
    : Follows narrow after wide (outcome >>= next) := by
  cases outcome with
  | error => exact start
  | ok result =>
    obtain ⟨value, wideMiddle⟩ := result
    obtain ⟨same, covers⟩ := start
    have continued := continued value wideMiddle rfl same
    rw [ok_bind]
    cases finished : next (value, wideMiddle) with
    | error =>
      rw [finished] at continued
      exact fun covered => continued (covers covered)
    | ok =>
      rw [finished] at continued
      exact ⟨continued.1, fun covered => continued.2 (covers covered)⟩

theorem Follows.map {β : Type} {outcome : Except SchemaError (α × Scope)}
    {change : α × Scope → β × Scope} (start : Follows narrow after wide outcome)
    (kept : ∀ result, (change result).2 = result.2) :
    Follows narrow after wide (outcome.map change) := by
  cases outcome with
  | error => exact start
  | ok =>
    rw [ok_map, Follows, kept]
    exact start

private theorem makeUnion_error {branches error} (refused : makeUnion branches = .error error) :
    error.isUndefined = false := by
  have fault (seen : List Text) (branches : List Schema) :
      branchFault? seen branches = some error → error.isUndefined = false := by
    induction branches generalizing seen with
    | nil => exact nofun
    | cons _ _ ih =>
      intro found
      unfold branchFault? at found
      split at found
      · cases found
        rfl
      · split at found
        · cases found
          rfl
        · exact ih _ found
  unfold makeUnion at refused
  split at refused
  next found =>
    cases refused
    exact fault [] branches found
  next => cases refused

private theorem readFieldRest_ok {members name type field}
    (completed : readFieldRest members name type = .ok field) (other : Schema) :
    readFieldRest members name other = .ok { field with type := other } := by
  unfold readFieldRest at completed ⊢
  obtain ⟨order, ordered, completed⟩ := bind_ok.mp completed
  obtain ⟨aliases, aliased, completed⟩ := bind_ok.mp completed
  cases completed
  simp [ordered, aliased]

theorem Reads.field_name {scope space members field}
    (reads : Reads scope (.field space members) (.field field) after) :
    readFieldName members = .ok field.name := by
  cases reads with
  | field called _ _ completed =>
    unfold readFieldRest at completed
    obtain ⟨order, _, completed⟩ := bind_ok.mp completed
    obtain ⟨aliases, _, completed⟩ := bind_ok.mp completed
    cases completed
    exact called

theorem Follows.define {inner head reference} (same : wide.names = narrow.names)
    (defined : narrow.define head = .ok (reference, inner)) :
    Follows narrow inner wide (wide.define head) := by
  obtain ⟨fresh, _, extended⟩ := Scope.define_ok_iff.mp defined
  rw [← same] at fresh
  cases outcome : wide.define head with
  | error =>
    rw [Scope.define, Scope.declare] at outcome
    split at outcome
    next found =>
      rw [Scope.names, ← Scope.lookup_isSome_iff_mem, found] at fresh
      exact absurd rfl fresh
    next => cases outcome
  | ok =>
    obtain ⟨_, _, widely⟩ := Scope.define_ok_iff.mp outcome
    refine ⟨?_, fun covers => extended.covers widely covers⟩
    rw [widely.names, extended.names, same]

theorem Follows.install {reference : Reference} {body : Body}
    {outcome : Except SchemaError (α × Scope)} (follows : Follows narrow after wide outcome) :
    Follows narrow (after.install reference body) wide outcome := by
  cases outcome with
  | error | ok => exact follows

theorem Follows.unmap {β : Type} {outcome : Except SchemaError (α × Scope)} {change : α → β}
    (follows : Follows narrow after wide (outcome.map fun result => (change result.1, result.2))) :
    Follows narrow after wide outcome := by
  cases outcome with
  | error | ok => exact follows

theorem Follows.within {outcome : Except SchemaError (α × Scope)}
    (follows : Follows narrow after wide outcome) (place : SchemaError → SchemaError)
    (kept : ∀ error, (place error).isUndefined = error.isUndefined) :
    Follows narrow after wide (outcome.mapError place) := by
  cases outcome with
  | error error => exact fun covers => (kept error).trans (follows covers)
  | ok => exact follows

theorem Follows.readName {space name schema} (same : wide.names = narrow.names)
    (other : Primitive.ofName? name = none) (resolved : narrow.resolve? name space = some schema) :
    Follows narrow narrow wide
      ((Schema.readName wide space name).map fun schema => (schema, wide)) := by
  simp only [Schema.readName, other]
  cases found : wide.resolve? name space with
  | some => exact .refl _ same
  | none =>
    intro covers
    have missing := Scope.resolve?_isSome_of_covers same covers (by rw [resolved]; rfl)
    rw [found] at missing
    cases missing

/-- A reading is followed by every other reading of the same part in a scope with the same
definitions. -/
theorem Reads.follows {part : Part} {meaning : Meaning} (reads : Reads narrow part meaning after)
    (same : wide.names = narrow.names) : Follows narrow after wide (part.read wide) := by
  induction reads generalizing wide with
  | primitive found =>
    simp only [Part.read, read, readName, found]
    exact .refl _ same
  | name other resolved =>
    rw [Part.read, read]
    exact ((Follows.readName same other resolved).map fun _ => rfl)
  | union _ _ ih =>
    rw [Part.read, read]
    refine (Follows.bind (ih same).unmap ?_).map fun _ => rfl
    intro branches wideAfter _ same
    dsimp only
    cases remade : makeUnion branches with
    | error => exact fun _ => makeUnion_error remade
    | ok => exact .refl _ same
  | primitiveObject typed found =>
    rw [Part.read, read_primitive typed found]
    exact .refl _ same
  | leaf isLeaf typed headed defined bodied =>
    rw [Part.read, read_leaf isLeaf typed, headed]
    refine (Follows.bind (Follows.define same defined) ?_).install.map fun _ => rfl
    intro reference wideInner _ same
    simp only [bodied]
    exact .refl _ same
  | record typed headed defined listed _ ih =>
    rw [Part.read, read_record typed, headed]
    refine (Follows.bind (Follows.define same defined) ?_).map fun _ => rfl
    intro reference wideInner _ same
    simp only [listed]
    refine Follows.install (Follows.bind (ih same).unmap ?_)
    intro fields wideAfter _ same
    exact .refl _ same
  | container typed present _ ih =>
    rw [Part.read, read_container typed present]
    refine (Follows.bind (ih same).unmap ?_).map fun _ => rfl
    intro inner wideAfter _ same
    exact .refl _ same
  | nameObject typed other noKind noContainer resolved =>
    rw [Part.read, read_nameObject typed other noKind noContainer]
    exact (Follows.readName same other resolved).map fun _ => rfl
  | wrapped typed noName _ ih =>
    rw [Part.read, read_wrapped typed noName]
    exact ih same
  | noBranches =>
    rw [Part.read, readBranches]
    exact .refl _ same
  | moreBranches _ _ firstIH othersIH =>
    rw [Part.read, readBranches]
    refine (Follows.bind (firstIH same).unmap ?_).map fun _ => rfl
    intro branch wideMiddle _ same
    refine Follows.bind (othersIH same).unmap ?_
    intro branches wideAfter _ same
    exact .refl _ same
  | noFields =>
    rw [Part.read, readFields]
    exact .refl _ same
  | moreFields first fresh _ firstIH othersIH =>
    rw [Part.read, readFields_cons]
    refine (Follows.bind ((firstIH same).unmap.within (.inRecord _) fun _ => rfl) ?_).map fun _ => rfl
    intro field wideMiddle done same
    have again := readField_ok_iff.mp (mapError_ok.mp done)
    simp only [Except.ok.inj (again.field_name.symm.trans first.field_name), if_neg fresh]
    refine Follows.bind (othersIH same).unmap ?_
    intro fields wideAfter _ same
    exact .refl _ same
  | field called typed _ completed ih =>
    rw [Part.read, readField_typed called typed]
    refine (Follows.bind (ih same).unmap ?_).map fun _ => rfl
    intro type wideAfter _ same
    simp only [readFieldRest_ok completed]
    exact .refl _ same

end Schema

end Avro
