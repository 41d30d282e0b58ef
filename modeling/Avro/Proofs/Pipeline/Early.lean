import Avro.Pipeline.Run
import Avro.Proofs.FileTree.Endings
import Avro.Proofs.Pipeline.Jobs

/-!
# Before anything is emitted

The stages before the last one write protocols and nothing else, and their failures are not those of
emitting.
-/

set_option autoImplicit false

namespace Avro

open Job

variable {files after : FileTree} {place : List Text}

def IsProtocolFile (place : List Text) : Prop :=
  ∃ name, place.getLast? = some name ∧ DocumentKind.protocol.extension <:+ name

def IsBindingsFile (place : List Text) : Prop :=
  ∃ group, place.getLast? = some (Emitter.goFileName group)

theorem nameEnding_protocol : Path.NameEnding DocumentKind.protocol.extension :=
  ⟨by decide, .scalar 'a', by decide, by decide⟩

theorem IsBindingsFile.not_isProtocolFile (bindings : IsBindingsFile place) :
    ¬IsProtocolFile place := by
  obtain ⟨group, last⟩ := bindings
  rintro ⟨name, same, ends⟩
  rw [last] at same
  cases same
  have shorter := List.suffix_of_suffix_length_le ends (List.suffix_append group _) (by decide)
  exact absurd shorter (by decide)

theorem Compiler.writeInto_ok {directory name content path : Text}
    (written : writeInto files directory name content = .ok (path, after)) :
    ∃ place, after.Locates (Path.join [directory, name]) place ∧
      files.Evolves (· = place) after ∧ after.content? place = some content := by
  unfold writeInto at written
  split at written
  · cases written
  · rename_i middle made
    dsimp only at written
    split at written
    · cases written
    · rename_i done
      cases written
      obtain ⟨place, leads, evolves, holds⟩ := FileTree.evolves_of_write done
      have before := FileTree.evolves_of_makeDirectories made
      exact ⟨place, evolves.locates leads, (before.mono nofun).trans evolves, holds⟩

private theorem Compiler.evolves_of_compile {resolver canceled document protocol directory}
    (compiled : compile resolver canceled files document directory = .ok (protocol, after)) :
    files.Evolves IsProtocolFile after := by
  unfold compile at compiled
  split at compiled
  · cases compiled
  · split at compiled
    · cases compiled
    · split at compiled
      · cases compiled
      · dsimp only at compiled
        split at compiled
        · cases compiled
          exact .refl _ _
        · split at compiled
          · cases compiled
          · rename_i written
            cases compiled
            obtain ⟨place, leads, evolves, _⟩ := writeInto_ok written
            refine evolves.mono ?_
            rintro _ rfl
            exact leads.ending nameEnding_protocol
              (nameEnding_protocol.join _ (List.suffix_append _ _))

namespace Pipeline

private theorem evolves_compileEach (resolver : Resolver) (directory : Text) (files : FileTree)
    (documents : List Document) :
    files.Evolves IsProtocolFile (compileEach resolver directory files documents).files := by
  induction documents generalizing files with
  | nil => exact .refl _ _
  | cons _ _ ih =>
    rw [compileEach]
    split
    · exact .refl _ _
    · rename_i compiled
      exact (Compiler.evolves_of_compile compiled).trans (ih _)

private theorem evolves_compileAll (resolver : Resolver) (directory : Text) (files : FileTree)
    (documents : List Document) :
    files.Evolves IsProtocolFile (compileAll resolver directory files documents).files := by
  unfold compileAll
  split
  · exact .refl _ _
  · exact evolves_compileEach resolver directory files documents

def Compiled.outcome (compiled : Compiled) : Except Failure (List Document) :=
  match compiled.failure with
  | some failure => .error failure
  | none => .ok (compiled.protocols.map Prod.snd)

theorem meets_compileJob (resolver : Resolver) (stage : Stage) (fields : List LogField)
    (documents : List Document) (directory : Text) :
    Job.Meets IsProtocolFile
      (fun result => ∃ files, (compileAll resolver directory files documents).outcome = result)
      (compileJob resolver stage fields documents directory) := by
  unfold compileJob
  refine meets_update ?_ ?_
  · exact fun session => evolves_compileAll resolver directory session.files documents
  · intro session
    refine Job.Meets.bind (meets_forM _ fun _ => meets_log _ _ _) ?_ nofun
    intro _ _
    split
    · rename_i failed
      refine (meets_throw _).weaken fun _ same => ⟨session.files, ?_⟩
      rw [Compiled.outcome, failed, same]
    · rename_i intact
      refine (meets_measure _).bind ?_ nofun
      intro _ _
      refine (meets_pure _).weaken fun _ same => ⟨session.files, ?_⟩
      rw [Compiled.outcome, intact, same]

theorem meets_registerJob {touched} (stage : Stage) (fields : List LogField) (registry : Registry)
    (documents : List Document) :
    Job.Meets touched
      (fun result => ∃ files, (register files registry documents).result = result.map Prod.fst)
      (registerJob stage fields registry documents) := by
  refine meets_get.bind ?_ nofun
  intro session _
  refine Job.Meets.bind (meets_forM _ fun _ => meets_log _ _ _) ?_ nofun
  intro _ _
  split
  · rename_i failed
    exact (meets_throw _).weaken fun _ same => ⟨session.files, by rw [failed, same]; rfl⟩
  · rename_i done
    refine (meets_measure _).bind ?_ nofun
    intro _ _
    exact (meets_pure _).weaken fun _ same => ⟨session.files, by rw [done, same]; rfl⟩

/-! ## What failed -/

inductive Work
  | compile (directory : Text) (documents : List Document)
  | register (registry : Registry) (documents : List Document)

def Work.documents : Work → List Document
  | .compile _ documents => documents
  | .register _ documents => documents

def Work.Fails (resolver : Resolver) (files : FileTree) (failure : Failure) : Work → Prop
  | .compile directory documents =>
    (compileAll resolver directory files documents).outcome = .error failure
  | .register registry documents =>
    (Pipeline.register files registry documents).result = .error failure

variable {options : Options} {dependencies : DependencySet} {groups : List Group}

/-- The dependencies have been compiled and registered. -/
def Supplies (options : Options) (dependencies : DependencySet) (registry : Registry) : Prop :=
  ∃ files protocols after,
    (compileAll options.resolver dependencies.protocolDirectory files
      (sources dependencies.documents)).outcome = .ok protocols ∧
    (register after .empty (protocols ++ registrable dependencies.documents)).result = .ok registry

/-- What is done in each stage before the last one, and the group that is named for it. -/
inductive Undertakes (options : Options) (dependencies : DependencySet) (groups : List Group) :
    Stage → Text → Work → Prop
  | compileDependencies :
      Undertakes options dependencies groups .compileDependencies []
        (.compile dependencies.protocolDirectory (sources dependencies.documents))
  | registerDependencies {files protocols}
      (compiled : (compileAll options.resolver dependencies.protocolDirectory files
        (sources dependencies.documents)).outcome = .ok protocols) :
      Undertakes options dependencies groups .registerDependencies []
        (.register .empty (protocols ++ registrable dependencies.documents))
  | compileGroup {group} (member : group ∈ groups) :
      Undertakes options dependencies groups .compileGroup group.name
        (.compile group.protocolDirectory (sources group.documents))
  | registerGroup {group registry files protocols} (member : group ∈ groups)
      (supplied : Supplies options dependencies registry)
      (compiled : (compileAll options.resolver group.protocolDirectory files
        (sources group.documents)).outcome = .ok protocols) :
      Undertakes options dependencies groups .registerGroup group.name
        (.register registry (registrable group.documents ++ protocols))

/-- The failure, if there is one, is that of a stage before the last one. -/
def Early {α : Type} (options : Options) (dependencies : DependencySet) (groups : List Group) :
    Except Failure α → Prop
  | .ok _ => True
  | .error failure => ∃ stage group work cause, failure = .stage stage.name group cause ∧
      Undertakes options dependencies groups stage group work ∧
      (cause = .canceled ∨ ∃ files, work.Fails options.resolver files cause)

theorem Early.not_emit {failure : Failure}
    (early : Early options dependencies groups (.error failure : Except Failure Unit))
    (name : Text) (cause : Failure) : failure ≠ .stage Stage.emit.name name cause := by
  obtain ⟨stage, _, _, _, rfl, undertakes, _⟩ := early
  intro same
  have stages := (Failure.stage.inj same).1
  cases undertakes <;> exact absurd stages (by decide)

private theorem meets_groupStages (fields : List LogField) {registry} (canceled : Bool)
    (supplied : Supplies options dependencies registry) {group} (member : group ∈ groups) :
    Job.Meets IsProtocolFile (Early options dependencies groups)
      (groupStages options fields registry canceled group) := by
  refine (Stage.meets_run (meets_compileJob _ _ _ _ _) .compileGroup _).bind ?_ ?_
  · rintro protocols ⟨files, compiled⟩
    refine (Stage.meets_run (meets_registerJob _ _ _ _) .registerGroup _).bind ?_ ?_
    · intro registered _
      refine (meets_measure _).bind ?_ nofun
      intro _ _
      refine (meets_pure _).weaken ?_
      rintro _ rfl
      trivial
    · rintro _ ⟨cause, rfl, why⟩
      exact ⟨_, _, _, cause, rfl, .registerGroup member supplied compiled, why⟩
  · rintro _ ⟨cause, rfl, why⟩
    exact ⟨_, _, _, cause, rfl, .compileGroup member, why⟩

private theorem meets_runGroup (fields : List LogField) {registry} (canceled : Bool)
    (supplied : Supplies options dependencies registry) {group} (member : group ∈ groups) :
    Job.Meets IsProtocolFile (Early options dependencies groups)
      (runGroup options fields registry canceled group) := by
  refine ((meets_groupStages _ _ supplied member).echo id ?_).weaken ?_
  · intro result session
    cases result <;> exact ⟨rfl, rfl⟩
  · rintro _ ⟨inner, early, rfl⟩
    cases inner <;> exact early

private theorem meets_runGroups (fields : List LogField) {registry}
    (supplied : Supplies options dependencies registry) {failure}
    (early : ∀ first, failure = some first →
      Early options dependencies groups (.error first : Except Failure Unit)) {some}
    (subset : some ⊆ groups) :
    Job.Meets IsProtocolFile (Early options dependencies groups)
      (runGroups options fields registry failure some) := by
  induction some generalizing failure with
  | nil =>
    cases failure with
    | none =>
      refine (meets_pure _).weaken ?_
      rintro _ rfl
      trivial
    | some first =>
      refine (meets_throw _).weaken ?_
      rintro _ rfl
      exact early first rfl
  | cons _ _ ih =>
    obtain ⟨member, others⟩ := List.cons_subset.mp subset
    rw [runGroups]
    refine (meets_runGroup _ _ supplied member).outcome.bind ?_ nofun
    rintro result ⟨_, ⟨⟩, done⟩
    cases result with
    | ok =>
      refine (ih early others).bind ?_ fun _ kept => kept
      intro results _
      refine (meets_pure _).weaken ?_
      rintro _ rfl
      trivial
    | error =>
      -- the first failure is kept
      refine ih ?_ others
      intro first same
      cases failure with
      | none =>
        cases same
        exact done
      | some =>
        cases same
        exact early _ rfl

/-- The part of a run before anything is emitted. -/
def prepare (options : Options) (fields : List LogField) (dependencies : DependencySet)
    (groups : List Group) : Job (List Document × Registry × Nat × List GroupResult) := do
  if let some fault := Group.fault? [] groups then throw (.groups fault)
  let context : StageContext := ⟨[], fields, runSpan, false⟩
  let protocols ← Stage.compileDependencies.run context
    (compileJob options.resolver .compileDependencies fields (sources dependencies.documents)
      dependencies.protocolDirectory)
  let (registry, count) ← Stage.registerDependencies.run context
    (registerJob .registerDependencies fields .empty
      (protocols ++ registrable dependencies.documents))
  Job.measure (·.set .registryTypes ["dependencies"] registry.size)
  let results ← runGroups options fields registry none groups
  return (protocols, registry, count, results)

theorem stages_eq (options : Options) (fields : List LogField) (dependencies : DependencySet)
    (groups : List Group) :
    stages options fields dependencies groups = (do
      let prepared ← prepare options fields dependencies groups
      options.emitter.elim (pure ()) fun emitter =>
        (List.zip groups prepared.2.2.2).forM fun emission =>
          emitGroup emitter fields emission.1 emission.2.types
      return ⟨options.identifier, prepared.2.1, prepared.1, prepared.2.2.2,
        0 < prepared.2.2.1 || prepared.2.2.2.any GroupResult.didWork⟩) := by
  unfold stages prepare
  cases Group.fault? [] groups with
  | some => rfl
  | none =>
    cases options.emitter <;> simp only [bind_assoc, pure_bind, Option.elim]

theorem meets_prepare (options : Options) (fields : List LogField) (dependencies : DependencySet)
    (groups : List Group) :
    Job.Meets IsProtocolFile
      (fun result =>
        (∃ fault, Group.fault? [] groups = some fault ∧ result = .error (.groups fault)) ∨
          Early options dependencies groups result)
      (prepare options fields dependencies groups) := by
  unfold prepare
  cases Group.fault? [] groups with
  | some fault => exact (meets_throw _).weaken fun _ same => .inl ⟨fault, rfl, same⟩
  | none =>
    refine Job.Meets.weaken ?_ fun _ early => .inr early
    refine (Stage.meets_run (meets_compileJob _ _ _ _ _) .compileDependencies _).bind ?_ ?_
    · rintro protocols ⟨files, compiled⟩
      refine (Stage.meets_run (meets_registerJob _ _ _ _) .registerDependencies _).bind ?_ ?_
      · rintro ⟨registry, count⟩ ⟨after, registered⟩
        refine (meets_measure _).bind ?_ nofun
        intro _ _
        have supplied : Supplies options dependencies registry :=
          ⟨files, protocols, after, compiled, registered⟩
        refine (meets_runGroups fields supplied (by nofun) (List.Subset.refl groups)).bind ?_
          fun _ kept => kept
        intro _ _
        refine (meets_pure _).weaken ?_
        rintro _ rfl
        trivial
      · rintro _ ⟨cause, rfl, why⟩
        exact ⟨_, _, _, cause, rfl, .registerDependencies compiled, why⟩
    · rintro _ ⟨cause, rfl, why⟩
      exact ⟨_, _, _, cause, rfl, .compileDependencies, why⟩

theorem run_run (options : Options) (dependencies : DependencySet) (groups : List Group)
    (session : Session) :
    let done := (stages options [.run options.identifier] dependencies groups).run.run session
    ((run options dependencies groups).run.run session).1 = done.1 ∧
      ((run options dependencies groups).run.run session).2.files = done.2.files := by
  intro done
  have echoed : ((run options dependencies groups).run.run session).1 = done.1.mapError id ∧
      ((run options dependencies groups).run.run session).2.files = done.2.files := by
    rw [run]
    refine Job.Echoes.run ?_ _ session
    intro result session
    cases result <;> exact ⟨rfl, rfl⟩
  refine ⟨echoed.1.trans ?_, echoed.2⟩
  cases done.1 <;> rfl

end Pipeline

end Avro
