import Avro.Proofs.Pipeline.Early

/-!
# What a failed run leaves behind

Bindings are written at the end of a run, group by group. A failure while those of one group are
written leaves those of the groups before it.
-/

set_option autoImplicit false

open List

namespace Avro

open Emitter

variable {before files middle after : FileTree} {groups : List Group} {group : Group}

def Group.bindingsPath (group : Group) : Text :=
  Path.join [group.outputDirectory, goFileName group.name]

def Group.request (group : Group) (types : Registry) : EmitRequest :=
  ⟨group.name, Group.packageFor group.name group.package, group.outputDirectory, types⟩

def HoldsBindings (files : FileTree) (groups : List Group) (place : List Text) : Prop :=
  ∃ group ∈ groups, ∃ types source, goSource (group.request types) = .ok source ∧
    files.content? place = some source

structure Emitted (before : FileTree) (groups : List Group) (after : FileTree) : Prop where
  present : ∀ group ∈ groups, ∃ place, after.Locates group.bindingsPath place ∧
    HoldsBindings after groups place
  evolves : before.Evolves
    (fun place => ∃ group ∈ groups, after.Locates group.bindingsPath place) after

theorem FileTree.Locates.unique {path first second} (leads : files.Locates path first)
    (leadsToo : files.Locates path second) : first = second := by
  obtain ⟨above, name, found, rfl⟩ := leads
  obtain ⟨_, _, same, rfl⟩ := leadsToo
  rw [found] at same
  cases same
  rfl

theorem Emitted.nil (files : FileTree) : Emitted files [] files where
  present := nofun
  evolves := .refl _ _

theorem Emitted.cons {place types source} (built : goSource (group.request types) = .ok source)
    (leads : middle.Locates group.bindingsPath place) (wrote : files.Evolves (· = place) middle)
    (holds : middle.content? place = some source) (rest : Emitted middle groups after) :
    Emitted files (group :: groups) after := by
  have later := rest.evolves.locates leads
  constructor
  · intro other member
    rcases mem_cons.mp member with rfl | among
    · refine ⟨place, later, ?_⟩
      by_cases again : ∃ group ∈ groups, after.Locates group.bindingsPath place
      · -- a later group has the same file
        obtain ⟨twin, among, leadsToo⟩ := again
        obtain ⟨there, leadsThere, owner, owned, bindings⟩ := rest.present twin among
        rw [leadsToo.unique leadsThere]
        exact ⟨owner, mem_cons_of_mem _ owned, bindings⟩
      · refine ⟨_, mem_cons_self .., types, source, built, ?_⟩
        rw [rest.evolves.files place again, holds]
    · obtain ⟨there, leadsThere, owner, owned, bindings⟩ := rest.present other among
      exact ⟨there, leadsThere, owner, mem_cons_of_mem _ owned, bindings⟩
  · refine (wrote.mono ?_).trans (rest.evolves.mono ?_)
    · rintro _ rfl
      exact ⟨group, mem_cons_self .., later⟩
    · rintro there ⟨other, among, leadsThere⟩
      exact ⟨other, mem_cons_of_mem _ among, leadsThere⟩

theorem Emitter.writeGo_ok {request : EmitRequest} (written : writeGo files request = .ok after) :
    ∃ place source, goSource request = .ok source ∧
      after.Locates (Path.join [request.outputDirectory, goFileName request.group]) place ∧
      files.Evolves (· = place) after ∧ after.content? place = some source := by
  unfold writeGo at written
  split at written
  · cases written
  · rename_i source built
    split at written
    · cases written
    · rename_i done
      cases written
      obtain ⟨place, leads, evolves, holds⟩ := Compiler.writeInto_ok done
      exact ⟨place, source, built, leads, evolves, holds⟩

theorem Emitter.run_go (request : EmitRequest) (session : Session) :
    (go request).run.run session =
      if session.canceled then (.error .canceled, session)
      else
        match writeGo session.files request with
        | .error failure => (.error failure, session)
        | .ok files => (.ok (), { session with files := files }) := by
  unfold go
  rw [Job.run_bind, Job.run_get]
  obtain ⟨files, canceled, records, metrics, spans, requests⟩ := session
  cases canceled with
  | true => rfl
  | false =>
    dsimp only
    cases writeGo files request <;> rfl

namespace Pipeline

variable {fields : List LogField} {types : Registry} {failure : Failure}

/-- Either the bindings of a group are written, or the files stay and the failure names it. -/
private theorem emitGroup_run (fields : List LogField) (group : Group) (types : Registry)
    (session : Session) {result after}
    (ran : (emitGroup go fields group types).run.run session = (result, after)) :
    result = .ok () ∧ writeGo session.files (group.request types) = .ok after.files ∨
      after.files = session.files ∧
        ∃ cause, result = .error (.stage Stage.emit.name group.name cause) := by
  let context : StageContext := ⟨group.name, fields ++ [.group group.name], runSpan, false⟩
  let asked : Job Unit := do
    modify fun session => { session with requests := session.requests ++ [group.request types] }
    go (group.request types)
  have staged : emitGroup go fields group types = Stage.emit.run context asked := rfl
  obtain ⟨started, done, same, work, outcome, files⟩ := Stage.emit.run_run context asked session
  rw [← staged, ran] at outcome files
  dsimp only at outcome files
  rw [outcome, files, ← same]
  split at work
  · rw [work]
    exact .inr ⟨rfl, _, rfl⟩
  · rw [Job.run_bind, Job.run_modify] at work
    dsimp only at work
    rw [run_go] at work
    dsimp only at work
    split at work
    · rw [work]
      exact .inr ⟨rfl, _, rfl⟩
    · split at work
      · rw [work]
        exact .inr ⟨rfl, _, rfl⟩
      · rename_i written
        rw [work]
        exact .inl ⟨rfl, written⟩

/-- Groups are emitted in order. The failure is that of one of them; those before it are done. -/
private theorem emission_error (fields : List LogField) {results : List GroupResult}
    {session after : Session}
    (failed : ((groups.zip results).forM fun (group, result) =>
      emitGroup go fields group result.types).run.run session = (.error failure, after)) :
    ∃ emitted group rest cause, groups = emitted ++ group :: rest ∧
      failure = .stage Stage.emit.name group.name cause ∧
      Emitted session.files emitted after.files := by
  induction groups generalizing results session with
  | nil => cases failed
  | cons group others ih =>
    cases results with
    | nil => cases failed
    | cons result results =>
      change (emitGroup go fields group result.types >>= fun _ =>
        (others.zip results).forM _).run.run session = _ at failed
      rw [Job.run_bind] at failed
      cases ran : (emitGroup go fields group result.types).run.run session with
      | mk =>
        rw [ran] at failed
        rcases emitGroup_run fields group result.types session ran with
          ⟨rfl, written⟩ | ⟨same, cause, rfl⟩
        · obtain ⟨emitted, next, rest, cause, rfl, named, done⟩ := ih failed
          obtain ⟨place, source, built, leads, evolves, holds⟩ := writeGo_ok written
          exact ⟨group :: emitted, next, rest, cause, rfl, named,
            done.cons built leads evolves holds⟩
        · cases failed
          refine ⟨[], group, others, cause, rfl, rfl, ?_⟩
          rw [same]
          exact .nil _

/-- What a failure leaves: protocols, and the bindings of the groups that were emitted before it. -/
def Leaves (groups : List Group) (before : FileTree) (failure : Failure)
    (after : FileTree) : Prop :=
  ∃ emitted,
    (emitted = [] ∧ (∀ name cause, failure ≠ .stage Stage.emit.name name cause) ∨
      ∃ group rest cause, groups = emitted ++ group :: rest ∧
        failure = .stage Stage.emit.name group.name cause) ∧
    (∀ group ∈ emitted, ∃ place, after.Locates group.bindingsPath place ∧
      HoldsBindings after emitted place) ∧
    before.Evolves (fun place => IsProtocolFile place ∨
      ∃ group ∈ emitted, after.Locates group.bindingsPath place) after

private theorem leaves_stages {options : Options} (goes : options.emitter = some go)
    (fields : List LogField) (dependencies : DependencySet) (groups : List Group) (session : Session)
    (failure : Failure) (after : Session)
    (failed : (stages options fields dependencies groups).run.run session =
      (.error failure, after)) :
    Leaves groups session.files failure after.files := by
  rw [stages_eq, goes] at failed
  have prepared := meets_prepare options fields dependencies groups session
  rcases Job.run_bind_error failed with failed | ⟨_, middle, ran, failed⟩
  · rw [failed] at prepared
    obtain ⟨evolves, why⟩ := prepared
    refine ⟨[], .inl ⟨rfl, ?_⟩, nofun, evolves.mono fun _ protocol => .inl protocol⟩
    rcases why with ⟨fault, _, ⟨⟩⟩ | early
    · nofun
    · exact early.not_emit
  · rw [ran] at prepared
    rcases Job.run_bind_error failed with failed | ⟨_, _, _, ⟨⟩⟩
    obtain ⟨emitted, group, rest, cause, whole, named, wrote⟩ := emission_error fields failed
    exact ⟨emitted, .inr ⟨group, rest, cause, whole, named⟩, wrote.present,
      (prepared.1.mono fun _ protocol => .inl protocol).trans
        (wrote.evolves.mono fun _ located => .inr located)⟩

private theorem leaves_run {options : Options} {dependencies session after}
    (goes : options.emitter = some go)
    (failed : (run options dependencies groups).run.run session = (.error failure, after)) :
    Leaves groups session.files failure after.files := by
  have echoed := run_run options dependencies groups session
  rw [failed] at echoed
  obtain ⟨result, files⟩ := echoed
  rw [files]
  exact leaves_stages goes _ dependencies groups session failure _ (Prod.ext result.symm rfl)

/-- When a run with the Go emitter fails, it has written the bindings of the groups before the one
whose emission failed, and those of no other group. If something else failed it has written none. -/
theorem bindings_of_failed_run (options : Options) (dependencies : DependencySet)
    (groups : List Group) (session after : Session) (failure : Failure)
    (goes : options.emitter = some go)
    (failed : (run options dependencies groups).run.run session = (.error failure, after)) :
    ∃ emitted,
      ((emitted = [] ∧ ∀ name cause, failure ≠ .stage Stage.emit.name name cause) ∨
        ∃ group rest cause, groups = emitted ++ group :: rest ∧
          failure = .stage Stage.emit.name group.name cause) ∧
      (∀ group ∈ emitted, ∃ place, after.files.Locates group.bindingsPath place ∧
        HoldsBindings after.files emitted place) ∧
      ∀ place, IsBindingsFile place → after.files.content? place ≠ session.files.content? place →
        ∃ group ∈ emitted, after.files.Locates group.bindingsPath place := by
  obtain ⟨emitted, reached, present, evolves⟩ := leaves_run goes failed
  refine ⟨emitted, reached, present, ?_⟩
  intro place bindings changed
  apply Classical.byContradiction
  intro spared
  refine changed (evolves.files place ?_)
  rintro (protocol | located)
  · exact bindings.not_isProtocolFile protocol
  · exact spared located

/-- A file is in the way of the bindings of the second of two groups. Those of the first stay. -/
theorem bindings_of_failed_run_blocked :
    let files : FileTree := ⟨.directory [("f", .file "x")], []⟩
    let groups : List Group := [⟨"a", [], [], "out", "p"⟩, ⟨"b", [], [], "f", "p"⟩]
    let ran := (run ⟨.memory [], some go, "r"⟩ ⟨[], []⟩ groups).run.run (.start files false)
    files.content? ["out", "a_avro.go"] = none ∧
      (ran.2.files.content? ["out", "a_avro.go"]).isSome ∧
      ∃ emitted group rest cause, emitted ≠ [] ∧ groups = emitted ++ group :: rest ∧
        ran.1 = .error (.stage Stage.emit.name group.name cause) := by
  intro files groups ran
  have absent : files.content? ["out", "a_avro.go"] = none := by decide
  have written : (ran.2.files.content? ["out", "a_avro.go"]).isSome := by decide +kernel
  have refused : ran.1.isOk = false := by decide +kernel
  refine ⟨absent, written, ?_⟩
  cases outcome : ran.1 with
  | ok =>
    rw [outcome] at refused
    cases refused
  | error failure =>
    obtain ⟨emitted, reached, _, sources⟩ := bindings_of_failed_run _ _ groups (.start files false)
      ran.2 failure rfl (Prod.ext outcome rfl)
    have changed :
        ran.2.files.content? ["out", "a_avro.go"] ≠ files.content? ["out", "a_avro.go"] := by
      intro same
      rw [same, absent] at written
      cases written
    obtain ⟨group, member, _⟩ := sources _ ⟨"a", by decide⟩ changed
    have some := ne_nil_of_mem member
    rcases reached with ⟨none, _⟩ | ⟨next, rest, cause, whole, rfl⟩
    · exact absurd none some
    · exact ⟨emitted, next, rest, cause, some, whole, rfl⟩

end Pipeline

end Avro
