import Avro.Proofs.FileTree.Overwriting
import Avro.Proofs.Json.Members
import Avro.Proofs.Pipeline.Emission

/-!
# The protocols of a run

Each protocol that a run compiles is a file. Across stages nothing keeps two protocols from being
one file, which then holds only one of them.
-/

set_option autoImplicit false

open List

namespace Avro

open Job FileTree

variable {document : Document} {resolver : Resolver} {canceled : Bool} {directory : Text}
  {groups : List Group}

variable {files before middle after : FileTree} {path : Text} {place : List Text}
  {first second documents : List Document}

def RunResult.protocols (result : RunResult) : List Document :=
  result.dependencyProtocols ++ result.groups.flatMap GroupResult.protocols

def FileTree.SameFile (files : FileTree) (path other : Text) : Prop :=
  ∃ place, files.Locates path place ∧ files.Locates other place

def Document.IsStored (document : Document) (files : FileTree) : Prop :=
  ∃ content, document.content = some content ∧ files.read document.path = .ok content

def Emitter.SparesProtocols (emitter : Emitter) : Prop :=
  ∀ request, Job.Meets (fun place => ¬IsProtocolFile place) (fun _ => True) (emitter request)

theorem nameEnding_bindings : Path.NameEnding "_avro.go" :=
  ⟨by decide, .scalar 'a', by decide, by decide⟩

theorem Emitter.go_sparesProtocols : Emitter.SparesProtocols go := by
  intro request session
  rw [run_go]
  split
  · exact ⟨.refl _ _, trivial⟩
  · split
    · exact ⟨.refl _ _, trivial⟩
    · rename_i written
      obtain ⟨place, source, _, leads, evolves, _⟩ := writeGo_ok written
      refine ⟨evolves.mono ?_, trivial⟩
      rintro _ rfl ⟨name, last, ends⟩
      obtain ⟨other, same, endsToo⟩ := leads.ending nameEnding_bindings
        (nameEnding_bindings.join _ (suffix_append request.group _))
      rw [last] at same
      cases same
      exact absurd (suffix_of_suffix_length_le ends endsToo (by decide)) (by decide)

namespace FileTree

def placeOf (files : FileTree) (path : Text) : List Text :=
  match files.target path with
  | .ok (above, some name) => above ++ [name]
  | _ => []

theorem Locates.placeOf_eq (leads : files.Locates path place) : files.placeOf path = place := by
  obtain ⟨above, name, found, rfl⟩ := leads
  rw [placeOf, found]

end FileTree

def Document.write (files : FileTree) (document : Document) : List Text × Text :=
  (files.placeOf document.path, document.content.getD [])

structure Stores (before : FileTree) (documents : List Document) (after : FileTree) : Prop where
  located : ∀ document ∈ documents, ∃ place, after.Locates document.path place
  named : ∀ document ∈ documents, DocumentKind.protocol.extension <:+ document.path
  filled : ∀ document ∈ documents, ∃ content, document.content = some content
  wrote : before.Wrote (documents.map (Document.write after)) after

namespace Stores

theorem nil (evolves : before.Evolves (fun _ => False) after) : Stores before [] after :=
  ⟨nofun, nofun, nofun, .nil evolves⟩

theorem append (earlier : Stores before first middle) (later : Stores middle second after) :
    Stores before (first ++ second) after where
  located := by
    intro document member
    rcases mem_append.mp member with inFirst | inSecond
    · obtain ⟨place, leads⟩ := earlier.located document inFirst
      exact ⟨place, later.wrote.evolves.locates leads⟩
    · exact later.located document inSecond
  named document member :=
    (mem_append.mp member).elim (earlier.named document) (later.named document)
  filled document member :=
    (mem_append.mp member).elim (earlier.filled document) (later.filled document)
  wrote := by
    have same : first.map (Document.write after) = first.map (Document.write middle) := by
      apply map_congr_left
      intro document member
      obtain ⟨place, leads⟩ := earlier.located document member
      rw [Document.write, Document.write, leads.placeOf_eq,
        (later.wrote.evolves.locates leads).placeOf_eq]
    rw [map_append, same]
    exact earlier.wrote.append later.wrote

theorem around {start final : FileTree} (stores : Stores before documents after)
    (earlier : start.Evolves (fun _ => False) before)
    (later : after.Evolves (fun _ => False) final) : Stores start documents final := by
  have whole := ((nil earlier).append stores).append (nil later)
  rwa [nil_append, append_nil] at whole

theorem samePlace_iff (stores : Stores before documents middle)
    (evolves : middle.Evolves (fun place => ¬IsProtocolFile place) after) {one other : Document}
    (isOne : one ∈ documents) (isOther : other ∈ documents) :
    (one.write middle).1 = (other.write middle).1 ↔ after.SameFile one.path other.path := by
  obtain ⟨place, leads⟩ := stores.located one isOne
  obtain ⟨there, leadsToo⟩ := stores.located other isOther
  rw [Document.write, Document.write, leads.placeOf_eq, leadsToo.placeOf_eq]
  constructor
  · rintro rfl
    exact ⟨place, evolves.locates leads, evolves.locates leadsToo⟩
  · rintro ⟨shared, toOne, toOther⟩
    exact ((evolves.locates leads).unique toOne).trans
      (toOther.unique (evolves.locates leadsToo))

theorem isStored_iff (stores : Stores before documents middle)
    (evolves : middle.Evolves (fun place => ¬IsProtocolFile place) after)
    (member : document ∈ documents) :
    document.IsStored after ↔
      after.content? (document.write middle).1 = some (document.write middle).2 := by
  obtain ⟨place, leads⟩ := stores.located document member
  obtain ⟨content, filled⟩ := stores.filled document member
  have reads (text : Text) := @FileTree.read_iff_of_locates after document.path text _ place
    (evolves.locates leads) nameEnding_protocol (stores.named document member)
  rw [Document.IsStored, Document.write, leads.placeOf_eq, filled, Option.getD_some, ← reads]
  constructor
  · rintro ⟨_, ⟨⟩, read⟩
    exact read
  · exact fun read => ⟨content, rfl, read⟩

/-- As long as only other files are written afterwards, the file of a document holds what the last
document with that file has in it. -/
theorem content_eq (stores : Stores before documents middle)
    (evolves : middle.Evolves (fun place => ¬IsProtocolFile place) after) :
    ∀ write ∈ documents.map (Document.write middle),
      after.content? write.1 = lastAt write.1 (documents.map (Document.write middle)) := by
  refine stores.wrote.andThen evolves ?_
  intro write member
  obtain ⟨document, among, rfl⟩ := mem_map.mp member
  obtain ⟨place, leads⟩ := stores.located document among
  rw [Document.write, leads.placeOf_eq, Classical.not_not]
  exact leads.ending nameEnding_protocol (stores.named document among)

theorem isStored_of_last {earlier later : List Document}
    (stores : Stores before (earlier ++ document :: later) middle)
    (evolves : middle.Evolves (fun place => ¬IsProtocolFile place) after)
    (last : ∀ other ∈ later, ¬after.SameFile document.path other.path) :
    document.IsStored after := by
  have member : document ∈ earlier ++ document :: later := by simp
  rw [stores.isStored_iff evolves member,
    stores.content_eq evolves _ (mem_map_of_mem member)]
  have none : lastAt (document.write middle).1 (later.map (Document.write middle)) =
      none := by
    cases found : lastAt (document.write middle).1 (later.map (Document.write middle)) with
    | none => rfl
    | some =>
      obtain ⟨other, among, same⟩ := mem_map.mp (mem_of_lastAt found)
      have isOther : other ∈ earlier ++ document :: later := by simp [among]
      refine absurd ?_ (last other among)
      rw [← stores.samePlace_iff evolves member isOther, same]
  rw [map_append, map_cons, lastAt_append, lastAt, none]
  simp

theorem all_isStored_iff (stores : Stores before documents middle)
    (evolves : middle.Evolves (fun place => ¬IsProtocolFile place) after) :
    (∀ document ∈ documents, document.IsStored after) ↔
      ∀ one ∈ documents, ∀ other ∈ documents, after.SameFile one.path other.path →
        one.content = other.content := by
  have kept := all_kept_iff (stores.content_eq evolves)
  simp only [forall_mem_map] at kept
  constructor
  · intro stored one isOne other isOther same
    have equal := kept.mp (fun document member =>
      (stores.isStored_iff evolves member).mp (stored document member)) one isOne other isOther
      ((stores.samePlace_iff evolves isOne isOther).mpr same)
    obtain ⟨content, filled⟩ := stores.filled one isOne
    obtain ⟨others, full⟩ := stores.filled other isOther
    simpa [Document.write, filled, full] using equal
  · intro equal document member
    rw [stores.isStored_iff evolves member]
    refine kept.mpr ?_ document member
    intro one isOne other isOther same
    have contents := equal one isOne other isOther
      ((stores.samePlace_iff evolves isOne isOther).mp same)
    rw [Document.write, Document.write, contents]

end Stores

theorem Compiler.stores_compile {protocol : Document} (named : directory ≠ [])
    (compiled : compile resolver canceled files document directory = .ok (protocol, after)) :
    Stores files [protocol] after := by
  unfold compile at compiled
  split at compiled
  · cases compiled
  · split at compiled
    · cases compiled
    · split at compiled
      · cases compiled
      · dsimp only at compiled
        rw [if_neg (by simpa using named)] at compiled
        split at compiled
        · cases compiled
        · rename_i content _ _ path _ written
          cases compiled
          obtain ⟨place, leads, evolves, holds⟩ := writeInto_ok written
          have same : path = Path.join
              [directory, document.baseName ++ "." ++ DocumentKind.protocol.extension] := by
            unfold writeInto at written
            split at written
            · cases written
            · dsimp only at written
              split at written <;> cases written
              rfl
          rw [← same] at leads
          refine ⟨?_, ?_, ?_, ?_⟩
          · simpa using ⟨place, leads⟩
          · have ended := nameEnding_protocol.join directory
              (suffix_append (document.baseName ++ Text.ofString ".") _)
            rw [← same] at ended
            simpa using ended
          · simp
          · have one := FileTree.Wrote.one evolves holds
            rwa [← leads.placeOf_eq] at one

namespace Pipeline

theorem stores_compileEach (named : directory ≠ []) (files : FileTree) (documents : List Document) :
    Stores files ((compileEach resolver directory files documents).protocols.map Prod.snd)
      (compileEach resolver directory files documents).files := by
  induction documents generalizing files with
  | nil => exact .nil (.refl _ _)
  | cons _ _ ih =>
    rw [compileEach]
    split
    · exact .nil (.refl _ _)
    · rename_i compiled
      exact (Compiler.stores_compile named compiled).append (ih _)

theorem stores_compileAll (named : directory ≠ []) (files : FileTree) (documents : List Document) :
    Stores files ((compileAll resolver directory files documents).protocols.map Prod.snd)
      (compileAll resolver directory files documents).files := by
  unfold compileAll
  split
  · exact .nil (.refl _ _)
  · exact stores_compileEach named files documents

variable {options : Options} {fields : List LogField} {session last : Session}
  {dependencies : Registry}

theorem keeps_of_meets {α : Type} {job : Job α} {allowed : Except Failure α → Prop}
    (meets : Job.Meets (fun _ => False) allowed job) {result : Except Failure α}
    (ran : job.run.run session = (result, last)) :
    session.files.Evolves (fun _ => False) last.files := by
  have done := (meets session).1
  rwa [ran] at done

theorem stores_compileJob {stage protocols} (named : directory ≠ [])
    (ran : (compileJob resolver stage fields documents directory).run.run
      session = (.ok protocols, last)) : Stores session.files protocols last.files := by
  let compiled := compileAll resolver directory session.files documents
  have stored : Stores session.files (compiled.protocols.map Prod.snd) compiled.files :=
    stores_compileAll named session.files documents
  obtain ⟨_, _, read, ran⟩ := run_bind_ok ran
  cases read
  obtain ⟨_, _, replaced, ran⟩ := run_bind_ok ran
  cases replaced
  obtain ⟨_, logged, told, ran⟩ := run_bind_ok ran
  have kept : compiled.files.Evolves (fun _ => False) logged.files :=
    keeps_of_meets (meets_forM _ fun _ => meets_log _ _ _) told
  split at ran
  · cases ran
  · cases ran
    exact stored.around (.refl _ _) kept

theorem stores_stage {stage : Stage} {context} {work : Job (List Document)} {protocols}
    (stores : ∀ {session last : Session}, work.run.run session = (.ok protocols, last) →
      Stores session.files protocols last.files)
    (ran : (stage.run context work).run.run session = (.ok protocols, last)) :
    Stores session.files protocols last.files := by
  obtain ⟨started, done, same, worked, files⟩ := Stage.run_ok ran
  rw [← same, files]
  exact stores worked

private theorem stores_groupStages {group : Group} {result : GroupResult}
    (named : group.protocolDirectory ≠ [])
    (ran : (groupStages options fields dependencies
      canceled group).run.run session = (.ok result, last)) :
    Stores session.files result.protocols last.files := by
  obtain ⟨protocols, _, compiled, ran⟩ := run_bind_ok ran
  obtain ⟨⟨types, count⟩, _, registered, ran⟩ := run_bind_ok ran
  obtain ⟨_, _, measured, ran⟩ := run_bind_ok ran
  cases ran
  refine (stores_stage (stores_compileJob named) compiled).around (.refl _ _) ?_
  exact (keeps_of_meets (Stage.meets_run (meets_registerJob _ _ _ _) _ _) registered).trans
    (keeps_of_meets (meets_measure _) measured)

private theorem stores_runGroup {group : Group} {result} (named : group.protocolDirectory ≠ [])
    (ran : (runGroup options fields dependencies canceled
      group).run.run session = (.ok result, last)) :
    Stores session.files result.protocols last.files := by
  obtain ⟨outcome, _, reached, ran⟩ := run_bind_ok ran
  rw [run_outcome] at reached
  cases outcome with
  | error => cases ran
  | ok =>
    cases ran
    obtain ⟨done, rfl⟩ := Prod.mk.inj reached
    have stored := stores_groupStages named (run_of_ok (Except.ok.inj done))
    exact stored

private theorem runGroups_failed {failure results} :
    (runGroups options fields dependencies (some failure) groups).run.run session ≠
      (.ok results, last) := by
  induction groups generalizing session last failure results with
  | nil => nofun
  | cons _ _ ih =>
    intro ran
    obtain ⟨outcome, _, _, ran⟩ := run_bind_ok ran
    cases outcome with
    | error => exact ih ran
    | ok =>
      obtain ⟨_, _, others, _⟩ := run_bind_ok ran
      exact ih others

private theorem stores_runGroups {results} (named : ∀ group ∈ groups, group.protocolDirectory ≠ [])
    (ran : (runGroups options fields
      dependencies none groups).run.run session = (.ok results, last)) :
    Stores session.files (results.flatMap GroupResult.protocols) last.files := by
  induction groups generalizing session results with
  | nil =>
    cases ran
    exact .nil (.refl _ _)
  | cons _ _ ih =>
    obtain ⟨isNamed, restNamed⟩ := forall_mem_cons.mp named
    obtain ⟨outcome, middle, reached, ran⟩ := run_bind_ok ran
    cases outcome with
    | error => exact absurd ran runGroups_failed
    | ok =>
      obtain ⟨others, _, later, ran⟩ := run_bind_ok ran
      cases ran
      rw [run_outcome] at reached
      obtain ⟨done, rfl⟩ := Prod.mk.inj reached
      rw [flatMap_cons]
      exact (stores_runGroup isNamed (run_of_ok (Except.ok.inj done))).append
        (ih restNamed later)

private theorem meets_emitGroup {emitter : Emitter} (spares : Emitter.SparesProtocols emitter)
    (fields : List LogField) (group : Group) (types : Registry) :
    Job.Meets (fun place => ¬IsProtocolFile place) (fun _ => True)
      (emitGroup emitter fields group types) := by
  let context : StageContext := ⟨group.name, fields ++ [.group group.name], runSpan, false⟩
  let asked : Job Unit := do
    modify fun session => { session with requests := session.requests ++ [group.request types] }
    emitter (group.request types)
  have staged : emitGroup emitter fields group types = Stage.emit.run context asked := rfl
  have meets : Job.Meets (fun place => ¬IsProtocolFile place) (fun _ => True) asked := by
    refine Job.Meets.bind (meets_modify ?_) (fun _ _ => spares _) fun _ _ => trivial
    intro session
    rfl
  rw [staged]
  exact (Stage.meets_run meets .emit context).weaken fun _ _ => trivial

/-- A successful run has stored its protocols, and then written other files. -/
private theorem stores_stages {dependencies : DependencySet} {result : RunResult}
    (spares : ∀ emitter, options.emitter = some emitter → Emitter.SparesProtocols emitter)
    (named : dependencies.protocolDirectory ≠ [])
    (groupsNamed : ∀ group ∈ groups, group.protocolDirectory ≠ [])
    (ran : (stages options fields dependencies groups).run.run session = (.ok result, last)) :
    ∃ middle, Stores session.files result.protocols middle ∧
      middle.Evolves (fun place => ¬IsProtocolFile place) last.files := by
  unfold stages at ran
  cases faulty : Group.fault? [] groups with
  | some =>
    rw [faulty] at ran
    cases ran
  | none =>
    rw [faulty] at ran
    obtain ⟨protocols, _, compiled, ran⟩ := run_bind_ok ran
    obtain ⟨⟨registry, count⟩, _, registered, ran⟩ := run_bind_ok ran
    obtain ⟨_, _, measured, ran⟩ := run_bind_ok ran
    obtain ⟨results, middle, grouped, ran⟩ := run_bind_ok ran
    have stored : Stores session.files (protocols ++ results.flatMap GroupResult.protocols)
        middle.files := by
      have kept := (keeps_of_meets (Stage.meets_run (meets_registerJob _ _ _ _) _ _)
        registered).trans (keeps_of_meets (meets_measure _) measured)
      exact ((stores_stage (stores_compileJob named) compiled).around (.refl _ _) kept).append
        (stores_runGroups groupsNamed grouped)
    cases chosen : options.emitter with
    | none =>
      rw [chosen] at ran
      cases ran
      exact ⟨_, stored, .refl _ _⟩
    | some emitter =>
      rw [chosen] at ran
      obtain ⟨_, emitted, emission, ran⟩ := run_bind_ok ran
      cases ran
      have evolves := (Job.Meets.forM (groups.zip results) (fun pair =>
        meets_emitGroup (spares emitter chosen) fields pair.1 pair.2.types) middle).1
      rw [emission] at evolves
      exact ⟨_, stored, evolves⟩

/-- After a successful run all protocols are in their files exactly if no two that differ have the
same one. -/
theorem protocols_of_run (options : Options) (dependencies : DependencySet) (groups : List Group)
    (session after : Session) (result : RunResult)
    (spares : ∀ emitter, options.emitter = some emitter → Emitter.SparesProtocols emitter)
    (named : dependencies.protocolDirectory ≠ [])
    (groupsNamed : ∀ group ∈ groups, group.protocolDirectory ≠ [])
    (ran : (run options dependencies groups).run.run session = (.ok result, after)) :
    (∀ document ∈ result.protocols, document.IsStored after.files) ↔
      ∀ one ∈ result.protocols, ∀ other ∈ result.protocols,
        after.files.SameFile one.path other.path → one.content = other.content := by
  obtain ⟨outcome, files⟩ := run_run options dependencies groups session
  rw [ran] at outcome files
  obtain ⟨middle, stores, evolves⟩ :=
    stores_stages spares named groupsNamed (run_of_ok outcome.symm)
  rw [← files] at evolves
  exact stores.all_isStored_iff evolves

/-- The dependencies and a group have a source of the same name and write to the same directory. One
of the two protocols is not there after the run. -/
theorem protocols_of_run_shared_directory :
    let dependencies : DependencySet := ⟨[⟨.idl, "x/p.avdl", some "protocol P \x7b \x7d"⟩], "out"⟩
    let groups : List Group :=
      [⟨"g", [⟨.idl, "y/p.avdl", some "protocol Q \x7b \x7d"⟩], "out", "go", "p"⟩]
    let ran := (run ⟨.memory [], none, "r"⟩ dependencies groups).run.run
      (.start ⟨.directory [], []⟩ false)
    ∃ result first second, ran.1 = .ok result ∧ result.protocols = [first, second] ∧
      ¬(first.IsStored ran.2.files ∧ second.IsStored ran.2.files) := by
  intro dependencies groups ran
  let first : Document := ⟨.protocol, "out/p.avpr",
    some "\x7b\n  \"protocol\" : \"P\",\n  \"types\" : [ ],\n  \"messages\" : \x7b \x7d\n\x7d"⟩
  let second : Document := ⟨.protocol, "out/p.avpr",
    some "\x7b\n  \"protocol\" : \"Q\",\n  \"types\" : [ ],\n  \"messages\" : \x7b \x7d\n\x7d"⟩
  have protocols : ran.1.toOption.map RunResult.protocols = some [first, second] := by
    decide +kernel
  have leads : ran.2.files.Locates "out/p.avpr" ["out", "p.avpr"] := by
    have found : (ran.2.files.target "out/p.avpr").toOption =
        some ([Text.ofString "out"], some (Text.ofString "p.avpr")) := by decide +kernel
    cases target : ran.2.files.target "out/p.avpr" with
    | error =>
      rw [target] at found
      cases found
    | ok =>
      rw [target] at found
      cases found
      exact ⟨["out"], "p.avpr", target, rfl⟩
  cases outcome : ran.1 with
  | error =>
    rw [outcome] at protocols
    cases protocols
  | ok result =>
    rw [outcome] at protocols
    have both : result.protocols = [first, second] := Option.some.inj protocols
    have all := protocols_of_run _ dependencies groups _ ran.2 result
      (fun _ chosen => by cases chosen) (by decide) (by decide) (Prod.ext outcome rfl)
    rw [both] at all
    refine ⟨result, first, second, rfl, both, ?_⟩
    rintro ⟨earlier, later⟩
    have same := all.mp (forall_mem_cons.mpr ⟨earlier, forall_mem_singleton.mpr later⟩)
      first mem_cons_self second (mem_cons_of_mem _ mem_cons_self)
      ⟨_, leads, leads⟩
    exact absurd (Text.ofString_inj.mp (Option.some.inj same)) (by decide)

end Pipeline

end Avro
