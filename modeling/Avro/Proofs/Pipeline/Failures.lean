import Avro.Proofs.Pipeline.Early
import Avro.Proofs.Pipeline.Register
import Avro.Proofs.Protocol.Unresolved

/-!
# Why a run fails before anything is emitted

A stage that compiles or registers fails because it was canceled, because of a file or a conflict,
or because of one of its documents.
-/

set_option autoImplicit false

open List

namespace Avro

open Job
open Schema (Part)

variable {files : FileTree} {document : Document} {documents : List Document} {failure : Failure}
  {resolver : Resolver} {directory : Text}

/-- What a stage may fail for before anything is emitted. -/
def Failure.Concerns (documents : List Document) : Failure → Prop
  | .canceled | .io _ | .conflict _ => True
  | .compile path _ => path ∈ documents.map Document.path
  | _ => False

theorem Failure.Concerns.mono {fewer more : List Document} (concerns : failure.Concerns fewer)
    (subset : fewer ⊆ more) : failure.Concerns more := by
  cases failure with
  | compile => exact map_subset _ subset concerns
  | _ => exact concerns

namespace Compiler

private theorem protocolText_error {canceled : Bool} {path source : Text}
    (failed : protocolText resolver files canceled path source = .error failure) :
    ∃ cause, failure = .compile path cause := by
  unfold protocolText at failed
  grind

private theorem writeInto_error {name content : Text}
    (failed : writeInto files directory name content = .error failure) :
    ∃ fault, failure = .io fault := by
  unfold writeInto at failed
  grind

private theorem compile_error {canceled : Bool}
    (failed : compile resolver canceled files document directory = .error failure) :
    failure.Concerns [document] := by
  unfold compile at failed
  split at failed
  · cases failed
    trivial
  · split at failed
    · rename_i refused
      cases failed
      obtain ⟨cause, rfl⟩ := protocolText_error refused
      exact mem_cons_self
    · split at failed
      · cases failed
        trivial
      · dsimp only at failed
        split at failed
        · cases failed
        · split at failed
          · rename_i refused
            cases failed
            obtain ⟨fault, rfl⟩ := writeInto_error refused
            trivial
          · cases failed

end Compiler

namespace Pipeline

theorem producedTwice_concerns {seen} (failed : producedTwice? seen documents = some failure) :
    failure.Concerns documents := by
  induction documents generalizing seen with
  | nil => cases failed
  | cons document rest ih =>
    unfold producedTwice? at failed
    dsimp only at failed
    split at failed
    · cases failed
      exact mem_cons_self
    · exact (ih failed).mono (subset_cons_self _ _)

theorem compileEach_concerns (failed : (compileEach resolver directory files documents).failure =
    some failure) : failure.Concerns documents := by
  induction documents generalizing files with
  | nil => cases failed
  | cons document rest ih =>
    unfold compileEach at failed
    split at failed
    · rename_i refused
      cases failed
      exact (Compiler.compile_error refused).mono (by simp)
    · exact (ih failed).mono (subset_cons_self _ _)

theorem attempt_concerns {registry : Registry}
    (attempted : attempt files registry document = .failed failure ∨
      attempt files registry document = .waiting failure) : failure.Concerns [document] := by
  unfold attempt at attempted
  grind [Failure.Concerns]

theorem pass_concerns (files : FileTree) (registry : Registry) (documents : List Document) :
    (∀ failure, (pass files registry documents).failure = some failure →
        failure.Concerns documents) ∧
      ∀ entry ∈ (pass files registry documents).waiting, entry.2.Concerns documents := by
  induction documents generalizing registry with
  | nil => simp [pass]
  | cons document rest ih =>
    have later {failure : Failure} (concerns : failure.Concerns rest) :
        failure.Concerns (document :: rest) := concerns.mono (subset_cons_self _ _)
    have here {failure : Failure} (concerns : failure.Concerns [document]) :
        failure.Concerns (document :: rest) := concerns.mono (by simp)
    rw [pass]
    cases attempted : attempt files registry document with
    | failed failure =>
      refine ⟨?_, by simp⟩
      rintro _ ⟨⟩
      exact here (attempt_concerns (.inl attempted))
    | waiting failure =>
      refine ⟨fun failure failed => later ((ih registry).1 failure failed), ?_⟩
      exact forall_mem_cons.mpr ⟨here (attempt_concerns (.inr attempted)),
        fun entry member => later ((ih registry).2 entry member)⟩
    | merged after =>
      exact ⟨fun failure failed => later ((ih after).1 failure failed),
        fun entry member => later ((ih after).2 entry member)⟩

private theorem register_concerns {registry : Registry}
    (failed : (register files registry documents).result = .error failure) :
    failure.Concerns documents := by
  fun_induction register files registry documents with
  | case1 registry documents after reason stopped =>
    cases failed
    exact (pass_concerns files registry documents).1 _ stopped
  | case2 => cases failed
  | case3 registry documents after first reason others waiting intact fewer rest ih =>
    refine (ih failed).mono ?_
    have sublist := pass_waiting_sublist files registry documents
    simp only [after] at waiting
    rw [waiting] at sublist
    exact sublist.subset
  | case4 registry documents after first reason others waiting =>
    cases failed
    refine (pass_concerns files registry documents).2 (first, failure) ?_
    simp only [after] at waiting
    rw [waiting]
    exact mem_cons_self

theorem Work.Fails.concerns {work : Work} (fails : work.Fails resolver files failure) :
    failure.Concerns work.documents := by
  cases work with
  | register => exact register_concerns fails
  | compile directory documents =>
    have failed : (compileAll resolver directory files documents).failure = some failure := by
      unfold Work.Fails Compiled.outcome at fails
      grind
    unfold compileAll at failed
    split at failed
    · rename_i twice
      cases failed
      exact producedTwice_concerns twice
    · exact compileEach_concerns failed

/-! ## Giving up -/

variable {registry final : Registry} {name : Text} {cause : CompileCause}

/-- A document refers to a type that it does not define and the registry does not have. -/
inductive Misses (files : FileTree) (registry : Registry) (document : Document) (name : Text) : Prop
  | schema {content value} (kind : document.kind = .schema)
      (loaded : document.load files = .ok content) (decoded : Json.decode content = .ok value)
      (misses : (Part.schema [] value).Misses registry.scope name)
  | protocol {content members} (kind : document.kind = .protocol)
      (loaded : document.load files = .ok content) (decoded : Json.decode content = .ok (.obj members))
      (misses : Protocol.Misses registry.scope members name)

theorem Misses.lacks (misses : Misses files registry document name) :
    ∃ error, Lacks files registry document (.schema error) ∧ error.undefined? = some name := by
  obtain ⟨content, loaded, error, failed, rooted⟩ : ∃ content, document.load files = .ok content ∧
      ∃ error, readBatch registry document content = .error (.schema error) ∧
        error.root = .undefinedName name := by
    cases misses with
    | @schema content value kind loaded decoded misses =>
      obtain ⟨error, failed, rooted⟩ := SchemaError.ends_map.mp misses.ends
      refine ⟨content, loaded, error, ?_, rooted⟩
      simp [readBatch, kind, Registry.readSchema, Schema.readDocument, decoded, failed]
    | @protocol content members kind loaded decoded misses =>
      obtain ⟨error, failed, rooted⟩ := misses.ends
      refine ⟨content, loaded, error, ?_, rooted⟩
      simp [readBatch, kind, Registry.readProtocol, Protocol.readDocument, decoded, failed]
  have named : error.undefined? = some name := by rw [SchemaError.undefined?, rooted]
  refine ⟨error, ⟨?_, content, loaded, failed⟩, named⟩
  rw [CompileCause.isUndefined, SchemaError.isUndefined, named]
  rfl

variable {options : Options} {dependencies : DependencySet} {groups : List Group}
  {session after : Session}

end Pipeline

end Avro
