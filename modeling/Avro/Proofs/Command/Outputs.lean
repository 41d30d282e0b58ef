import Avro.Command.Run
import Avro.Proofs.Pipeline.Protocols

/-!
# The outputs of compiled sources

Sources that one command compiles are written to one directory, each under its own base name.
Nothing keeps two of them from being one file.
-/

set_option autoImplicit false

namespace Avro.Command

variable {resolver : Resolver} {directory : Text} {files after : FileTree} {paths : List Text}
  {protocols : List Document}

/-- Sources are compiled one after another, each in the files that the ones before it left. -/
inductive Compiles (resolver : Resolver) (directory : Text) :
    FileTree → List Text → List Document → FileTree → Prop
  | done {files : FileTree} : Compiles resolver directory files [] [] files
  | next {files middle after path rest document protocol protocols}
      (read : Document.read files path = .ok document) (isIdl : document.kind = .idl)
      (compiled : Compiler.compile resolver false files document directory = .ok (protocol, middle))
      (later : Compiles resolver directory middle rest protocols after) :
      Compiles resolver directory files (path :: rest) (protocol :: protocols) after

def listing (protocols : List Document) : Text :=
  protocols.flatMap fun protocol => protocol.path ++ Text.ofString "\n"

private theorem compiles_of_succeeded {output : Text} {outcome : Outcome}
    (ran : compileFiles resolver directory files output paths = outcome)
    (succeeded : outcome.failure = none) :
    ∃ protocols, Compiles resolver directory files paths protocols outcome.files ∧
      outcome.output = output ++ listing protocols := by
  induction paths generalizing files output with
  | nil =>
    subst ran
    exact ⟨[], .done, (List.append_nil output).symm⟩
  | cons _ _ ih =>
    rw [compileFiles] at ran
    dsimp only at ran
    split at ran
    · subst ran
      cases succeeded
    rename_i document read
    split at ran
    · subst ran
      cases succeeded
    rename_i isIdl
    split at ran
    · subst ran
      cases succeeded
    rename_i protocol middle compiled
    obtain ⟨protocols, later, printed⟩ := ih ran
    refine ⟨protocol :: protocols, .next read (Decidable.not_not.mp isIdl) compiled later, ?_⟩
    simp [printed, listing]

theorem Compiles.stores (compiles : Compiles resolver directory files paths protocols after)
    (named : directory ≠ []) : Stores files protocols after := by
  induction compiles with
  | done => exact .nil (.refl _ _)
  | next _ _ compiled _ ih => exact (Compiler.stores_compile named compiled).append ih

/-! ## The directory -/

theorem absolutePath_ne_nil (files : FileTree) (path : Text) : absolutePath files path ≠ [] := by
  unfold absolutePath
  split
  · rintro rfl
    rename_i given
    cases given
  · have absolute : Path.isAbsolute (Text.join "/" ["/" ++ Text.join "/" files.working, path]) = true :=
      rfl
    change Path.clean (Text.join "/" ["/" ++ Text.join "/" files.working, path]) ≠ []
    rw [Path.clean, if_pos absolute]
    exact List.cons_ne_nil _ _

def Draft.HasPlace (draft : Draft) : Prop := draft.output ≠ some []

private theorem useFlag_hasPlace {flag draft next rest left}
    (used : useFlag files draft flag rest = .ok (next, left)) (place : draft.HasPlace) :
    next.HasPlace := by
  cases flag <;> obtain ⟨⟨value, _⟩, _, same⟩ := bind_ok.mp used <;> cases same
  case output => exact fun empty => absolutePath_ne_nil _ _ (Option.some.inj empty)
  all_goals exact place

private theorem readArgument_hasPlace {argument draft next rest left}
    (read : readArgument files draft argument rest = .ok (next, left)) (place : draft.HasPlace) :
    next.HasPlace := by
  have flag {form : Text} {given : List Argument}
      (read : readFlag files draft form given = .ok (next, left)) : next.HasPlace := by
    unfold readFlag at read
    dsimp only at read
    split at read
    · exact useFlag_hasPlace read place
    · cases read
  have here {word : Text} (read : readPlace files draft word rest = .ok (next, left)) :
      next.HasPlace := by
    unfold readPlace at read
    split at read
    · split at read <;> cases read
      exact place
    · split at read
      · dsimp only at read
        split at read <;> cases read
        exact place
      · cases read
  unfold readArgument at read
  split at read
  · exact here read
  · exact flag read
  · cases read
  · split at read
    · cases read
      exact place
    split at read
    · unfold readLong at read
      split at read <;> exact flag read
    split at read
    · exact flag read
    · exact here read

private theorem readArguments_hasPlace {rounds draft next arguments}
    (read : readArguments files rounds draft arguments = .ok next) (place : draft.HasPlace) :
    next.HasPlace := by
  fun_induction readArguments files rounds draft arguments with
  | case1 | case2 => exact Except.ok.inj read ▸ place
  | case3 rounds draft argument rest next left found ih =>
    exact ih read (readArgument_hasPlace found place)
  | case4 => cases read

private theorem output_ne_nil {arguments sources roots config verbose output}
    (parsed : parse files arguments = .ok ⟨config, verbose, .idl sources output roots⟩) :
    output ≠ [] := by
  unfold parse at parsed
  dsimp only at parsed
  split at parsed
  · cases parsed
  rename_i draft read
  have place := readArguments_hasPlace read nofun
  split at parsed
  · rename_i task asked
    cases parsed
    unfold Draft.task at asked
    split at asked
    · cases asked
    split at asked <;> try cases asked
    split at asked <;> cases asked
    rintro rfl
    exact place ‹draft.output = some []›
  · cases parsed

/-- After a command that compiles sources, a printed path holds what the last source with that file was
compiled to. So each source is in the file printed for it exactly if no two that differ have the same
one. -/
theorem outputs_kept_iff {context : Context} {arguments sources roots : List Text}
    {config : Option Text} {verbose : Bool} {output : Text}
    (parsed : parse context.files arguments = .ok ⟨config, verbose, .idl sources output roots⟩)
    (succeeded : (run context arguments).failure = none) :
    let after := (run context arguments).files
    ∃ protocols, Compiles (.files roots) output context.files sources protocols after ∧
      (run context arguments).output = listing protocols ∧
      (∀ earlier protocol later, protocols = earlier ++ protocol :: later →
        (∀ other ∈ later, ¬after.SameFile protocol.path other.path) → protocol.IsStored after) ∧
      ((∀ protocol ∈ protocols, protocol.IsStored after) ↔
        ∀ one ∈ protocols, ∀ other ∈ protocols, after.SameFile one.path other.path →
          one.content = other.content) := by
  intro after
  have ran : run context arguments = compileFiles (.files roots) output context.files [] sources := by
    rw [run, parsed]
    rfl
  obtain ⟨protocols, compiles, printed⟩ := compiles_of_succeeded ran.symm succeeded
  have stores := compiles.stores (output_ne_nil parsed)
  refine ⟨protocols, compiles, printed, ?_, stores.all_isStored_iff (.refl _ _)⟩
  rintro earlier protocol later rfl last
  exact stores.isStored_of_last (.refl _ _) last

/-- Two sources of the same name are compiled to one file, and the first protocol is lost. -/
theorem outputs_kept_iff_shared_name :
    let context : Context := ⟨[], ⟨.directory [
      ("x", .directory [("p.avdl", .file "protocol P \x7b \x7d")]),
      ("y", .directory [("p.avdl", .file "protocol Q \x7b \x7d")])], []⟩, "r"⟩
    let arguments : List Text := ["idl", "-o", "out", "x/p.avdl", "y/p.avdl"]
    let sources : List Text := ["/x/p.avdl", "/y/p.avdl"]
    let after := (run context arguments).files
    parse context.files arguments = .ok ⟨none, false, .idl sources "/out" []⟩ ∧
      (run context arguments).failure = none ∧
      ∃ protocols, Compiles (.files []) "/out" context.files sources protocols after ∧
        ¬∀ protocol ∈ protocols, protocol.IsStored after := by
  intro context arguments sources after
  have parsed : parse context.files arguments = .ok ⟨none, false, .idl sources "/out" []⟩ :=
    ok_of_toOption (by decide +kernel)
  have succeeded : (run context arguments).failure = none :=
    Option.isNone_iff_eq_none.mp (by decide +kernel)
  obtain ⟨protocols, compiles, _⟩ := outputs_kept_iff parsed succeeded
  refine ⟨parsed, succeeded, protocols, compiles, fun stored => ?_⟩
  let lost : Document := ⟨.protocol, "/out/p.avpr",
    some "\x7b\n  \"protocol\" : \"P\",\n  \"types\" : [ ],\n  \"messages\" : \x7b \x7d\n\x7d"⟩
  have first : (Document.read context.files "/x/p.avdl").toOption.bind (fun document =>
      (Compiler.compile (.files []) false context.files document "/out").toOption.map Prod.fst) =
        some lost := by decide +kernel
  have held : (after.read "/out/p.avpr").toOption ≠ lost.content := by decide +kernel
  change Compiles _ _ _ [Text.ofString "/x/p.avdl", Text.ofString "/y/p.avdl"] _ _ at compiles
  cases compiles with
  | next read _ compiled =>
    rw [read] at first
    change ((Compiler.compile _ _ _ _ _).toOption.map Prod.fst) = _ at first
    rw [compiled] at first
    obtain rfl := Option.some.inj first
    obtain ⟨content, filled, found⟩ := stored _ List.mem_cons_self
    rw [filled] at held
    exact held (congrArg Except.toOption found)

end Avro.Command
