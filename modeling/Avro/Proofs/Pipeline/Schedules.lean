import Avro.Proofs.FileTree.Directories
import Avro.Proofs.Idl.Imports
import Avro.Proofs.Pipeline.Early

/-!
# Compiling in any order

Where nothing that compiling a document looks at changes when other protocols of the stage are
written, the documents can be compiled in any order.
-/

set_option autoImplicit false

open List

namespace Avro

variable {files after : FileTree} {roots : List Text} {directory : Text} {document : Document}

namespace Resolver

def tried (files : FileTree) : List Text → List Text
  | [] => []
  | path :: rest =>
    path ::
      match files.read path with
      | .ok _ => []
      | .error fault => if fault.reason = .missing then tried files rest else []

private theorem firstFile_agree {request paths}
    (same : ∀ path ∈ tried files paths, after.read path = files.read path) :
    firstFile files request paths = firstFile after request paths := by
  induction paths with
  | nil => rfl
  | cons path _ ih =>
    rw [tried] at same
    obtain ⟨first, later⟩ := forall_mem_cons.mp same
    rw [firstFile, firstFile, first]
    cases read : files.read path with
    | ok => rfl
    | error =>
      rw [read] at later
      dsimp only at later ⊢
      split
      · rename_i missing
        rw [if_pos missing] at later
        exact ih later
      · rfl

theorem firstFile_ok {request paths} (found : firstFile files request paths = .ok document) :
    ∃ content, files.read document.path = .ok content ∧ document.content = some content := by
  induction paths with
  | nil => cases found
  | cons _ _ ih =>
    rw [firstFile] at found
    split at found
    · rename_i content read
      cases found
      exact ⟨content, read, rfl⟩
    · split at found
      · exact ih found
      · cases found

private theorem fetch_agree {kind reference origin}
    (same : ∀ path ∈ tried files (candidates ⟨importedKind kind, reference, origin⟩ roots),
      after.read path = files.read path) :
    ((Resolver.files roots).importer files false).fetch kind reference origin =
      ((Resolver.files roots).importer after false).fetch kind reference origin := by
  unfold importer Resolver.files
  dsimp only
  rw [if_neg Bool.false_ne_true, if_neg Bool.false_ne_true, ← firstFile_agree same]
  split
  · rfl
  · rename_i document found
    obtain ⟨content, _, loaded⟩ := firstFile_ok found
    unfold Document.load
    rw [loaded]

/-- Only files of the tree are found, and there are no more clean paths of these than the limit. -/
theorem importer_finds (roots : List Text) (files : FileTree) :
    ((Resolver.files roots).importer files false).Finds files.cleanPaths := by
  intro kind reference origin imported fetched
  unfold importer Resolver.files at fetched
  dsimp only at fetched
  rw [if_neg Bool.false_ne_true] at fetched
  split at fetched
  · cases fetched
  · rename_i found
    obtain ⟨content, read, _⟩ := firstFile_ok found
    split at fetched
    · cases fetched
      exact FileTree.clean_mem_cleanPaths read
    · cases fetched

theorem cleanPaths_length_le (roots : List Text) (files : FileTree) :
    files.cleanPaths.length ≤ ((Resolver.files roots).importer files false).limit :=
  Nat.le_of_eq files.cleanPaths_length

end Resolver

namespace Document

def looks (roots : List Text) (files : FileTree) (document : Document) : List Text :=
  (if document.content.isNone then [document.path] else []) ++
    match document.load files with
    | .error _ => []
    | .ok source =>
      let importer := (Resolver.files roots).importer files false
      (Idl.compileLog importer document.path source).flatMap fun
        | .asked kind reference origin =>
          Resolver.tried files
            (Resolver.candidates ⟨Resolver.importedKind kind, reference, origin⟩ roots)
        | .parsed _ => []

def protocolName (document : Document) : Text :=
  document.baseName ++ "." ++ DocumentKind.protocol.extension

def SeesSame (roots : List Text) (files after : FileTree) (document : Document) : Prop :=
  ∀ path ∈ document.looks roots files, after.read path = files.read path

theorem SeesSame.load (same : document.SeesSame roots files after) :
    document.load after = document.load files := by
  unfold SeesSame looks at same
  unfold Document.load
  split
  · rfl
  · rename_i none
    rw [none, Option.isNone_none, if_pos rfl] at same
    rw [same document.path (mem_append_left _ (mem_singleton_self _))]

theorem SeesSame.protocolText {source : Text} (same : document.SeesSame roots files after)
    (loaded : document.load files = .ok source) :
    Compiler.protocolText (.files roots) after false document.path source =
      Compiler.protocolText (.files roots) files false document.path source := by
  have alike : Idl.AnsweredAlike ((Resolver.files roots).importer files false)
      ((Resolver.files roots).importer after false)
      (Idl.compileLog ((Resolver.files roots).importer files false) document.path source) := by
    intro kind reference origin asked
    refine Resolver.fetch_agree fun path tried => same path (mem_append_right _ ?_)
    rw [loaded]
    exact mem_flatMap.mpr ⟨_, asked, tried⟩
  unfold Compiler.protocolText
  rw [Idl.compile_agree (Resolver.importer_finds roots files) (Resolver.cleanPaths_length_le _ _)
    (Resolver.importer_finds roots after) (Resolver.cleanPaths_length_le _ _) alike]

end Document

namespace Compiler

variable {protocol : Document}

private theorem compile_eq (resolver : Resolver) (files : FileTree) (document : Document)
    (directory : Text) : compile resolver false files document directory =
      match document.load files with
      | .error failure => .error (.io failure)
      | .ok source =>
        match protocolText resolver files false document.path source with
        | .error failure => .error failure
        | .ok content =>
          if directory.isEmpty then .ok (⟨.protocol, document.protocolName, some content⟩, files)
          else
            match writeInto files directory document.protocolName content with
            | .error failure => .error failure
            | .ok (path, files) => .ok (⟨.protocol, path, some content⟩, files) := rfl

theorem compile_ok_iff {resolver : Resolver} :
    compile resolver false files document directory = .ok (protocol, after) ↔
      ∃ source content, document.load files = .ok source ∧
        protocolText resolver files false document.path source = .ok content ∧
        (directory = [] ∧ protocol = ⟨.protocol, document.protocolName, some content⟩ ∧
            after = files ∨
          directory ≠ [] ∧ ∃ path,
            writeInto files directory document.protocolName content = .ok (path, after) ∧
            protocol = ⟨.protocol, path, some content⟩) := by
  rw [compile_eq]
  constructor
  · intro compiled
    split at compiled
    · cases compiled
    · rename_i source loaded
      split at compiled
      · cases compiled
      · rename_i content made
        refine ⟨source, content, loaded, made, ?_⟩
        split at compiled
        · rename_i empty
          cases compiled
          exact .inl ⟨List.isEmpty_iff.mp empty, rfl, rfl⟩
        · rename_i named
          split at compiled
          · cases compiled
          · rename_i path files written
            cases compiled
            exact .inr ⟨fun empty => named (List.isEmpty_iff.mpr empty), path, written, rfl⟩
  · rintro ⟨source, content, loaded, made, rest⟩
    rw [loaded]
    dsimp only
    rw [made]
    dsimp only
    rcases rest with ⟨rfl, rfl, rfl⟩ | ⟨named, path, written, rfl⟩
    · rfl
    · rw [if_neg (by simpa using named), written]

theorem writeInto_ok_iff {name content path : Text} :
    writeInto files directory name content = .ok (path, after) ↔
      path = Path.join [directory, name] ∧
        ∃ middle, files.makeDirectories directory = .ok middle ∧
          middle.write (Path.join [directory, name]) content = .ok after := by
  unfold writeInto
  constructor
  · intro written
    split at written
    · cases written
    · rename_i middle made
      dsimp only at written
      split at written
      · cases written
      · rename_i done
        cases written
        exact ⟨rfl, middle, made, done⟩
  · rintro ⟨rfl, middle, made, done⟩
    rw [made]
    dsimp only
    rw [done]

private theorem writeInto_iff_of_writeInto {other text written name content path : Text}
    (earlier : writeInto files directory other text = .ok (written, after)) :
    (∃ last, writeInto after directory name content = .ok (path, last)) ↔
      ∃ last, writeInto files directory name content = .ok (path, last) := by
  obtain ⟨_, middle, made, done⟩ := writeInto_ok_iff.mp earlier
  obtain ⟨_, _, evolves, _⟩ := FileTree.evolves_of_write done
  have again := FileTree.makeDirectories_again made evolves
  simp only [writeInto_ok_iff, made, again, Except.ok.injEq, exists_eq_left', exists_and_left]
  exact and_congr_right fun _ => FileTree.write_ok_iff_of_write done

/-- The trees that arise when protocols with some of the names are written into a directory. -/
inductive Outputs (directory : Text) (names : List Text) (files : FileTree) : FileTree → Prop where
  | none : Outputs directory names files files
  | more {before after : FileTree} {name content path : Text}
      (outputs : Outputs directory names files before) (among : name ∈ names)
      (written : writeInto before directory name content = .ok (path, after)) :
      Outputs directory names files after

namespace Outputs

variable {names more : List Text}

theorem mono (outputs : Outputs directory names files after) (within : names ⊆ more) :
    Outputs directory more files after := by
  induction outputs with
  | none => exact .none
  | more _ among written ih => exact .more ih (within among) written

theorem writeInto_iff {name content path : Text} (outputs : Outputs directory names files after) :
    (∃ last, writeInto after directory name content = .ok (path, last)) ↔
      ∃ last, writeInto files directory name content = .ok (path, last) := by
  induction outputs with
  | none => exact Iff.rfl
  | more _ _ written ih => exact (writeInto_iff_of_writeInto written).trans ih

theorem compile {resolver before} (outputs : Outputs directory names files before)
    (compiled : Compiler.compile resolver false before document directory = .ok (protocol, after)) :
    Outputs directory (document.protocolName :: names) files after := by
  have grown := outputs.mono (subset_cons_self document.protocolName names)
  obtain ⟨_, _, _, _, ⟨_, _, rfl⟩ | ⟨_, _, written, _⟩⟩ := compile_ok_iff.mp compiled
  · exact grown
  · exact grown.more mem_cons_self written

theorem evolves (outputs : Outputs directory names files after)
    (protocols : ∀ name ∈ names, DocumentKind.protocol.extension <:+ name) :
    files.Evolves IsProtocolFile after := by
  induction outputs with
  | none => exact .refl _ _
  | more _ among written ih =>
    obtain ⟨place, leads, evolves, _⟩ := writeInto_ok written
    refine ih.trans (evolves.mono ?_)
    rintro _ rfl
    exact leads.ending nameEnding_protocol (nameEnding_protocol.join _ (protocols _ among))

end Outputs

def CompilesTo (roots : List Text) (directory : Text) (files : FileTree)
    (document protocol : Document) : Prop :=
  ∃ last, compile (.files roots) false files document directory = .ok (protocol, last)

theorem CompilesTo.unique {other : Document}
    (one : CompilesTo roots directory files document protocol)
    (another : CompilesTo roots directory files document other) : protocol = other := by
  obtain ⟨_, compiled⟩ := one
  obtain ⟨_, again⟩ := another
  rw [compiled] at again
  cases again
  rfl

private theorem compilesTo_iff {names : List Text} (outputs : Outputs directory names files after)
    (same : document.SeesSame roots files after) :
    CompilesTo roots directory after document protocol ↔
      CompilesTo roots directory files document protocol := by
  unfold CompilesTo
  simp only [compile_ok_iff]
  rw [same.load]
  constructor
  · rintro ⟨last, source, content, loaded, made, rest⟩
    rw [same.protocolText loaded] at made
    rcases rest with ⟨empty, isProtocol, _⟩ | ⟨named, path, written, isProtocol⟩
    · exact ⟨files, source, content, loaded, made, .inl ⟨empty, isProtocol, rfl⟩⟩
    · obtain ⟨last, written⟩ := outputs.writeInto_iff.mp ⟨last, written⟩
      exact ⟨last, source, content, loaded, made, .inr ⟨named, path, written, isProtocol⟩⟩
  · rintro ⟨last, source, content, loaded, made, rest⟩
    rw [← same.protocolText loaded] at made
    rcases rest with ⟨empty, isProtocol, _⟩ | ⟨named, path, written, isProtocol⟩
    · exact ⟨after, source, content, loaded, made, .inl ⟨empty, isProtocol, rfl⟩⟩
    · obtain ⟨last, written⟩ := outputs.writeInto_iff.mpr ⟨last, written⟩
      exact ⟨last, source, content, loaded, made, .inr ⟨named, path, written, isProtocol⟩⟩

end Compiler

namespace Pipeline

open Compiler (CompilesTo Outputs)

/-- Whatever protocols of the other documents have been written, each document sees the same. -/
def Independent (roots : List Text) (directory : Text) (files : FileTree)
    (documents : List Document) : Prop :=
  ∀ document ∈ documents, ∀ after,
    Outputs directory ((documents.filter (· ≠ document)).map Document.protocolName) files after →
      document.SeesSame roots files after

private theorem independent_of_present {documents : List Document}
    (present : ∀ document ∈ documents, ∀ path ∈ document.looks roots files, ∃ place content,
      files.ReadsAt path place content ∧ ¬IsProtocolFile place) :
    Independent roots directory files documents := by
  intro document isOne after outputs path looked
  have evolves := outputs.evolves fun name among => by
    obtain ⟨other, _, rfl⟩ := mem_map.mp among
    exact suffix_append _ _
  obtain ⟨place, content, reads, source⟩ := present document isOne path looked
  rw [FileTree.read_ok_iff.mpr ⟨place, reads⟩,
    FileTree.read_ok_iff.mpr ⟨place, evolves.readsAt reads source⟩]

def Compiled.inOrderOf (compiled : Compiled) (documents : List Document) : List (Option Document) :=
  documents.map fun document => compiled.protocols.lookup document

section Stage

variable {documents rest done : List Document} {before : FileTree}

theorem compileEach_compilesTo (independent : Independent roots directory files documents)
    (within : ∀ document ∈ rest, document ∈ documents) (distinct : (done ++ rest).Nodup)
    (doneWithin : ∀ document ∈ done, document ∈ documents)
    (outputs : Outputs directory (done.map Document.protocolName) files before) :
    let compiled := compileEach (.files roots) directory before rest
    (compiled.failure = none ↔
      ∀ document ∈ rest, ∃ protocol, CompilesTo roots directory files document protocol) ∧
    (compiled.failure = none → compiled.protocols.map Prod.fst = rest ∧
      ∀ pair ∈ compiled.protocols, CompilesTo roots directory files pair.1 pair.2) := by
  induction rest generalizing done before with
  | nil => exact ⟨⟨fun _ => forall_mem_nil _, fun _ => rfl⟩, fun _ => ⟨rfl, forall_mem_nil _⟩⟩
  | cons document _ ih =>
    obtain ⟨isOne, restWithin⟩ := forall_mem_cons.mp within
    have others : done.map Document.protocolName ⊆
        (documents.filter (· ≠ document)).map Document.protocolName := by
      refine map_subset _ fun other earlier => mem_filter.mpr ⟨doneWithin other earlier, ?_⟩
      refine decide_eq_true ?_
      rintro rfl
      exact (nodup_append.mp distinct).2.2 other earlier other mem_cons_self rfl
    have sees := independent document isOne before (outputs.mono others)
    have asAlone : ∀ protocol, CompilesTo roots directory before document protocol ↔
        CompilesTo roots directory files document protocol :=
      fun _ => Compiler.compilesTo_iff outputs sees
    rw [compileEach]
    cases compiled : Compiler.compile (.files roots) false before document directory with
    | error =>
      refine ⟨⟨fun none => absurd none (Option.some_ne_none _), ?_⟩,
        fun none => absurd none (Option.some_ne_none _)⟩
      intro all
      obtain ⟨protocol, alone⟩ := all document mem_cons_self
      obtain ⟨last, succeeded⟩ := (asAlone protocol).mpr alone
      rw [compiled] at succeeded
      cases succeeded
    | ok result =>
      obtain ⟨protocol, after⟩ := result
      have alone := (asAlone protocol).mp ⟨after, compiled⟩
      have later := @ih (done ++ [document]) after restWithin (by rwa [append_assoc])
        (forall_mem_append.mpr ⟨doneWithin, forall_mem_singleton.mpr isOne⟩)
        ((outputs.compile compiled).mono (by simp))
      obtain ⟨succeeds, pairs⟩ := later
      refine ⟨succeeds.trans ?_, ?_⟩
      · exact ⟨fun all => forall_mem_cons.mpr ⟨⟨protocol, alone⟩, all⟩,
          fun all => (forall_mem_cons.mp all).2⟩
      · intro succeeded
        obtain ⟨inOrder, all⟩ := pairs succeeded
        exact ⟨congrArg (document :: ·) inOrder, forall_mem_cons.mpr ⟨alone, all⟩⟩

theorem producedTwice?_eq_none {seen} :
    producedTwice? seen documents = none ↔
      (documents.map Document.baseName).Nodup ∧
        ∀ document ∈ documents, seen.lookup document.baseName = none := by
  induction documents generalizing seen with
  | nil => exact ⟨fun _ => ⟨nodup_nil, forall_mem_nil _⟩, fun _ => rfl⟩
  | cons document _ ih =>
    rw [producedTwice?]
    cases found : seen.lookup document.baseName with
    | some =>
      refine ⟨nofun, ?_⟩
      rintro ⟨_, none⟩
      rw [none document mem_cons_self] at found
      cases found
    | none =>
      have unseen : ∀ other : Document,
          List.lookup other.baseName ((document.baseName, document.path) :: seen) = none ↔
            other.baseName ≠ document.baseName ∧ seen.lookup other.baseName = none := by
        intro other
        rw [lookup_cons]
        by_cases same : other.baseName = document.baseName
        · simp [same]
        · rw [beq_eq_false_iff_ne.mpr same]
          exact ⟨fun none => ⟨same, none⟩, And.right⟩
      dsimp only
      rw [ih, map_cons, nodup_cons, forall_mem_cons]
      simp only [unseen, mem_map, not_exists, not_and]
      constructor
      · rintro ⟨distinct, apart⟩
        exact ⟨⟨fun other member => (apart other member).1, distinct⟩, found,
          fun other member => (apart other member).2⟩
      · rintro ⟨⟨apart, distinct⟩, _, none⟩
        exact ⟨distinct, fun other member => ⟨apart other member, none other member⟩⟩

private theorem lookup_of_distinct {pairs : List (Document × Document)}
    (distinct : (pairs.map Prod.fst).Nodup) {pair} (member : pair ∈ pairs) :
    pairs.lookup pair.1 = some pair.2 := by
  induction pairs with
  | nil => cases member
  | cons first _ ih =>
    obtain ⟨apart, distinct⟩ := nodup_cons.mp distinct
    rcases mem_cons.mp member with rfl | later
    · rw [lookup_cons, beq_self_eq_true]
    · have differs : (pair.1 == first.1) = false := by
        refine beq_eq_false_iff_ne.mpr fun same => apart ?_
        rw [← same]
        exact mem_map_of_mem later
      rw [lookup_cons, differs]
      exact ih distinct later

theorem inOrderOf_eq {compiled other : Compiled} (inOrder : compiled.protocols.map Prod.fst = documents)
    (permuted : (other.protocols.map Prod.fst).Perm documents) (distinct : documents.Nodup)
    (alike : ∀ pair ∈ compiled.protocols, ∀ partner ∈ other.protocols,
      partner.1 = pair.1 → partner.2 = pair.2) :
    other.inOrderOf documents = (compiled.protocols.map Prod.snd).map some := by
  unfold Compiled.inOrderOf
  rw [← inOrder, map_map, map_map]
  refine map_congr_left fun pair member => ?_
  have listed : pair.1 ∈ other.protocols.map Prod.fst := by
    rw [permuted.mem_iff, ← inOrder]
    exact mem_map_of_mem member
  obtain ⟨partner, isPartner, same⟩ := mem_map.mp listed
  have found := lookup_of_distinct (permuted.nodup_iff.mpr distinct) isPartner
  rw [same, alike pair member partner isPartner same] at found
  exact found

end Stage

/-- Independent documents are compiled to the same protocols in any order. -/
theorem compileAll_any_order (roots : List Text) (directory : Text) (files : FileTree)
    (documents order : List Document) (independent : Independent roots directory files documents)
    (permuted : order.Perm documents) :
    let inOrder := compileAll (.files roots) directory files documents
    let inAny := compileAll (.files roots) directory files order
    (inAny.failure = none ↔ inOrder.failure = none) ∧
      (inOrder.failure = none →
        inAny.inOrderOf documents = (inOrder.protocols.map Prod.snd).map some) := by
  have twice : producedTwice? [] order = none ↔ producedTwice? [] documents = none := by
    rw [producedTwice?_eq_none, producedTwice?_eq_none]
    exact and_congr (permuted.map _).nodup_iff
      (forall_congr' fun _ => imp_congr_left permuted.mem_iff)
  unfold compileAll
  cases produced : producedTwice? [] documents with
  | some =>
    cases again : producedTwice? [] order with
    | none =>
      rw [twice.mp again] at produced
      cases produced
    | some => exact ⟨⟨nofun, nofun⟩, nofun⟩
  | none =>
    rw [twice.mpr produced]
    dsimp only
    have distinct : documents.Nodup :=
      List.Pairwise.of_map _ (fun _ _ differ same => differ (same ▸ rfl))
        (producedTwice?_eq_none.mp produced).1
    have allWithin : ∀ document ∈ order, document ∈ documents := fun _ => permuted.mem_iff.mp
    obtain ⟨succeeds, pairs⟩ := compileEach_compilesTo independent (fun _ => id)
      (nil_append documents ▸ distinct) (forall_mem_nil _) .none
    obtain ⟨succeedsToo, pairsToo⟩ := compileEach_compilesTo independent allWithin
      (nil_append order ▸ permuted.nodup_iff.mpr distinct) (forall_mem_nil _) .none
    have same : (compileEach (.files roots) directory files order).failure = none ↔
        (compileEach (.files roots) directory files documents).failure = none := by
      rw [succeeds, succeedsToo]
      exact forall_congr' fun _ => imp_congr_left permuted.mem_iff
    refine ⟨same, fun succeeded => ?_⟩
    obtain ⟨inOrder, all⟩ := pairs succeeded
    obtain ⟨inAny, allToo⟩ := pairsToo (same.mpr succeeded)
    refine inOrderOf_eq inOrder (by rwa [inAny]) distinct ?_
    intro pair member partner isPartner sameDocument
    have alone := allToo partner isPartner
    rw [sameDocument] at alone
    exact alone.unique (all pair member)

/-- Two documents of which one imports a source, compiled the other way round. -/
theorem compileAll_any_order_importing :
    let files : FileTree := ⟨.directory [("c.avdl", .file "protocol C \x7b \x7d")], []⟩
    let importing : Document :=
      ⟨.idl, "a.avdl", some "protocol A \x7b import idl \"c.avdl\"; \x7d"⟩
    let plain : Document := ⟨.idl, "b.avdl", some "protocol B \x7b \x7d"⟩
    let compiled := compileAll (.files ["out"]) "out" files [importing, plain]
    let swapped := compileAll (.files ["out"]) "out" files [plain, importing]
    compiled.failure = none ∧ swapped.failure = none ∧
      swapped.inOrderOf [importing, plain] = (compiled.protocols.map Prod.snd).map some := by
  intro files importing plain compiled swapped
  have looked : importing.looks ["out"] files = [Text.ofString "c.avdl"] ∧
      plain.looks ["out"] files = [] := by decide +kernel
  have independent : Independent ["out"] "out" files [importing, plain] := by
    refine independent_of_present (forall_mem_cons.mpr ⟨?_, forall_mem_singleton.mpr ?_⟩)
    · rw [looked.1]
      refine forall_mem_singleton.mpr ⟨["c.avdl"], "protocol C \x7b \x7d", ?_, ?_⟩
      · exact ⟨by decide, rfl, rfl⟩
      · rintro ⟨name, last, ends⟩
        cases last
        exact absurd ends (by decide)
    · rw [looked.2]
      exact forall_mem_nil _
  have succeeded : compiled.failure = none := by
    have done : compiled.failure.isNone := by decide +kernel
    exact Option.isNone_iff_eq_none.mp done
  obtain ⟨same, protocols⟩ := compileAll_any_order _ _ files [importing, plain] [plain, importing]
    independent (List.Perm.swap _ _ _)
  exact ⟨succeeded, same.mpr succeeded, protocols succeeded⟩

end Pipeline

end Avro
