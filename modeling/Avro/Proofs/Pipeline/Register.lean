import Avro.Pipeline.Steps
import Avro.Proofs.Registry.Names

/-!
# Registration does not depend on the order of the documents

Documents that refer to types of later documents wait for another pass. What a document brings along
does not depend on the registry it is read against, so a registry that has taken more documents
knows more names.
-/

set_option autoImplicit false

open List

namespace Avro.Pipeline

variable {files : FileTree} {registry after final : Registry} {document : Document} {path : Text}
  {cause : CompileCause} {documents pending : List Document}

def registerInOrder (files : FileTree) : Registry → List Document → Except Failure Registry
  | registry, [] => .ok registry
  | registry, document :: rest =>
    match attempt files registry document with
    | .merged registry _ => registerInOrder files registry rest
    | .waiting failure => .error failure
    | .failed failure => .error failure

/-- Passes over documents, each of which registers some of them and fails for none, lead to a
registry and to the documents that still wait. -/
inductive Passes (files : FileTree) :
    Registry → List Document → Registry → List Document → Prop where
  | here (registry : Registry) (documents : List Document) :
    Passes files registry documents registry documents
  | next {registry final : Registry} {documents pending : List Document}
    (intact : (pass files registry documents).failure = none)
    (progress : (pass files registry documents).registered ≠ [])
    (later : Passes files (pass files registry documents).registry
      ((pass files registry documents).waiting.map Prod.fst) final pending) :
    Passes files registry documents final pending

def Stalls (files : FileTree) (registry : Registry) (documents : List Document) : Prop :=
  documents ≠ [] ∧ (pass files registry documents).failure = none ∧
    (pass files registry documents).registered = []

def Lacks (files : FileTree) (registry : Registry) (document : Document) (cause : CompileCause) :
    Prop :=
  cause.isUndefined ∧
    ∃ content, document.load files = .ok content ∧ readBatch registry document content = .error cause

/-- A document defines a type of the given name, whichever registry it is read against. -/
def Brings (files : FileTree) (document : Document) (name : Text) : Prop :=
  ∃ registry content batch, document.load files = .ok content ∧
    readBatch registry document content = .ok batch ∧ name ∈ batch.names

/-! ## One document -/

theorem attempt_merged {count : Nat}
    (attempted : attempt files registry document = .merged after count) :
    ∃ content batch, document.load files = .ok content ∧
      readBatch registry document content = .ok batch ∧ registry.merge batch = .ok after ∧
      count = batch.types.length := by
  unfold attempt at attempted
  split at attempted
  next => cases attempted
  next content loaded =>
    split at attempted
    next => dsimp only at attempted; split at attempted <;> cases attempted
    next batch read =>
      split at attempted
      next => cases attempted
      next merged =>
        cases attempted
        exact ⟨content, batch, loaded, read, merged, rfl⟩

private theorem attempt_waiting {failure : Failure}
    (attempted : attempt files registry document = .waiting failure) :
    ∃ cause, failure = .compile document.path cause ∧ Lacks files registry document cause := by
  unfold attempt at attempted
  split at attempted
  next => cases attempted
  next content loaded =>
    split at attempted
    next cause read =>
      dsimp only at attempted
      split at attempted
      next isUndefined =>
        cases attempted
        exact ⟨cause, rfl, isUndefined, content, loaded, read⟩
      next => cases attempted
    next => split at attempted <;> cases attempted

private theorem attempt_failed
    (attempted : attempt files registry document = .failed (.compile path cause)) :
    cause.isUndefined = false := by
  unfold attempt at attempted
  split at attempted
  next => cases attempted
  next content loaded =>
    split at attempted
    next cause read =>
      dsimp only at attempted
      split at attempted
      next => cases attempted
      next defined =>
        cases attempted
        simpa using defined
    next => split at attempted <;> cases attempted

/-- A document that was read once is read again with more names known without an undefined name, and
brings along the same names. -/
theorem readBatch_follows {narrow wide content batch}
    (read : readBatch narrow document content = .ok batch) :
    (∀ other, readBatch wide document content = .ok other → other.names = batch.names) ∧
      ∀ cause, (∀ name, narrow.Knows name → wide.Knows name) →
        readBatch wide document content = .error cause → cause.isUndefined = false := by
  unfold readBatch at read ⊢
  cases kind : document.kind with
  | protocol | schema =>
    simp only [kind, mapError_ok, mapError_error] at read ⊢
    first
      | have follows := Registry.readProtocol_follows wide read
      | have follows := Registry.readSchema_follows wide read
    constructor
    · intro other again
      rwa [again] at follows
    · rintro cause more ⟨error, again, rfl⟩
      rw [again] at follows
      exact follows more
  | _ =>
    rw [kind] at read
    cases read

theorem readBatch_typed {content batch} (read : readBatch registry document content = .ok batch) :
    ∀ descriptor ∈ batch.types, descriptor.type.isSome := by
  have typed (catalog : Catalog) (source : Text) (types : List Reference) :
      ∀ descriptor ∈ types.map (Descriptor.ofType catalog source), descriptor.type.isSome := by
    intro descriptor member
    obtain ⟨type, _, rfl⟩ := mem_map.mp member
    rfl
  unfold readBatch at read
  split at read
  · obtain ⟨_, _, rfl⟩ := map_ok.mp (mapError_ok.mp read)
    exact typed _ _ _
  · obtain ⟨_, _, rfl⟩ := map_ok.mp (mapError_ok.mp read)
    exact typed _ _ _
  · cases read

/-! ## Documents one after another -/

theorem registerInOrder_append (files : FileTree) (registry : Registry)
    (first second : List Document) :
    registerInOrder files registry (first ++ second) =
      registerInOrder files registry first >>= fun middle => registerInOrder files middle second := by
  induction first generalizing registry with
  | nil => rfl
  | cons document _ ih =>
    rw [cons_append, registerInOrder, registerInOrder]
    cases attempt files registry document with
    | merged after => exact ih after
    | waiting | failed => rfl

theorem registerInOrder_cons_ok {rest : List Document}
    (registered : registerInOrder files registry (document :: rest) = .ok after) :
    ∃ middle count, attempt files registry document = .merged middle count ∧
      registerInOrder files middle rest = .ok after := by
  unfold registerInOrder at registered
  split at registered
  next middle count attempted => exact ⟨middle, count, attempted, registered⟩
  next => cases registered
  next => cases registered

theorem registerInOrder_grows (registered : registerInOrder files registry documents = .ok after) :
    ∃ added, registry.Grows after added ∧
      ∀ name, name ∈ added ↔ ∃ document ∈ documents, Brings files document name := by
  induction documents generalizing registry with
  | nil =>
    cases registered
    exact ⟨[], .refl _ (nil_subset _), by simp⟩
  | cons document _ ih =>
    obtain ⟨middle, count, attempted, others⟩ := registerInOrder_cons_ok registered
    obtain ⟨content, batch, loaded, read, merged, _⟩ := attempt_merged attempted
    obtain ⟨added, grows, brought⟩ := ih others
    refine ⟨_, (Registry.merge_grows (readBatch_typed read) merged).trans grows, ?_⟩
    intro name
    have first : name ∈ batch.names ↔ Brings files document name := by
      constructor
      · exact fun listed => ⟨registry, content, batch, loaded, read, listed⟩
      · rintro ⟨other, content', batch', loadedAgain, readAgain, listed⟩
        cases loaded.symm.trans loadedAgain
        exact (readBatch_follows read).1 batch' readAgain ▸ listed
    rw [mem_append, brought, first]
    simp

private theorem knows_of_registerInOrder {first second fewer more}
    (narrowly : registerInOrder files registry fewer = .ok first)
    (widely : registerInOrder files registry more = .ok second) (subset : fewer ⊆ more) :
    ∀ name, first.Knows name → second.Knows name := by
  obtain ⟨_, firstGrows, firstBrought⟩ := registerInOrder_grows narrowly
  obtain ⟨_, secondGrows, secondBrought⟩ := registerInOrder_grows widely
  refine firstGrows.knows_mono secondGrows ?_
  intro name listed
  obtain ⟨document, member, brings⟩ := (firstBrought name).mp listed
  exact (secondBrought name).mpr ⟨document, subset member, brings⟩

/-- Documents are left over that lack a name at the end; then no order registers them all. The first
of them in such an order would have been read with fewer names known. -/
private theorem registerInOrder_ne_ok {merged : List Document}
    (registered : registerInOrder files registry merged = .ok final) (left : pending ≠ [])
    (lack : ∀ document ∈ pending, ∃ cause, Lacks files final document cause)
    {order : List Document} (permuted : order.Perm (merged ++ pending)) (after : Registry) :
    registerInOrder files registry order ≠ .ok after := by
  intro accepted
  obtain ⟨some, somePending⟩ := exists_mem_of_ne_nil pending left
  have found : (order.find? (· ∈ pending)).isSome := by
    rw [find?_isSome]
    exact ⟨some, permuted.mem_iff.mpr (mem_append_right _ somePending), by simpa⟩
  obtain ⟨document, found⟩ := Option.isSome_iff_exists.mp found
  obtain ⟨isPending, before, later, rfl, earlier⟩ := find?_eq_some_iff_append.mp found
  rw [registerInOrder_append] at accepted
  obtain ⟨middle, reached, accepted⟩ := bind_ok.mp accepted
  obtain ⟨_, _, attempted, _⟩ := registerInOrder_cons_ok accepted
  obtain ⟨content, batch, loaded, read, _⟩ := attempt_merged attempted
  have subset : before ⊆ merged := by
    intro other member
    have listed := permuted.mem_iff.mp (mem_append_left _ member)
    have settled : other ∉ pending := by simpa using earlier other member
    exact (mem_append.mp listed).resolve_right settled
  obtain ⟨cause, isUndefined, content', loadedAgain, refused⟩ := lack document (by simpa using isPending)
  cases loaded.symm.trans loadedAgain
  have defined := (readBatch_follows read).2 cause
    (knows_of_registerInOrder reached registered subset) refused
  rw [isUndefined] at defined
  cases defined

/-! ## One pass -/

theorem pass_registers (files : FileTree) (registry : Registry) (documents : List Document) :
    ∃ merged, registerInOrder files registry merged = .ok (pass files registry documents).registry ∧
      (pass files registry documents).registered.map Prod.fst = merged.map Document.path ∧
      ((pass files registry documents).failure = none →
        (merged ++ (pass files registry documents).waiting.map Prod.fst).Perm documents) := by
  induction documents generalizing registry with
  | nil => exact ⟨[], rfl, rfl, fun _ => .refl _⟩
  | cons document _ ih =>
    rw [pass]
    cases attempted : attempt files registry document with
    | failed => exact ⟨[], rfl, rfl, nofun⟩
    | waiting =>
      obtain ⟨merged, registered, paths, permuted⟩ := ih registry
      exact ⟨merged, registered, paths, fun intact =>
        perm_middle.trans ((permuted intact).cons document)⟩
    | merged middle =>
      obtain ⟨merged, registered, paths, permuted⟩ := ih middle
      refine ⟨document :: merged, ?_, ?_, fun intact => (permuted intact).cons document⟩
      · rw [registerInOrder, attempted]
        exact registered
      · rw [map_cons, map_cons, paths]

theorem pass_waiting_sublist (files : FileTree) (registry : Registry) (documents : List Document) :
    ((pass files registry documents).waiting.map Prod.fst).Sublist documents := by
  induction documents generalizing registry with
  | nil => exact .slnil
  | cons document _ ih =>
    rw [pass]
    cases attempt files registry document with
    | failed => exact nil_sublist _
    | waiting => exact (ih registry).cons_cons document
    | merged middle => exact (ih middle).cons document

private theorem pass_failed
    (failed : (pass files registry documents).failure = some (.compile path cause)) :
    cause.isUndefined = false := by
  induction documents generalizing registry with
  | nil => cases failed
  | cons document _ ih =>
    rw [pass] at failed
    cases attempted : attempt files registry document with
    | failed =>
      rw [attempted] at failed
      cases failed
      exact attempt_failed attempted
    | waiting | merged =>
      rw [attempted] at failed
      exact ih failed

private theorem pass_stalls (intact : (pass files registry documents).failure = none)
    (idle : (pass files registry documents).registered = []) :
    (pass files registry documents).registry = registry ∧
      (pass files registry documents).waiting.map Prod.fst = documents ∧
      ∀ entry ∈ (pass files registry documents).waiting,
        ∃ cause, entry.2 = .compile entry.1.path cause ∧ Lacks files registry entry.1 cause := by
  induction documents with
  | nil => exact ⟨rfl, rfl, nofun⟩
  | cons document _ ih =>
    rw [pass] at intact idle ⊢
    cases attempted : attempt files registry document with
    | failed =>
      rw [attempted] at intact
      cases intact
    | waiting =>
      rw [attempted] at intact idle
      obtain ⟨unchanged, all, lack⟩ := ih intact idle
      refine ⟨unchanged, by rw [map_cons, all], ?_⟩
      exact forall_mem_cons.mpr ⟨attempt_waiting attempted, lack⟩
    | merged =>
      rw [attempted] at idle
      cases idle

theorem pass_length (intact : (pass files registry documents).failure = none) :
    (pass files registry documents).registered.length +
      (pass files registry documents).waiting.length = documents.length := by
  obtain ⟨merged, _, paths, permuted⟩ := pass_registers files registry documents
  have lengths := congrArg List.length paths
  have total := (permuted intact).length_eq
  simp only [length_map, length_append] at lengths total
  omega

/-! ## All passes -/

private theorem register_nil (files : FileTree) (registry : Registry) :
    register files registry [] = ⟨[], .ok registry⟩ := by
  rw [register]
  rfl

private theorem register_next (intact : (pass files registry documents).failure = none)
    (progress : (pass files registry documents).registered ≠ []) :
    (register files registry documents).result =
      (register files (pass files registry documents).registry
        ((pass files registry documents).waiting.map Prod.fst)).result := by
  have total := pass_length intact
  have some := length_pos_iff.mpr progress
  rw [register]
  cases waiting : (pass files registry documents).waiting with
  | nil =>
    rw [map_nil, register_nil]
    simp only [intact]
  | cons _ others =>
    have fewer : others.length + 1 < documents.length := by
      simp only [waiting, length_cons] at total
      omega
    simp only [intact, fewer, dif_pos, map_cons]

theorem Passes.register (passes : Passes files registry documents final pending) :
    (register files registry documents).result = (Pipeline.register files final pending).result := by
  induction passes with
  | here => rfl
  | next intact progress _ ih => rw [register_next intact progress, ih]

theorem Passes.registers (passes : Passes files registry documents final pending) :
    pending.Sublist documents ∧ ∃ merged, registerInOrder files registry merged = .ok final ∧
      (merged ++ pending).Perm documents := by
  induction passes with
  | here => exact ⟨.refl _, [], rfl, .refl _⟩
  | @next registry _ documents _ intact _ _ ih =>
    obtain ⟨sublist, merged, registered, permuted⟩ := ih
    obtain ⟨before, started, _, others⟩ := pass_registers files registry documents
    refine ⟨sublist.trans (pass_waiting_sublist files registry documents), before ++ merged, ?_, ?_⟩
    · rw [registerInOrder_append, started]
      exact registered
    · rw [append_assoc]
      exact (permuted.append_left before).trans (others intact)

theorem Stalls.register (stalls : Stalls files registry documents) :
    (∀ document ∈ documents, ∃ cause, Lacks files registry document cause) ∧
      ∃ first rest cause, documents = first :: rest ∧ Lacks files registry first cause ∧
        (register files registry documents).result = .error (.compile first.path cause) := by
  obtain ⟨left, intact, idle⟩ := stalls
  obtain ⟨_, all, lack⟩ := pass_stalls intact idle
  have total := pass_length intact
  constructor
  · intro document member
    rw [← all] at member
    obtain ⟨entry, isWaiting, rfl⟩ := mem_map.mp member
    obtain ⟨cause, _, lacks⟩ := lack entry isWaiting
    exact ⟨cause, lacks⟩
  · rw [Pipeline.register]
    cases waiting : (pass files registry documents).waiting with
    | nil =>
      rw [waiting, map_nil] at all
      exact absurd all.symm left
    | cons entry others =>
      obtain ⟨first, failure⟩ := entry
      rw [waiting] at all lack total
      rw [idle, length_nil, Nat.zero_add, length_cons] at total
      obtain ⟨cause, named, lacks⟩ := (forall_mem_cons.mp lack).1
      refine ⟨first, others.map Prod.fst, cause, all.symm, lacks, ?_⟩
      simp only [intact, total, Nat.lt_irrefl, dif_neg, not_false_eq_true]
      exact congrArg Except.error named

theorem register_registers (accepted : (register files registry documents).result = .ok final) :
    ∃ order, order.Perm documents ∧
      (register files registry documents).registered.map Prod.fst = order.map Document.path ∧
      registerInOrder files registry order = .ok final := by
  fun_induction register files registry documents with
  | case1 | case4 => cases accepted
  | case2 registry documents after waiting intact =>
    cases accepted
    obtain ⟨merged, registered, paths, permuted⟩ := pass_registers files registry documents
    have permuted := permuted intact
    simp only [after] at waiting
    rw [waiting, map_nil, append_nil] at permuted
    exact ⟨merged, permuted, paths, registered⟩
  | case3 registry documents after first failure others waiting intact fewer rest ih =>
    obtain ⟨order, permutedLater, pathsLater, registeredLater⟩ := ih accepted
    obtain ⟨merged, registered, paths, permuted⟩ := pass_registers files registry documents
    simp only [after] at waiting
    refine ⟨merged ++ order, ?_, ?_, ?_⟩
    · have permuted := permuted intact
      rw [waiting] at permuted
      exact (permutedLater.append_left merged).trans permuted
    · rw [map_append, map_append, ← paths, ← pathsLater]
    · rw [registerInOrder_append, registered]
      exact registeredLater

private theorem register_undefined (isUndefined : cause.isUndefined)
    (refused : (register files registry documents).result = .error (.compile path cause)) :
    ∃ final pending, Passes files registry documents final pending ∧ Stalls files final pending := by
  fun_induction register files registry documents with
  | case1 registry documents after failure failed =>
    cases refused
    rw [pass_failed failed] at isUndefined
    cases isUndefined
  | case2 => cases refused
  | case3 registry documents after first failure others waiting intact fewer rest ih =>
    obtain ⟨final, pending, passes, stalls⟩ := ih refused
    have total := pass_length intact
    simp only [after] at waiting
    rw [waiting, length_cons] at total
    refine ⟨final, pending, .next intact ?_ (waiting ▸ passes), stalls⟩
    intro idle
    rw [idle, length_nil] at total
    omega
  | case4 registry documents after first failure others waiting intact most =>
    have total := pass_length intact
    simp only [after] at waiting
    rw [waiting, length_cons] at total
    refine ⟨registry, documents, .here registry documents, ?_, intact, ?_⟩
    · rintro rfl
      cases waiting
    · exact length_eq_zero_iff.mp (by omega)

/-- Registration is sound and complete with respect to the order of the documents. If it succeeds,
it has registered every document once, and registering them one after another in some order gives
the same registry. If a pass makes no progress, no order registers them all; every document that is
left lacks a name at the end, and the failure names the first of them. It is such a pass exactly if
the failure is about an undefined name. -/
theorem register_independent_of_order (files : FileTree) (registry : Registry)
    (documents : List Document) :
    (∀ final, (register files registry documents).result = .ok final →
      (register files registry documents).registered.length = documents.length ∧
      ∃ order, order.Perm documents ∧
        (register files registry documents).registered.map Prod.fst = order.map Document.path ∧
        registerInOrder files registry order = .ok final) ∧
    (∀ final pending, Passes files registry documents final pending → Stalls files final pending →
      (∀ order, order.Perm documents → ∀ after, registerInOrder files registry order ≠ .ok after) ∧
      (∀ document ∈ pending, ∃ cause, Lacks files final document cause) ∧
      pending.Sublist documents ∧
      ∃ first rest cause, pending = first :: rest ∧ Lacks files final first cause ∧
        (register files registry documents).result = .error (.compile first.path cause)) ∧
    ((∃ final pending, Passes files registry documents final pending ∧ Stalls files final pending) ↔
      ∃ path cause, cause.isUndefined ∧
        (register files registry documents).result = .error (.compile path cause)) := by
  refine ⟨?_, ?_, ?_, ?_⟩
  · intro final accepted
    obtain ⟨order, permuted, paths, registered⟩ := register_registers accepted
    refine ⟨?_, order, permuted, paths, registered⟩
    have lengths := congrArg List.length paths
    rwa [length_map, length_map, permuted.length_eq] at lengths
  · intro final pending passes stalls
    obtain ⟨sublist, merged, registered, others⟩ := passes.registers
    obtain ⟨lack, first, rest, cause, pendingFirst, lacks, refused⟩ := stalls.register
    refine ⟨?_, lack, sublist, first, rest, cause, pendingFirst, lacks, ?_⟩
    · intro order permuted
      exact registerInOrder_ne_ok registered stalls.1 lack (permuted.trans others.symm)
    · rw [passes.register, refused]
  · rintro ⟨final, pending, passes, stalls⟩
    obtain ⟨_, first, _, cause, _, ⟨isUndefined, _⟩, refused⟩ := stalls.register
    exact ⟨first.path, cause, isUndefined, by rw [passes.register, refused]⟩
  · rintro ⟨path, cause, isUndefined, refused⟩
    exact register_undefined isUndefined refused

end Avro.Pipeline
