import Avro.Proofs.Pipeline.Coherent
import Avro.Proofs.Registry.Merging

/-!
# The order of the documents in the texts

Documents that are registered in two orders give the same names. Each name has the text that its
document was read with, and that is where the order shows: a name without a namespace can stand for
two types.
-/

set_option autoImplicit false

open List

namespace Avro.Pipeline

open Descriptor (text? text?_isSome_iff text?_eq_of_names)

/-- Documents that are registered one after another are read like this, one of them as a batch. -/
def ReadAs (files : FileTree) (registry : Registry) (documents : List Document)
    (document : Document) (batch : Batch) : Prop :=
  ∃ before later middle content, documents = before ++ document :: later ∧
    registerInOrder files registry before = .ok middle ∧ document.load files = .ok content ∧
    readBatch middle document content = .ok batch

variable {files : FileTree} {registry final first second : Registry} {document : Document}
  {documents order : List Document} {batch : Batch} {name : Text}

private theorem text?_of_isPrefix {types others : List Descriptor} {text : Text}
    (isPrefix : types <+: others) (found : text? types name = some text) :
    text? others name = some text := by
  obtain ⟨_, isThere, rfl⟩ := Option.map_eq_some_iff.mp found
  exact congrArg (Option.map Descriptor.canonical) (isPrefix.find?_eq_some isThere)

section Run

variable (registered : registerInOrder files registry documents = .ok final)

include registered

/-- A document leaves its types registered with the texts that it was read with. -/
theorem ReadAs.settled (read : ReadAs files registry documents document batch) {text : Text}
    (told : text? batch.types name = some text) : text? final.entries name = some text := by
  obtain ⟨before, later, middle, content, rfl, started, loaded, read⟩ := read
  rw [registerInOrder_append, started] at registered
  obtain ⟨_, _, attempted, finished⟩ := registerInOrder_cons_ok registered
  obtain ⟨_, _, loadedToo, readToo, merged, _⟩ := attempt_merged attempted
  cases loaded.symm.trans loadedToo
  cases read.symm.trans readToo
  obtain ⟨_, extended, rfl⟩ := map_ok.mp merged
  obtain ⟨descriptor, found, rfl⟩ := Option.map_eq_some_iff.mp told
  obtain ⟨member, rfl⟩ := Descriptor.mem_of_first? found
  obtain ⟨other, foundToo, same⟩ := (Registry.extend_ok extended).2.2 descriptor member
  refine text?_of_isPrefix (isPrefix_registerInOrder finished) ?_
  exact (congrArg (Option.map Descriptor.canonical) foundToo).trans (congrArg some same)

theorem exists_readAs (member : document ∈ documents) :
    ∃ batch, ReadAs files registry documents document batch := by
  obtain ⟨before, later, rfl⟩ := append_of_mem member
  rw [registerInOrder_append] at registered
  obtain ⟨middle, started, registered⟩ := bind_ok.mp registered
  obtain ⟨_, _, attempted, _⟩ := registerInOrder_cons_ok registered
  obtain ⟨content, batch, loaded, read, _⟩ := attempt_merged attempted
  exact ⟨batch, before, later, middle, content, rfl, started, loaded, read⟩

theorem mem_names_of_order {name : Text} : name ∈ final.names ↔
    name ∈ registry.names ∨ ∃ document ∈ documents, Brings files document name := by
  obtain ⟨added, grows, brought⟩ := registerInOrder_grows registered
  rw [grows.names, brought]

end Run

theorem ReadAs.names_eq {other : Batch} (read : ReadAs files registry documents document batch)
    (readToo : ReadAs files registry order document other) : other.names = batch.names := by
  obtain ⟨_, _, _, _, _, _, loaded, read⟩ := read
  obtain ⟨_, _, _, _, _, _, loadedToo, readToo⟩ := readToo
  cases loaded.symm.trans loadedToo
  exact (readBatch_follows read).1 other readToo

private theorem ReadAs.mem_names (read : ReadAs files registry documents document batch)
    (brings : Brings files document name) : name ∈ batch.names := by
  obtain ⟨_, _, _, _, _, _, loaded, read⟩ := read
  obtain ⟨_, _, other, loadedToo, readToo, listed⟩ := brings
  cases loaded.symm.trans loadedToo
  exact (readBatch_follows read).1 other readToo ▸ listed

/-- Documents are registered in two orders. Then the names are the same, and a name has the same
text exactly if it had the same one both times in each document that brings it. -/
theorem register_perm_iff (permuted : order.Perm documents)
    (done : (register files registry documents).result = .ok first)
    (again : (register files registry order).result = .ok second) :
    (∀ name, name ∈ first.names ↔ name ∈ second.names) ∧
    ∃ merged mergedToo, merged.Perm documents ∧ mergedToo.Perm order ∧
      registerInOrder files registry merged = .ok first ∧
      registerInOrder files registry mergedToo = .ok second ∧
      ∀ name, text? first.entries name = text? second.entries name ↔
        ∀ document batch other, ReadAs files registry merged document batch →
          ReadAs files registry mergedToo document other →
            text? batch.types name = text? other.types name := by
  obtain ⟨merged, permutedMerged, _, inOrder⟩ := register_registers done
  obtain ⟨mergedToo, permutedToo, _, inOrderToo⟩ := register_registers again
  have members (document : Document) : document ∈ merged ↔ document ∈ mergedToo := by
    rw [permutedMerged.mem_iff, permutedToo.mem_iff, permuted.mem_iff]
  have names (name : Text) : name ∈ first.names ↔ name ∈ second.names := by
    simp only [mem_names_of_order inOrder, mem_names_of_order inOrderToo, members]
  refine ⟨names, merged, mergedToo, permutedMerged, permutedToo, inOrder, inOrderToo,
    fun name => ⟨?_, ?_⟩⟩
  · intro same document batch other read readToo
    refine text?_eq_of_names (iff_of_eq (congrArg _ (readToo.names_eq read))) ?_
    intro text textToo told toldToo
    rw [read.settled inOrder told, readToo.settled inOrderToo toldToo] at same
    exact Option.some.inj same
  · intro alike
    refine text?_eq_of_names (names name) fun text textToo told toldToo => ?_
    cases known : text? registry.entries name with
    | some =>
      cases told.symm.trans (text?_of_isPrefix (isPrefix_registerInOrder inOrder) known)
      cases toldToo.symm.trans (text?_of_isPrefix (isPrefix_registerInOrder inOrderToo) known)
      rfl
    | none =>
      -- the document that brings the name has been read in both orders
      have listed : name ∈ first.names := text?_isSome_iff.mp (by rw [told, Option.isSome_some])
      obtain old | ⟨document, member, brings⟩ := (mem_names_of_order inOrder).mp listed
      · simpa [known] using text?_isSome_iff.mpr old
      obtain ⟨batch, read⟩ := exists_readAs inOrder member
      obtain ⟨other, readToo⟩ := exists_readAs inOrderToo ((members document).mp member)
      obtain ⟨_, brought⟩ :=
        Option.isSome_iff_exists.mp (text?_isSome_iff.mpr (read.mem_names brings))
      have broughtToo := (alike document batch other read readToo).symm.trans brought
      cases told.symm.trans (read.settled inOrder brought)
      cases toldToo.symm.trans (readToo.settled inOrderToo broughtToo)
      rfl

def sheet (tree : Json) : Document := ⟨.schema, "", some (tree.render .compact)⟩

def enumSheet (space : Text) : Document :=
  sheet (.obj [("type", .str "enum"), ("name", .str (Name.qualify space "X")),
    ("symbols", .arr [])])

/-- A record whose field refers to an enumeration. -/
def holderSheet : Document :=
  sheet (.obj [("type", .str "record"), ("name", .str "a.R"), ("fields", .arr [
    .obj [("name", .str "f"), ("type", .str "X")]])])

/-- A record that may refer to either of two enumerations is read with the one that is there. -/
theorem register_perm_iff_enums :
    ∃ first second merged mergedToo document batch other,
      (register default .empty [enumSheet "", holderSheet, enumSheet "a"]).result = .ok first ∧
      (register default .empty [enumSheet "a", enumSheet "", holderSheet]).result = .ok second ∧
      text? first.entries "a.R" ≠ text? second.entries "a.R" ∧
      ReadAs default .empty merged document batch ∧
      ReadAs default .empty mergedToo document other ∧
      text? batch.types "a.R" ≠ text? other.types "a.R" := by
  have told : ((register default .empty [enumSheet "", holderSheet, enumSheet "a"]).result.toOption.bind
      fun first =>
        (register default .empty [enumSheet "a", enumSheet "", holderSheet]).result.toOption.map
          fun second => decide (text? first.entries "a.R" = text? second.entries "a.R")) =
      some false := by
    decide +kernel
  obtain ⟨first, done, told⟩ := Option.bind_eq_some_iff.mp told
  obtain ⟨second, again, told⟩ := exists_ok told
  have differ := of_decide_eq_false told
  obtain ⟨_, merged, mergedToo, _, _, _, _, iff⟩ :=
    register_perm_iff (perm_append_singleton _ [_, _]).symm (ok_of_toOption done) again
  have unlike := mt (iff "a.R").mpr differ
  simp only [Classical.not_forall] at unlike
  obtain ⟨document, batch, other, read, readToo, apart⟩ := unlike
  exact ⟨first, second, merged, mergedToo, document, batch, other, ok_of_toOption done, again,
    differ, read, readToo, apart⟩

end Avro.Pipeline
