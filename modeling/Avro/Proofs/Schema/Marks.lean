import Avro.Proofs.Schema.Restated
import Avro.Proofs.Schema.WellFormed

/-!
# What a written form defines

In the written form of a schema, every type that it leads to is defined once, before it is mentioned.
-/

set_option autoImplicit false

open List

namespace Avro.Schema

variable {catalog : Catalog}

/-- A schema leads to all that a piece is made of. -/
def Piece.Within (catalog : Catalog) (root : Schema) : Piece → Prop
  | .schema whole => Leads catalog root whole
  | .schemas all => ∀ branch ∈ all, Leads catalog root branch
  | .fields all => ∀ field ∈ all, Leads catalog root field.type

theorem Writes.leads {root space piece seen trees news mentions}
    (writes : Writes catalog space piece seen trees news mentions)
    (within : piece.Within catalog root) :
    ∀ reference ∈ news, Leads catalog root (.named reference) := by
  induction writes with
  | primitive | mention | noSchemas | noFields =>
    exact forall_mem_nil _
  | container _ _ _ ih => exact ih within.inner
  | union _ _ ih => exact ih fun _ among => within.branch among
  | definition _ found _ _ ih =>
    exact forall_mem_cons.mpr ⟨within, ih fun _ among => within.field found among⟩
  | moreSchemas _ _ firstIH othersIH | moreFields _ _ firstIH othersIH =>
    obtain ⟨now, later⟩ := forall_mem_cons.mp within
    exact fun reference member =>
      (mem_append.mp member).elim (firstIH now reference) (othersIH later reference)

theorem Leads.held {root node : Schema} (leads : Leads catalog root node) (closed : catalog.Closed)
    (held : ∀ reference ∈ root.references, catalog.Holds reference) :
    ∀ reference ∈ node.references, catalog.Holds reference := by
  induction leads with
  | here => exact held
  | inner _ ih => exact ih
  | branch _ among ih =>
    exact fun reference member => ih reference (mem_allReferences.mpr ⟨_, among, member⟩)
  | field _ found among =>
    intro reference member
    refine closed _ (mem_of_getElem? found) reference ?_
    exact mem_flatMap.mpr ⟨_, among, member⟩

section Document

variable {text : Text} {schema : Schema} {scope : Scope}
  (accepted : readDocument .empty text = .ok (schema, scope))

include accepted

private theorem closed_of_readDocument : scope.catalog.Closed ∧
    ∀ reference ∈ schema.references, scope.catalog.Holds reference := by
  obtain ⟨value, _, reads⟩ := reads_of_readDocument accepted
  obtain ⟨⟨definitions, extended, each⟩, offered⟩ := reads.offers
  have catalog : scope.catalog = definitions := extended.catalog
  have held (reference : Reference) (offered : scope.Offers reference) :
      scope.catalog.Holds reference := by
    rw [eq_extend_empty accepted] at offered
    exact Scope.holds_of_offers offered
  refine ⟨fun definition member reference mentioned => ?_, fun reference member => ?_⟩
  · exact held reference (each definition (catalog ▸ member) reference mentioned)
  · exact held reference (offered reference member)

/-- The types that a document defines are those that its schema leads to. -/
private theorem mem_references_iff_leads {reference : Reference} :
    reference ∈ Scope.references 0 scope.catalog ↔
      Leads scope.catalog schema (.named reference) := by
  obtain ⟨tree, mentions, writes⟩ := writes_of_readDocument accepted
  obtain ⟨closed, held⟩ := closed_of_readDocument accepted
  constructor
  · have within : (Piece.schema schema).Within scope.catalog schema := .here
    exact writes.leads within reference
  · intro leads
    obtain ⟨definition, found, named⟩ :=
      leads.held closed held reference (mem_singleton.mpr rfl)
    exact Scope.mem_references_iff.mpr
      ⟨reference.place, definition, found, by rw [Nat.zero_add, named]⟩

end Document

/-- The written form of a document is finished, whatever its types refer to. It does not depend on
how deep the writer may go. The definitions in it are of the types that the schema leads to, each of
which is defined once. Wherever the writer mentions a type by its name, its definition has begun
before. -/
theorem render_defines_once_before_use {text : Text} {schema : Schema} {scope : Scope}
    (accepted : readDocument .empty text = .ok (schema, scope)) (layout : Json.Layout) :
    (∀ depth ≥ scope.catalog.length,
      (treeWith (namedTree scope.catalog depth) [] schema []).1 = schema.tree scope.catalog) ∧
    Json.decode (schema.render scope.catalog layout) = .ok (schema.tree scope.catalog).asRead ∧
    (∀ name, name ∈ declared (marks [] (schema.tree scope.catalog).asRead) ↔
      ∃ reference, Leads scope.catalog schema (.named reference) ∧ reference.name.text = name) ∧
    (declared (marks [] (schema.tree scope.catalog).asRead)).Nodup ∧
    ∃ news mentions events,
      Writes scope.catalog [] (.schema schema) [] (.one (schema.tree scope.catalog)) news mentions ∧
      marks [] (schema.tree scope.catalog).asRead = events.map Event.mark ∧
      events.filterMap Event.mention? = mentions ∧ DefinesBeforeUse [] events := by
  obtain ⟨tree, mentions, writes⟩ := writes_of_readDocument accepted
  obtain ⟨regular, each⟩ := regular_of_readDocument accepted
  obtain ⟨events, marked, defined, mentioned, ordered⟩ := writes.events (.schema regular) each
  have same : schema.tree scope.catalog = tree := by rw [Schema.tree, writes.treeAfter_eq]
  have legible : Json.Legible tree := (writes.tidy (.schema regular) each).legible
  have listed : declared (marks [] tree.asRead) =
      (Scope.references 0 scope.catalog).map (·.name.text) := by
    rw [← defined, ← declared_map_mark, ← marked]
    rfl
  rw [render, same, listed]
  refine ⟨?_, legible.decode_render layout, ?_, ?_, _, mentions, events, writes, marked, mentioned,
    ordered⟩
  · intro depth enough
    have written := writes.write_eq (Nat.le_trans (unwritten_le_length _ _) enough)
    simp only [Piece.write, Prod.mk.injEq, Trees.one.injEq] at written
    exact written.1
  · intro name
    simp only [mem_map, mem_references_iff_leads accepted]
  · rw [Scope.map_text_references]
    exact distinct_of_readDocument accepted

/-- The record that refers to itself is defined, and then mentioned in its own namespace. -/
theorem chain_defines_once_before_use :
    readDocument .empty (chainTree.render .compact) =
        .ok (.named ⟨0, chainName⟩, Scope.empty.extend [chain]) ∧
      chainName.text ∈ declared (marks [] ((Schema.named ⟨0, chainName⟩).tree [chain]).asRead) :=
  ⟨readDocument_chainTree,
    ((render_defines_once_before_use readDocument_chainTree .compact).2.2.1 _).mpr
      ⟨⟨0, chainName⟩, .here, rfl⟩⟩

end Avro.Schema
