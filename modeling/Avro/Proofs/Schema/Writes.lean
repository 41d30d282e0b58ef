import Avro.Proofs.Schema.References
import Avro.Schema.Tree

/-!
# What the writer writes

The writer bounds how deep definitions nest. `Writes` says what is written without any bound. In a
closed catalog the bound is never reached.
-/

set_option autoImplicit false

open List

namespace Avro.Schema

/-- A type written by its name: the namespace it is met in, the type, and the names written before. -/
structure Mention where
  space : Text
  reference : Reference
  seen : Seen

inductive Piece where
  | schema (schema : Schema)
  | schemas (schemas : List Schema)
  | fields (fields : List Field)

def Piece.references : Piece → List Reference
  | .schema whole => whole.references
  | .schemas all => allReferences all
  | .fields all => all.flatMap (·.type.references)

inductive Trees where
  | one (tree : Json)
  | many (trees : List Json)

def Piece.write (writeNamed : WriteNamed) (space : Text) : Piece → Seen → Trees × Seen
  | .schema whole, seen =>
    (.one (treeWith writeNamed space whole seen).1, (treeWith writeNamed space whole seen).2)
  | .schemas all, seen =>
    (.many (treesWith writeNamed space all seen).1, (treesWith writeNamed space all seen).2)
  | .fields all, seen =>
    (.many (fieldsWith writeNamed space all seen).1, (fieldsWith writeNamed space all seen).2)

def Seen.add (seen : Seen) (news : List Reference) : Seen := (news.map (·.name.text)).reverse ++ seen

theorem Seen.add_append (seen : Seen) (first second : List Reference) :
    seen.add (first ++ second) = (seen.add first).add second := by
  simp only [add, map_append, reverse_append, append_assoc]

theorem Seen.add_cons (seen : Seen) (reference : Reference) (news : List Reference) :
    seen.add (reference :: news) = add (reference.name.text :: seen) news := by
  simp only [add, map_cons, reverse_cons, append_assoc, singleton_append]

theorem Seen.subset_add (seen : Seen) (news : List Reference) : seen ⊆ seen.add news :=
  subset_append_right _ _

/-- `Writes catalog space piece seen trees news mentions`: a piece met in a namespace is written as
trees after some names have been written; some types are written in full, others are mentioned. -/
inductive Writes (catalog : Catalog) :
    Text → Piece → Seen → Trees → List Reference → List Mention → Prop where
  | primitive {space seen} (kind : Primitive) (props : Members) :
      Writes catalog space (.schema (.primitive kind props)) seen (.one (primitiveTree kind props))
        [] []
  | container {space schema seen tree news mentions} (kind : Container) (props : Members)
      (inner : Writes catalog space (.schema schema) seen (.one tree) news mentions) :
      Writes catalog space (.schema (.container kind schema props)) seen
        (.one (containerTree kind tree props)) news mentions
  | union {space branches seen trees news mentions} (props : Members)
      (inner : Writes catalog space (.schemas branches) seen (.many trees) news mentions) :
      Writes catalog space (.schema (.union branches props)) seen (.one (.arr trees)) news mentions
  | mention {space reference seen} (held : catalog.Holds reference)
      (written : reference.name.text ∈ seen) :
      Writes catalog space (.schema (.named reference)) seen
        (.one (.str (writtenName space reference.name))) [] [⟨space, reference, seen⟩]
  | definition {space : Text} {reference : Reference} {definition : Definition} {seen : Seen}
      {trees : List Json} {news : List Reference} {mentions : List Mention}
      (fresh : reference.name.text ∉ seen) (found : catalog.find? reference = some definition)
      (named : definition.name = reference.name)
      (inner : Writes catalog definition.name.space (.fields definition.body.fields)
        (reference.name.text :: seen) (.many trees) news mentions) :
      Writes catalog space (.schema (.named reference)) seen
        (.one (definitionTree space definition trees)) (reference :: news) mentions
  | noSchemas {space seen} : Writes catalog space (.schemas []) seen (.many []) [] []
  | moreSchemas {space schema rest seen tree trees news more before later}
      (first : Writes catalog space (.schema schema) seen (.one tree) news before)
      (others : Writes catalog space (.schemas rest) (seen.add news) (.many trees) more later) :
      Writes catalog space (.schemas (schema :: rest)) seen (.many (tree :: trees)) (news ++ more)
        (before ++ later)
  | noFields {space seen} : Writes catalog space (.fields []) seen (.many []) [] []
  | moreFields {space} {field : Field} {rest seen tree trees news more before later}
      (first : Writes catalog space (.schema field.type) seen (.one tree) news before)
      (others : Writes catalog space (.fields rest) (seen.add news) (.many trees) more later) :
      Writes catalog space (.fields (field :: rest)) seen
        (.many (fieldTree field tree :: trees)) (news ++ more) (before ++ later)

variable {catalog : Catalog} {seen : Seen} {space : Text} {news : List Reference}
  {mentions : List Mention} {piece : Piece} {trees : Trees} {reference : Reference}

theorem Writes.append (writes : Writes catalog space piece seen trees news mentions)
    (more : List Definition) : Writes (catalog ++ more) space piece seen trees news mentions := by
  induction writes with
  | primitive kind props => exact .primitive kind props
  | container kind props _ ih => exact .container kind props ih
  | union props _ ih => exact .union props ih
  | mention held written => exact .mention (held.append more) written
  | definition fresh found named _ ih =>
    exact .definition fresh (Catalog.find?_append found more) named ih
  | noSchemas => exact .noSchemas
  | moreSchemas _ _ firstIH othersIH => exact .moreSchemas firstIH othersIH
  | noFields => exact .noFields
  | moreFields _ _ firstIH othersIH => exact .moreFields firstIH othersIH

/-- What is written, in full and by name, is determined by what there is to write. -/
theorem Writes.unique {others otherNews otherMentions}
    (writes : Writes catalog space piece seen trees news mentions)
    (again : Writes catalog space piece seen others otherNews otherMentions) :
    trees = others ∧ news = otherNews ∧ mentions = otherMentions := by
  induction writes generalizing others otherNews otherMentions with
  | primitive | noSchemas | noFields =>
    cases again
    exact ⟨rfl, rfl, rfl⟩
  | container _ _ _ ih | union _ _ ih =>
    cases again
    rename_i inner
    obtain ⟨⟨⟩, rfl, rfl⟩ := ih inner
    exact ⟨rfl, rfl, rfl⟩
  | mention _ written =>
    cases again with
    | mention => exact ⟨rfl, rfl, rfl⟩
    | definition fresh => exact absurd written fresh
  | definition fresh found _ _ ih =>
    cases again with
    | mention _ written => exact absurd written fresh
    | definition _ foundToo _ inner =>
      cases found.symm.trans foundToo
      obtain ⟨⟨⟩, rfl, rfl⟩ := ih inner
      exact ⟨rfl, rfl, rfl⟩
  | moreSchemas _ _ firstIH othersIH | moreFields _ _ firstIH othersIH =>
    cases again
    rename_i first others
    obtain ⟨⟨⟩, rfl, rfl⟩ := firstIH first
    obtain ⟨⟨⟩, rfl, rfl⟩ := othersIH others
    exact ⟨rfl, rfl, rfl⟩

theorem Writes.news_eq_nil (writes : Writes catalog space piece seen trees news mentions)
    (written : ∀ reference ∈ piece.references, reference.name.text ∈ seen) : news = [] := by
  induction writes with
  | primitive | mention | noSchemas | noFields => rfl
  | container _ _ _ ih | union _ _ ih => exact ih written
  | definition fresh => exact absurd (written _ mem_cons_self) fresh
  | moreSchemas _ _ firstIH othersIH | moreFields _ _ firstIH othersIH =>
    obtain ⟨here, later⟩ := forall_mem_append.mp written
    cases firstIH here
    exact othersIH later

/-! ## The bound of the writer -/

/-- How many definitions of a catalog have names that are not written yet. -/
def unwritten (catalog : Catalog) (seen : Seen) : Nat :=
  catalog.countP fun definition => definition.name.text ∉ seen

theorem unwritten_le_length (catalog : Catalog) (seen : Seen) :
    unwritten catalog seen ≤ catalog.length := countP_le_length

theorem unwritten_mono (catalog : Catalog) {after : Seen} (subset : seen ⊆ after) :
    unwritten catalog after ≤ unwritten catalog seen := by
  refine countP_mono_left ?_
  intro definition _ fresh
  simp only [decide_not, Bool.not_eq_eq_eq_not, Bool.not_true, decide_eq_false_iff_not] at fresh ⊢
  exact fun written => fresh (subset written)

theorem unwritten_lt {definition : Definition} (fresh : reference.name.text ∉ seen)
    (found : catalog.find? reference = some definition) (named : definition.name = reference.name) :
    unwritten catalog (reference.name.text :: seen) < unwritten catalog seen := by
  obtain ⟨inside, same⟩ := List.getElem?_eq_some_iff.mp found
  have split := take_append_drop reference.place catalog
  rw [drop_eq_getElem_cons inside, same] at split
  have before := unwritten_mono (catalog.take reference.place)
    (subset_cons_self reference.name.text seen)
  have behind := unwritten_mono (catalog.drop (reference.place + 1))
    (subset_cons_self reference.name.text seen)
  rw [← split]
  simp only [unwritten, countP_append, countP_cons] at before behind ⊢
  simp only [named, fresh, mem_cons_self, not_true_eq_false, decide_false, not_false_eq_true,
    decide_true, if_true] at before behind ⊢
  simp only [Bool.false_eq_true, if_false]
  omega

private theorem namedTree_seen (written : reference.name.text ∈ seen) (depth : Nat) :
    namedTree catalog depth space reference seen =
      (.str (writtenName space reference.name), seen) := by
  unfold namedTree
  rw [if_pos written]

theorem namedTree_fresh {definition : Definition} (fresh : reference.name.text ∉ seen)
    (found : catalog.find? reference = some definition) (depth : Nat) :
    namedTree catalog (depth + 1) space reference seen =
      (definitionTree space definition
        (fieldsWith (namedTree catalog depth) definition.name.space definition.body.fields
          (reference.name.text :: seen)).1,
      (fieldsWith (namedTree catalog depth) definition.name.space definition.body.fields
        (reference.name.text :: seen)).2) := by
  unfold namedTree
  rw [if_neg fresh]
  simp only [found]

/-- A bound of as many definitions as are left to be written is enough. -/
theorem Writes.write_eq (writes : Writes catalog space piece seen trees news mentions) {depth : Nat}
    (enough : unwritten catalog seen ≤ depth) :
    piece.write (namedTree catalog depth) space seen = (trees, seen.add news) := by
  induction writes generalizing depth with
  | primitive | noSchemas | noFields => rfl
  | container _ _ _ ih | union _ _ ih =>
    have inner := ih enough
    simp only [Piece.write, Prod.mk.injEq, Trees.one.injEq, Trees.many.injEq] at inner
    simp only [Piece.write, treeWith, inner.1, inner.2]
  | mention _ written =>
    simp only [Piece.write, treeWith, namedTree_seen written]
    rfl
  | definition fresh found named _ ih =>
    have fewer := unwritten_lt fresh found named
    obtain ⟨depth, rfl⟩ : ∃ less, depth = less + 1 := ⟨depth - 1, by omega⟩
    have inner := ih (Nat.lt_succ_iff.mp (Nat.lt_of_lt_of_le fewer enough))
    simp only [Piece.write, Prod.mk.injEq, Trees.many.injEq] at inner
    simp only [Piece.write, treeWith, namedTree_fresh fresh found, inner.1, inner.2,
      Seen.add_cons]
  | @moreSchemas _ _ _ seen _ _ _ _ _ _ _ _ firstIH othersIH
  | @moreFields _ _ _ seen _ _ _ _ _ _ _ _ firstIH othersIH =>
    have tree := firstIH enough
    have trees := othersIH (Nat.le_trans (unwritten_mono catalog (seen.subset_add _)) enough)
    simp only [Piece.write, Prod.mk.injEq, Trees.one.injEq, Trees.many.injEq] at tree trees
    simp only [Piece.write, treesWith, fieldsWith, tree.1, tree.2, trees.1, trees.2,
      Seen.add_append]

theorem Writes.treeAfter_eq {schema tree}
    (writes : Writes catalog space (.schema schema) seen (.one tree) news mentions) :
    treeAfter catalog space schema seen = (tree, seen.add news) := by
  have written := writes.write_eq (unwritten_le_length catalog seen)
  simp only [Piece.write, Prod.mk.injEq, Trees.one.injEq] at written
  exact Prod.ext written.1 written.2

/-! ## Closed catalogs -/

/-- Every reference that is held can be written while at most `bound` definitions are left. -/
def Writable (catalog : Catalog) (bound : Nat) : Prop :=
  ∀ space reference seen, catalog.Holds reference → unwritten catalog seen ≤ bound →
    ∃ tree news mentions,
      Writes catalog space (.schema (.named reference)) seen (.one tree) news mentions

mutual

theorem Writable.schema {catalog bound} (writable : Writable catalog bound) (space : Text)
    (schema : Schema) (held : ∀ reference ∈ schema.references, catalog.Holds reference)
    (seen : Seen) (enough : unwritten catalog seen ≤ bound) :
    ∃ tree news mentions, Writes catalog space (.schema schema) seen (.one tree) news mentions := by
  match schema with
  | .primitive kind props => exact ⟨_, _, _, .primitive kind props⟩
  | .container kind inner props =>
    obtain ⟨_, _, _, inner⟩ := writable.schema space inner held seen enough
    exact ⟨_, _, _, .container kind props inner⟩
  | .union branches props =>
    obtain ⟨_, _, _, inner⟩ := writable.schemas space branches held seen enough
    exact ⟨_, _, _, .union props inner⟩
  | .named reference =>
    exact writable space reference seen (held reference (mem_singleton.mpr rfl)) enough

theorem Writable.schemas {catalog bound} (writable : Writable catalog bound) (space : Text)
    (schemas : List Schema) (held : ∀ reference ∈ allReferences schemas, catalog.Holds reference)
    (seen : Seen) (enough : unwritten catalog seen ≤ bound) :
    ∃ trees news mentions,
      Writes catalog space (.schemas schemas) seen (.many trees) news mentions := by
  match schemas with
  | [] => exact ⟨_, _, _, .noSchemas⟩
  | schema :: rest =>
    have ⟨heldFirst, heldOthers⟩ := forall_mem_append.mp held
    obtain ⟨_, news, _, first⟩ := writable.schema space schema heldFirst seen enough
    have still := Nat.le_trans (unwritten_mono catalog (seen.subset_add news)) enough
    obtain ⟨_, _, _, others⟩ := writable.schemas space rest heldOthers _ still
    exact ⟨_, _, _, .moreSchemas first others⟩

end

theorem Writable.fields {bound : Nat} (writable : Writable catalog bound) (space : Text)
    (fields : List Field)
    (held : ∀ reference ∈ fields.flatMap (·.type.references), catalog.Holds reference) (seen : Seen)
    (enough : unwritten catalog seen ≤ bound) :
    ∃ trees news mentions, Writes catalog space (.fields fields) seen (.many trees) news mentions := by
  induction fields generalizing seen with
  | nil => exact ⟨_, _, _, .noFields⟩
  | cons field _ ih =>
    have ⟨heldFirst, heldOthers⟩ := forall_mem_append.mp held
    obtain ⟨_, news, _, first⟩ := writable.schema space field.type heldFirst seen enough
    have still := Nat.le_trans (unwritten_mono catalog (seen.subset_add news)) enough
    obtain ⟨_, _, _, others⟩ := ih heldOthers _ still
    exact ⟨_, _, _, .moreFields first others⟩

theorem writable_of_closed (closed : catalog.Closed) (bound : Nat) : Writable catalog bound := by
  induction bound using Nat.strongRecOn with
  | ind _ ih =>
    intro space reference seen held enough
    by_cases written : reference.name.text ∈ seen
    · exact ⟨_, _, _, .mention held written⟩
    · obtain ⟨definition, found, named⟩ := held
      have fewer := unwritten_lt written found named
      have within := (ih _ (Nat.lt_of_lt_of_le fewer enough)).fields definition.name.space _
        (closed definition (mem_of_getElem? found)) (reference.name.text :: seen) (Nat.le_refl _)
      obtain ⟨_, _, _, inner⟩ := within
      exact ⟨_, _, _, .definition written found named inner⟩

theorem exists_writes (closed : catalog.Closed) (space : Text) (schema : Schema)
    (held : ∀ reference ∈ schema.references, catalog.Holds reference) (seen : Seen) :
    ∃ tree news mentions, Writes catalog space (.schema schema) seen (.one tree) news mentions :=
  (writable_of_closed closed _).schema space schema held seen (Nat.le_refl _)

theorem canonical_append (closed : catalog.Closed) (held : catalog.Holds reference)
    (more : List Definition) :
    (Schema.named reference).canonical (catalog ++ more) =
      (Schema.named reference).canonical catalog := by
  obtain ⟨tree, news, mentions, writes⟩ :=
    exists_writes closed [] (.named reference) (forall_mem_singleton.mpr held) []
  simp only [canonical, render, Schema.tree, writes.treeAfter_eq, (writes.append more).treeAfter_eq]

end Avro.Schema
