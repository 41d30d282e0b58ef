import Avro.Proofs.Protocol.Written

/-!
# Writing a protocol again

A protocol that was read from a written form is written in that form again, so the written form is
canonical.
-/

set_option autoImplicit false

open List

namespace Avro.Protocol

open Json

open Schema (Piece Mention Seen fieldTree)

variable {ints : Prop} {protocol : Protocol} {others : List Json}

/-! ## Objects -/

private theorem itemsAsRead_fieldTrees {fields} (regular : ∀ field ∈ fields, field.Regular ints)
    {types : List Schema} {trees} (length : fields.length = types.length)
    (same : itemsAsRead others = itemsAsRead trees) :
    itemsAsRead (List.zipWith fieldTree (List.zipWith Field.asReadWith fields types) others) =
      itemsAsRead (List.zipWith fieldTree fields trees) := by
  induction fields generalizing types trees others with
  | nil => rfl
  | cons _ _ ih =>
    cases types with
    | nil => cases length
    | cons type =>
      obtain ⟨first, later⟩ := forall_mem_cons.mp regular
      cases trees with
      | nil =>
        cases others with
        | nil => rfl
        | cons => cases same
      | cons =>
        cases others with
        | nil => cases same
        | cons =>
          obtain ⟨here, behind⟩ := List.cons.inj same
          simp only [zipWith_cons_cons, itemsAsRead,
            Schema.asRead_fieldTree_again first here type, ih later (Nat.succ.inj length) behind]

private theorem messageObjectAsRead_again {message : Message} (regular : message.Regular ints)
    {types : Parts Schema} (alike : Parts.Alike message.parts types) {trees others : Parts Json}
    (same : others.map asRead = trees.map asRead) :
    messageObjectAsRead (message.asReadWith types) others = messageObjectAsRead message trees := by
  obtain ⟨request, response, errors⟩ := Parts.mk.inj same
  rw [← itemsAsRead_eq, ← itemsAsRead_eq] at request errors
  have length : message.request.length = types.request.length := by
    rw [← alike.request, Message.parts, length_map]
  have noErrors := congrArg List.isEmpty errors
  rw [itemsAsRead_eq, itemsAsRead_eq, isEmpty_map, isEmpty_map] at noErrors
  rw [messageObjectAsRead, messageObjectAsRead, Message.asReadWith]
  simp only [itemsAsRead_fieldTrees regular.request length request, response, errors, noErrors,
    Schema.membersAsRead_again regular.custom]

private theorem map_type_asReadWith {fields : List Field} {types : List Schema}
    (length : fields.length = types.length) :
    (List.zipWith Field.asReadWith fields types).map (·.type) = types := by
  induction fields generalizing types with
  | nil => rw [length_eq_zero_iff.mp length.symm, zipWith_nil_left, map_nil]
  | cons _ _ ih =>
    cases types with
    | nil => cases length
    | cons =>
      rw [zipWith_cons_cons, map_cons, ih (Nat.succ.inj length)]
      rfl

private theorem parts_asReadWith {message : Message} {types : Parts Schema}
    (alike : Parts.Alike message.parts types) : (message.asReadWith types).parts = types := by
  have length : message.request.length = types.request.length := by
    rw [← alike.request, Message.parts, length_map]
  rw [Message.parts, Message.asReadWith, map_type_asReadWith length]

private theorem map_parts_asReadWith {messages : List Message} {types}
    (alike : List.Forall₂ Parts.Alike (messages.map (·.parts)) types) :
    (List.zipWith Message.asReadWith messages types).map (·.parts) = types := by
  induction messages generalizing types with
  | nil =>
    cases alike
    rfl
  | cons _ _ ih =>
    cases alike with
    | cons first others => rw [zipWith_cons_cons, map_cons, parts_asReadWith first, ih others]

private theorem asRead_messagesObject_again {messages}
    (regular : ∀ message ∈ messages, message.Regular ints) {types}
    (alike : List.Forall₂ Parts.Alike (messages.map (·.parts)) types)
    {trees others : List (Parts Json)}
    (same : others.map (Parts.map asRead) = trees.map (Parts.map asRead)) :
    List.zipWith (fun message trees => (message.name, obj (messageObjectAsRead message trees)))
        (List.zipWith Message.asReadWith messages types) others =
      List.zipWith (fun message trees => (message.name, obj (messageObjectAsRead message trees)))
        messages trees := by
  induction messages generalizing types trees others with
  | nil => rfl
  | cons _ _ ih =>
    obtain ⟨first, later⟩ := forall_mem_cons.mp regular
    cases alike with
    | cons alikeFirst alikeRest =>
      cases trees with
      | nil => rw [map_eq_nil_iff.mp same, zipWith_nil_right, zipWith_nil_right]
      | cons =>
        obtain ⟨other, others, rfl, here, behind⟩ := map_eq_cons_iff.mp same
        simp only [zipWith_cons_cons, messageObjectAsRead_again first alikeFirst here,
          ih later alikeRest behind]
        rfl

theorem asRead_protocolObject_again {more} (regular : protocol.Regular ints) {references parts}
    (regularAgain : (protocol.asReadWith references parts).Regular more)
    (alike : List.Forall₂ Parts.Alike (protocol.messages.map (·.parts)) parts) {types}
    (same : itemsAsRead others = itemsAsRead types) {trees rest : List (Parts Json)}
    (also : rest.map (Parts.map asRead) = trees.map (Parts.map asRead)) :
    membersAsRead (protocolObject (protocol.asReadWith references parts) others rest) =
      membersAsRead (protocolObject protocol types trees) := by
  have messages : membersAsRead (messagesObject (protocol.asReadWith references parts).messages rest) =
      membersAsRead (messagesObject protocol.messages trees) := by
    rw [asRead_messagesObject regularAgain.messages, asRead_messagesObject regular.messages]
    exact asRead_messagesObject_again regular.messages alike also
  rw [asRead_protocolObject regularAgain, asRead_protocolObject regular, protocolObjectAsRead,
    protocolObjectAsRead, messages, same]
  simp only [Protocol.asReadWith, Schema.membersAsRead_again regular.custom]

/-! ## Types -/

theorem retold_branches {front space values schemas after}
    (read : Schema.readBranches (Scope.empty.extend front) space values = .ok (schemas, after)) :
    ∃ back, after = (Scope.empty.extend front).extend back ∧ ∀ later, ∃ trees mentions,
      Schema.Writes (front ++ back ++ later) space (.schemas schemas)
        (Seen.add [] (Scope.references 0 front)) (.many trees) (Scope.references front.length back)
        mentions := by
  obtain ⟨back, extended, told⟩ := (Schema.readBranches_ok_iff.mp read).retold
  have tells := Scope.tells_empty.extends_ (Scope.extends_extend .empty front)
  refine ⟨back, extended.eq_extend, fun later => ?_⟩
  obtain ⟨trees, mentions, writes⟩ := told _ front later tells rfl (by
    intro reference member
    obtain ⟨definition, _, found, named⟩ := Catalog.find?_references [] front reference member
    rw [append_assoc]
    exact Catalog.Holds.append ⟨definition, found, named⟩ _)
  obtain ⟨trees, rfl⟩ := writes.exists_many
  exact ⟨trees, mentions, writes⟩

theorem exists_roots {schemas : List Schema} (each : ∀ schema ∈ schemas, schema.isNamed = true) :
    ∃ roots : List Reference, schemas = roots.map .named := by
  induction schemas with
  | nil => exact ⟨[], rfl⟩
  | cons schema _ ih =>
    obtain ⟨first, others⟩ := forall_mem_cons.mp each
    obtain ⟨roots, rfl⟩ := ih others
    cases schema with
    | named reference => exact ⟨reference :: roots, rfl⟩
    | _ => cases first

theorem obj_of_asRead {tree : Json} {members : Members} (same : tree.asRead = .obj members) :
    ∃ members, tree = .obj members := by
  cases tree with
  | obj members => exact ⟨members, rfl⟩
  | _ => cases same

theorem objects_of_itemsAsRead {trees : List Json} (same : itemsAsRead others = itemsAsRead trees)
    (objects : ∀ tree ∈ trees, ∃ members, tree = .obj members) :
    ∀ tree ∈ others, ∃ members, tree = .obj members := by
  intro other member
  have listed : other.asRead ∈ itemsAsRead others := by
    rw [itemsAsRead_eq]
    exact mem_map_of_mem member
  rw [same, itemsAsRead_eq] at listed
  obtain ⟨tree, among, read⟩ := mem_map.mp listed
  obtain ⟨members, rfl⟩ := objects tree among
  exact obj_of_asRead (read.symm.trans (by rw [asRead]))

/-! ## Documents -/

section Restated

variable {catalog : Catalog} {protocol again : Protocol} {roots : List Reference}
  {types : List Json} {trees : List (Parts Json)} {news more : List Reference}
  {mentions later : List Mention} {after : Scope}

/-- A protocol that was read from a written form is written in that form again, with types of the
names that were written. -/
theorem Writes.restated
    (writes : Writes catalog protocol roots types trees news more mentions later)
    (complete : protocol.Complete ints catalog)
    (named : Piece.Regular ints (.schemas (roots.map .named)))
    (reread : readMembers .empty (membersAsRead (protocolObject protocol types trees)) =
      .ok (again, after)) :
    again.types.map (·.name.text) = news.map (·.name.text) ∧
      ∃ others rest,
        again.tree after.catalog = .obj (protocolObject again others rest) ∧
        Tidy True (.obj (protocolObject again others rest)) ∧
        membersAsRead (protocolObject again others rest) =
          membersAsRead (protocolObject protocol types trees) := by
  have tidy := writes.tidy complete.regular named complete.each
  have plain := tidy.plain_asRead
  rw [asRead] at plain
  obtain ⟨completeAgain, _⟩ := complete_of_readMembers plain reread
  obtain ⟨schemas, listed, parts, typesRead, isNamed, alike, partsRead, rfl, _⟩ :=
    (readMembers_protocolObject_ok complete.regular types trees writes.alike).mp reread
  rw [← Scope.extend_nil .empty] at typesRead
  obtain ⟨front, rfl, retoldTypes⟩ := retold_branches typesRead
  rw [Scope.extend_nil] at typesRead partsRead completeAgain ⊢
  obtain ⟨back, rfl, retoldParts⟩ := retold_branches partsRead
  rw [(Scope.extends_extend .empty front).drop_defined] at completeAgain ⊢
  obtain ⟨others, mentionsAgain, first⟩ := retoldTypes back
  obtain ⟨list, laterAgain, second⟩ := retoldParts []
  -- the types are written as before, and then the names that have been written are the same
  obtain ⟨sameTypes, names⟩ := writes.first.restated named complete.each .schemas
    Schema.recalls_empty (Schema.read_branches_iff.mpr typesRead) rfl first
  have recalls := writes.first.recalls named complete.each .schemas Schema.recalls_empty
    (Schema.read_branches_iff.mpr typesRead)
  have seen : Seen.add [] (Scope.references 0 front) = Seen.add [] news := Seen.add_congr names
  obtain ⟨sameParts, _⟩ := writes.second.restated (.schemas complete.regular.messageTypes)
    complete.each .schemas recalls (Schema.read_branches_iff.mpr partsRead) rfl (seen ▸ second)
  replace sameTypes := Schema.Trees.many.inj sameTypes
  replace sameParts := Schema.Trees.many.inj sameParts
  -- so what was read is written in these trees
  have similar := Parts.alike_trans writes.alike alike
  have parted : (protocol.asReadWith (Scope.references 0 front) parts).messages.map (·.parts) =
      parts := map_parts_asReadWith similar
  obtain ⟨rootsAgain, rfl⟩ := exists_roots isNamed
  have objects := objects_of_itemsAsRead sameTypes writes.objects
  rw [append_nil, ← parted] at second
  have placed := @flat_of_writes (front ++ back) (protocol.asReadWith (Scope.references 0 front) parts)
    _ _ _ _ second
  rw [placed] at second sameParts
  have writesAgain : Writes (front ++ back) (protocol.asReadWith (Scope.references 0 front) parts)
      rootsAgain others _ _ _ _ _ :=
    ⟨first, second, typeTrees_news first objects, rfl, objects⟩
  have nothing : Scope.empty.Regular False := forall_mem_nil _
  have rereads := @Schema.Rereads.schemas protocol.name.space (roots.map .named) types
  obtain ⟨_ | told, _⟩ := (Schema.readBranches_ok_iff.mp typesRead).regular
    (rereads.plain (writes.first.tidy named complete.each)) nothing
  refine ⟨names, others, _, writesAgain.tree_eq completeAgain.regular,
    writesAgain.tidy completeAgain.regular (.schemas told) completeAgain.each,
    asRead_protocolObject_again complete.regular completeAgain.regular similar sameTypes ?_⟩
  have between := similar
  rw [← parted] at between
  refine Parts.flat_inj (Parts.alike_map (Parts.alike_trans between writesAgain.alike) _)
    (Parts.alike_map writes.alike _) ?_
  rwa [Parts.flat_map, Parts.flat_map, ← itemsAsRead_eq, ← itemsAsRead_eq]

end Restated

theorem Complete.legible {catalog : Catalog} (complete : protocol.Complete ints catalog) :
    Json.Legible (protocol.tree catalog) := by
  obtain ⟨_, _, _, _, _, _, _, writes, named⟩ := complete.exists_writes
  rw [writes.tree_eq complete.regular]
  exact (writes.tidy complete.regular named complete.each).legible

theorem Complete.render_restated {again : Protocol} {catalog : Catalog} {after : Scope}
    {layout : Json.Layout} (complete : protocol.Complete ints catalog)
    (reread : readDocument .empty (protocol.render catalog layout) = .ok (again, after)) :
    again.render after.catalog layout = protocol.render catalog layout ∧
      again.types.map (·.name.text) = (typeTrees catalog protocol.name.space protocol.types []).2.reverse := by
  obtain ⟨roots, types, trees, news, more, mentions, later, writes, named⟩ := complete.exists_writes
  have tidy := writes.tidy complete.regular named complete.each
  rw [render, writes.tree_eq complete.regular, readDocument, tidy.legible.decode_render, asRead]
    at reread
  obtain ⟨names, others, rest, written, tidyAgain, same⟩ := writes.restated complete named reread
  constructor
  · rw [render, render, written, writes.tree_eq complete.regular]
    exact render_eq_of_asRead tidyAgain tidy (by rw [asRead, asRead, same]) layout
  · rw [names, writes.defined, Seen.add, append_nil, reverse_reverse]

theorem complete_of_readDocument {text : Text} {scope : Scope}
    (accepted : readDocument .empty text = .ok (protocol, scope)) :
    protocol.Complete False scope.catalog := by
  rw [readDocument] at accepted
  split at accepted
  · cases accepted
  · rename_i members decoded
    exact (complete_of_readMembers (plain_of_decode decoded) accepted).1
  · cases accepted

end Avro.Protocol

namespace Avro

open Schema (Reads chainName chain chainTree)

/-- The written form is canonical: where it is accepted, what was read from it is written with the
same text in the same layout, for schemas and for protocols. -/
theorem render_of_reread (text : Text) (layout : Json.Layout) :
    (∀ schema scope again after, Schema.readDocument .empty text = .ok (schema, scope) →
      Schema.readDocument .empty (schema.render scope.catalog layout) = .ok (again, after) →
      again.render after.catalog layout = schema.render scope.catalog layout) ∧
    ∀ protocol scope again after, Protocol.readDocument .empty text = .ok (protocol, scope) →
      Protocol.readDocument .empty (protocol.render scope.catalog layout) = .ok (again, after) →
      again.render after.catalog layout = protocol.render scope.catalog layout :=
  ⟨fun _ _ _ _ accepted reread => Schema.render_restated accepted reread,
    fun _ _ _ _ accepted reread =>
      ((Protocol.complete_of_readDocument accepted).render_restated reread).1⟩

/-! ## A name that is read as another type -/

/-- What is read where the record that refers to itself was written. -/
def chainAgain : Definition :=
  { chain with body := .record false [⟨"next", .union [.plain .null, .plain .int] [], "", none,
    .ascending, none, []⟩] }

/-- A protocol whose only type is the record, with a message that answers with it. -/
def chainsTree : Json :=
  .obj [("protocol", .str "Chains"), ("namespace", .str "a"), ("types", .arr [chainTree]),
    ("messages", .obj [("last", .obj [("request", .arr []), ("response", .str "a.int")])])]

def chains (response : Schema) : Protocol where
  name := ⟨"a", "Chains"⟩
  doc := ""
  props := []
  types := [⟨0, chainName⟩]
  messages := [⟨"last", "", [], [], response, [], false⟩]

private theorem legible_chainsTree : Json.Legible chainsTree := by
  have message : Json.Legible (.obj [("request", .arr []), ("response", .str "a.int")]) :=
    .obj (by decide) (forall_mem_cons.mpr ⟨.arr (forall_mem_nil _),
      forall_mem_singleton.mpr (.str _)⟩)
  have types : Json.Legible (.arr [chainTree]) :=
    .arr (forall_mem_singleton.mpr Schema.legible_chainTree)
  have messages : Json.Legible (.obj [("last", .obj [("request", .arr []),
      ("response", .str "a.int")])]) :=
    .obj (by decide) (forall_mem_singleton.mpr message)
  exact .obj (by decide) (forall_mem_cons.mpr ⟨.str _, forall_mem_cons.mpr ⟨.str _,
    forall_mem_cons.mpr ⟨types, forall_mem_singleton.mpr messages⟩⟩⟩)

set_option maxRecDepth 10000 in
theorem readDocument_chainsTree : Protocol.readDocument .empty (chainsTree.render .compact) =
    .ok (chains (.named ⟨0, chainName⟩), Scope.empty.extend [chain]) := by
  rw [Protocol.readDocument, legible_chainsTree.decode_render]
  with_unfolding_all rfl

set_option maxRecDepth 10000 in
theorem readDocument_chains :
    Protocol.readDocument .empty ((chains (.named ⟨0, chainName⟩)).render [chain] .compact) =
      .ok (chains (.plain .int), Scope.empty.extend [chainAgain]) := by
  have legible : Json.Legible ((chains (.named ⟨0, chainName⟩)).tree [chain]) :=
    (Protocol.complete_of_readDocument readDocument_chainsTree).legible
  rw [Protocol.readDocument, Protocol.render, legible.decode_render]
  with_unfolding_all rfl

set_option maxRecDepth 10000 in
theorem readDocument_chain :
    Schema.readDocument .empty ((Schema.named ⟨0, chainName⟩).render [chain] .compact) =
      .ok (.named ⟨0, chainName⟩, Scope.empty.extend [chainAgain]) := by
  have legible : Json.Legible ((Schema.named ⟨0, chainName⟩).tree [chain]) :=
    Schema.legible_of_readDocument Schema.readDocument_chainTree
  rw [Schema.readDocument, Schema.render, legible.decode_render]
  with_unfolding_all rfl

/-- Where a name is read as a primitive type, the text stays what it was. -/
theorem render_of_reread_chains :
    (Schema.readDocument .empty ((Schema.named ⟨0, chainName⟩).render [chain] .compact) =
        .ok (.named ⟨0, chainName⟩, Scope.empty.extend [chainAgain]) ∧
      (Schema.named ⟨0, chainName⟩).render [chainAgain] .compact =
        (Schema.named ⟨0, chainName⟩).render [chain] .compact) ∧
    Protocol.readDocument .empty ((chains (.named ⟨0, chainName⟩)).render [chain] .compact) =
        .ok (chains (.plain .int), Scope.empty.extend [chainAgain]) ∧
      (chains (.plain .int)).render [chainAgain] .compact =
        (chains (.named ⟨0, chainName⟩)).render [chain] .compact :=
  ⟨⟨readDocument_chain, (render_of_reread _ .compact).1 _ _ _ _ Schema.readDocument_chainTree
      readDocument_chain⟩,
    readDocument_chains, (render_of_reread _ .compact).2 _ _ _ _ readDocument_chainsTree
      readDocument_chains⟩

end Avro
