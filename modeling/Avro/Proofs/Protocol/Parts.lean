import Mathlib.Data.List.Forall2
import Avro.Proofs.Protocol.Reading
import Avro.Proofs.Schema.Restated
import Avro.Protocol.Tree

/-!
# The parts of messages

The types of a message stand in its parameters, its response and its errors. The parts of all
messages are a list of schemas, and are written and read as such a list is.
-/

set_option autoImplicit false

open List

namespace Avro

open Members Schema

structure Parts (α : Type) where
  request : List α
  response : α
  errors : List α

namespace Parts

variable {α β γ : Type} {first : Parts α} {second : Parts β}

def all (parts : Parts α) : List α := parts.request ++ parts.response :: parts.errors

def map (change : α → β) (parts : Parts α) : Parts β where
  request := parts.request.map change
  response := change parts.response
  errors := parts.errors.map change

def flat (list : List (Parts α)) : List α := list.flatMap all

structure Alike (first : Parts α) (second : Parts β) : Prop where
  request : first.request.length = second.request.length
  errors : first.errors.length = second.errors.length

theorem flat_cons (parts : Parts α) (rest : List (Parts α)) :
    flat (parts :: rest) = parts.all ++ flat rest := flatMap_cons

theorem all_map (change : α → β) (parts : Parts α) : (parts.map change).all = parts.all.map change := by
  simp only [all, map, map_append, map_cons]

theorem flat_map (change : α → β) (list : List (Parts α)) :
    flat (list.map (map change)) = (flat list).map change := by
  induction list with
  | nil => rfl
  | cons _ _ ih => rw [map_cons, flat_cons, flat_cons, map_append, ih, all_map]

theorem Alike.map_right (alike : Alike first second) (change : β → γ) :
    Alike first (second.map change) where
  request := by rw [alike.request, map, length_map]
  errors := by rw [alike.errors, map, length_map]

theorem Alike.symm (alike : Alike first second) :
    Alike second first := ⟨alike.request.symm, alike.errors.symm⟩

theorem Alike.trans {third : Parts γ} (alike : Alike first second) (also : Alike second third) :
    Alike first third :=
  ⟨alike.request.trans also.request, alike.errors.trans also.errors⟩

theorem Alike.length_all (alike : Alike first second) : second.all.length = first.all.length := by
  simp only [all, length_append, length_cons, alike.request, alike.errors]

theorem Alike.append_inj {second rest others} (alike : Alike first second)
    (same : first.all ++ rest = second.all ++ others) : first = second ∧ rest = others := by
  simp only [all, append_assoc, cons_append] at same
  obtain ⟨request, behind⟩ := List.append_inj same alike.request
  obtain ⟨response, last⟩ := List.cons.inj behind
  obtain ⟨errors, apart⟩ := List.append_inj last alike.errors
  refine ⟨?_, apart⟩
  cases first
  cases second
  cases request
  cases response
  cases errors
  rfl

theorem alike_trans {list : List (Parts α)} {others : List (Parts β)} {rest : List (Parts γ)}
    (alike : List.Forall₂ Alike list others) (also : List.Forall₂ Alike others rest) :
    List.Forall₂ Alike list rest := by
  induction alike generalizing rest with
  | nil =>
    cases also
    exact .nil
  | cons here _ ih =>
    cases also with
    | cons there later => exact .cons (here.trans there) (ih later)

theorem alike_map {list : List (Parts α)} {others : List (Parts β)}
    (alike : List.Forall₂ Alike list others) (change : β → γ) :
    List.Forall₂ Alike list (others.map (map change)) :=
  forall₂_map_right_iff.mpr (alike.imp fun _ _ both => both.map_right change)

theorem flat_inj {list : List (Parts β)} {first second : List (Parts α)}
    (alike : List.Forall₂ Alike list first) (also : List.Forall₂ Alike list second)
    (same : flat first = flat second) : first = second := by
  induction alike generalizing second with
  | nil =>
    cases also
    rfl
  | cons here _ ih =>
    cases also with
    | cons there later =>
      rw [flat_cons, flat_cons] at same
      obtain ⟨rfl, rest⟩ := (here.symm.trans there).append_inj same
      rw [ih later rest]

end Parts

/-! ## Writing parts -/

namespace Schema

variable (writeNamed : WriteNamed) (space : Text)

theorem treesWith_append (first second : List Schema) (seen : Seen) :
    treesWith writeNamed space (first ++ second) seen =
      ((treesWith writeNamed space first seen).1 ++
          (treesWith writeNamed space second (treesWith writeNamed space first seen).2).1,
        (treesWith writeNamed space second (treesWith writeNamed space first seen).2).2) := by
  induction first generalizing seen with
  | nil => rfl
  | cons _ _ ih => simp only [cons_append, treesWith, ih]

theorem length_treesWith (schemas : List Schema) (seen : Seen) :
    (treesWith writeNamed space schemas seen).1.length = schemas.length := by
  induction schemas generalizing seen with
  | nil => rfl
  | cons _ _ ih => simp only [treesWith, length_cons, ih]

theorem fieldsWith_eq (fields : List Field) (seen : Seen) :
    fieldsWith writeNamed space fields seen =
      (List.zipWith fieldTree fields (treesWith writeNamed space (fields.map (·.type)) seen).1,
        (treesWith writeNamed space (fields.map (·.type)) seen).2) := by
  induction fields generalizing seen with
  | nil => rfl
  | cons _ _ ih => simp only [fieldsWith, map_cons, treesWith, ih, zipWith_cons_cons]

def partsWith (parts : Parts Schema) (seen : Seen) : Parts Json × Seen :=
  let (request, seen) := treesWith writeNamed space parts.request seen
  let (response, seen) := treeWith writeNamed space parts.response seen
  let (errors, seen) := treesWith writeNamed space parts.errors seen
  (⟨request, response, errors⟩, seen)

def allPartsWith : List (Parts Schema) → Seen → List (Parts Json) × Seen
  | [], seen => ([], seen)
  | parts :: rest, seen =>
    let (first, seen) := partsWith writeNamed space parts seen
    let (others, seen) := allPartsWith rest seen
    (first :: others, seen)

private theorem treesWith_all (parts : Parts Schema) (seen : Seen) :
    treesWith writeNamed space parts.all seen =
      ((partsWith writeNamed space parts seen).1.all, (partsWith writeNamed space parts seen).2) := by
  simp only [Parts.all, treesWith_append, treesWith, partsWith]

theorem treesWith_flat (list : List (Parts Schema)) (seen : Seen) :
    treesWith writeNamed space (Parts.flat list) seen =
      (Parts.flat (allPartsWith writeNamed space list seen).1,
        (allPartsWith writeNamed space list seen).2) := by
  induction list generalizing seen with
  | nil => rfl
  | cons _ _ ih =>
    simp only [Parts.flat_cons, treesWith_append, treesWith_all, ih, allPartsWith]

private theorem alike_partsWith (parts : Parts Schema) (seen : Seen) :
    Parts.Alike parts (partsWith writeNamed space parts seen).1 where
  request := (length_treesWith ..).symm
  errors := (length_treesWith ..).symm

theorem alike_allPartsWith (list : List (Parts Schema)) (seen : Seen) :
    List.Forall₂ Parts.Alike list (allPartsWith writeNamed space list seen).1 := by
  induction list generalizing seen with
  | nil => exact .nil
  | cons parts _ ih => exact .cons (alike_partsWith writeNamed space parts seen) (ih _)

end Schema

def Message.parts (message : Message) : Parts Schema where
  request := message.request.map (·.type)
  response := message.response
  errors := message.errors

namespace Protocol

variable {ints : Prop} {reserved : List Text}

def messageObject (message : Message) (parts : Parts Json) : Members :=
  textMember "doc" message.doc ++ message.props ++
    (one "request" (.arr (List.zipWith fieldTree message.request parts.request)) ++
      one "response" parts.response ++
      (if parts.errors.isEmpty then [] else one "errors" (.arr parts.errors)) ++
      (if message.oneWay then one "one-way" (.bool true) else []))

def messagesObject (messages : List Message) (parts : List (Parts Json)) : Members :=
  List.zipWith (fun message parts => (message.name, .obj (messageObject message parts))) messages parts

def protocolObject (protocol : Protocol) (types : List Json) (messages : List (Parts Json)) :
    Members :=
  one "protocol" (.str protocol.name.simple) ++
    textMember "namespace" protocol.name.space ++ textMember "doc" protocol.doc ++ protocol.props ++
    (one "types" (.arr types) ++
      one "messages" (.obj (messagesObject protocol.messages messages)))

theorem mem_textMember {key other text : Text} (member : other ∈ (textMember key text).map Prod.fst) :
    other = key := by
  rw [textMember] at member
  split at member
  · cases member
  · exact mem_singleton.mp member

theorem setAll_props {fixed props : Members} (custom : props.Custom ints reserved)
    (isFixed : ∀ key ∈ fixed.map Prod.fst, key ∈ reserved) :
    fixed.setAll props = fixed ++ props := by
  cases custom.tidy with
  | obj _ distinct =>
    refine setAll_of_fresh distinct fun member among present => ?_
    exact custom.free member among (isFixed _ present)

theorem set_behind {fixed props more : Members} {key : Text} (custom : props.Custom ints reserved)
    (isReserved : key ∈ reserved) (fresh : key ∉ fixed.map Prod.fst)
    (absent : key ∉ more.map Prod.fst) (value : Json) :
    (fixed ++ props ++ more).set key value = fixed ++ props ++ (more ++ one key value) := by
  rw [set_of_fresh, append_assoc _ more]
  · rfl
  · simp only [map_append, mem_append, not_or]
    exact ⟨⟨fresh, custom.free.absent isReserved⟩, absent⟩

theorem messageTree_eq {message : Message} (custom : message.props.Custom ints messageReservedKeys)
    (catalog : Catalog) (space : Text) (seen : Schema.Seen) :
    messageTree catalog space message seen =
      (.obj (messageObject message (partsWith (namedTree catalog catalog.length) space
          message.parts seen).1),
        (partsWith (namedTree catalog catalog.length) space message.parts seen).2) := by
  have documented : (textMember "doc" message.doc).setAll message.props =
      textMember "doc" message.doc ++ message.props := setAll_props custom fun _ member =>
        mem_textMember member ▸ by decide
  have set (key : String) (isReserved : Text.ofString key ∈ messageReservedKeys)
      (other : Text.ofString key ≠ "doc") (more : Members)
      (absent : Text.ofString key ∉ more.map Prod.fst) (value : Json) :
      (textMember "doc" message.doc ++ message.props ++ more).set key value =
        textMember "doc" message.doc ++ message.props ++ (more ++ one key value) :=
    set_behind custom isReserved (fun member => other (mem_textMember member)) absent value
  have requested := set "request" (by decide) (by decide) [] not_mem_nil
  have responded (request : Json) :=
    set "response" (by decide) (by decide) (one "request" request) (by simp [one])
  have thrown (request response : Json) := set "errors" (by decide) (by decide)
    (one "request" request ++ one "response" response) (by simp [one])
  have directed (request response : Json) (errors : Members)
      (absent : Text.ofString "one-way" ∉ errors.map Prod.fst) := set "one-way" (by decide)
    (by decide) (one "request" request ++ one "response" response ++ errors)
    (by simpa [one] using absent)
  have noErrors (seen : Schema.Seen) : (treesWith
      (namedTree catalog catalog.length) space message.errors seen).1.isEmpty =
        message.errors.isEmpty := by
    cases message.errors <;> rfl
  rw [append_nil] at requested
  rw [messageTree]
  simp only [fieldsWith_eq, documented, partsWith, Message.parts, messageObject,
    requested, nil_append, responded, noErrors]
  cases message.errors.isEmpty <;> cases message.oneWay
  · simp only [Bool.false_eq_true, if_false, thrown, append_nil]
  · simp only [Bool.false_eq_true, if_false, if_true, thrown]
    rw [directed _ _ _ (by simp [one])]
  · simp only [Bool.false_eq_true, if_false, if_true, append_nil]
  · have last (request response : Json) := directed request response [] not_mem_nil
    simp only [append_nil] at last
    simp only [if_true, append_nil, last]

private theorem messageMembers_eq {messages : List Message}
    (custom : ∀ message ∈ messages, message.props.Custom ints messageReservedKeys)
    (distinct : (messages.map (·.name)).Nodup) (catalog : Catalog) (space : Text) {before : Members}
    (fresh : ∀ message ∈ messages, message.name ∉ before.map Prod.fst) (seen : Schema.Seen) :
    messageMembers catalog space messages before seen =
      before ++ messagesObject messages (allPartsWith
        (namedTree catalog catalog.length) space (messages.map (·.parts)) seen).1 := by
  induction messages generalizing before seen with
  | nil => exact (append_nil before).symm
  | cons _ _ ih =>
    obtain ⟨customFirst, customRest⟩ := forall_mem_cons.mp custom
    obtain ⟨freshFirst, freshRest⟩ := forall_mem_cons.mp fresh
    obtain ⟨apart, distinct⟩ := nodup_cons.mp distinct
    simp only [messageMembers, messageTree_eq customFirst, set_of_fresh _ freshFirst]
    rw [ih customRest distinct, append_assoc]
    · rfl
    · intro other among present
      rw [map_append, mem_append] at present
      rcases present with earlier | last
      · exact freshRest other among earlier
      · exact apart (mem_map.mpr ⟨other, among, mem_singleton.mp last⟩)

theorem tree_eq {protocol : Protocol} (custom : protocol.props.Custom ints reservedKeys)
    (each : ∀ message ∈ protocol.messages, message.props.Custom ints messageReservedKeys)
    (distinct : (protocol.messages.map (·.name)).Nodup) (catalog : Catalog) {types seen}
    (written : typeTrees catalog protocol.name.space protocol.types [] = (types, seen)) :
    protocol.tree catalog = .obj (protocolObject protocol types (allPartsWith
      (namedTree catalog catalog.length) protocol.name.space
      (protocol.messages.map (·.parts)) seen).1) := by
  have head (key : Text) (member : key ∈ (one "protocol" (.str protocol.name.simple) ++
      textMember "namespace" protocol.name.space ++ textMember "doc" protocol.doc).map Prod.fst) :
      key ∈ [Text.ofString "protocol", "namespace", "doc"] := by
    simp only [map_append, mem_append] at member
    rcases member with (first | second) | third
    · rw [mem_singleton.mp first]
      exact mem_cons_self
    · rw [mem_textMember second]
      decide
    · rw [mem_textMember third]
      decide
  have known (key : Text) (member : key ∈ [Text.ofString "protocol", "namespace", "doc"]) :
      key ∈ reservedKeys := by
    simp only [mem_cons, not_mem_nil, or_false] at member
    rcases member with rfl | rfl | rfl <;> decide
  have first := fun value => @set_behind ints reservedKeys _ protocol.props [] "types" custom
    (by decide) (fun member => absurd (head _ member) (by decide)) not_mem_nil value
  have second := fun types value => @set_behind ints reservedKeys _ protocol.props
    (one "types" types) "messages" custom (by decide)
    (fun member => absurd (head _ member) (by decide)) (by simp [one]) value
  simp only [append_nil, nil_append] at first
  have messages := @messageMembers_eq ints protocol.messages each distinct catalog
    protocol.name.space [] (fun _ _ => not_mem_nil) seen
  rw [tree]
  simp only [written, setAll_props custom fun key member => known key (head key member), first, second,
    messages]
  rfl

end Protocol

end Avro
