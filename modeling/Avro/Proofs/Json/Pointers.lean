import Avro.Proofs.FileTree.Endings
import Avro.Proofs.Json.Acceptance
import Avro.Proofs.Number.Integer
import Mathlib.Data.List.Basic

/-!
# The pointer of an object

A report of a repeated key names the object by the keys and indices that lead to it. The document as
a whole is named by the pointer of its member with an empty key.
-/

set_option autoImplicit false

open List

namespace Avro.Json

variable {root value other : Json} {holes places : List Hole} {key : Text}

/-- A part of a document, with what stands before it in each array and object around it. -/
inductive At (root : Json) : List Hole → Json → Prop
  | top : At root [] root
  | item {holes before value after} (inside : At root holes (.arr (before ++ value :: after))) :
      At root (.item before :: holes) value
  | member {holes before key value after}
      (inside : At root holes (.obj (before ++ (key, value) :: after))) :
      At root (.member before key :: holes) value

theorem At.keyed (place : At root holes value) (keyed : Keyed root) : Keyed value := by
  induction place with
  | top => exact keyed
  | item _ ih =>
    cases ih with
    | arr each => exact each _ (mem_append_right _ mem_cons_self)
  | member _ ih =>
    cases ih with
    | obj _ each => exact each _ (mem_append_right _ mem_cons_self)

/-! ## What is reported -/

/-- The tokens before a part of a document lead the reader to it. -/
theorem At.run_holeTokens (place : At root holes value) (keyed : Keyed root) (more : List Token) :
    (Progress.wantsValue []).run (holeTokens holes ++ more) =
      (Progress.wantsValue holes).run more := by
  induction place generalizing more with
  | top => rfl
  | item inside ih =>
    rw [holeTokens_cons, append_assoc, ih, Hole.tokens, cons_append]
    cases inside.keyed keyed with
    | arr each =>
      exact run_itemTokens (fun item member => (each item (mem_append_left _ member)).builds) [] _ more
  | @member holes before key value after inside ih =>
    rw [holeTokens_cons, append_assoc, ih, Hole.tokens, cons_append, append_assoc]
    cases inside.keyed keyed with
    | obj distinct each =>
      rw [map_append, map_cons] at distinct
      have fresh : before.has key = false := Members.has_eq_false_iff.mpr fun member =>
        (nodup_append.mp distinct).2.2 key member key mem_cons_self rfl
      have read := run_memberTokens (fun member among => (each member (mem_append_left _ among)).builds)
        [] (nodup_append.mp distinct).1 holes (.str key :: more)
      refine read.trans ?_
      rw [nil_append, Progress.run, Progress.step, fresh, if_neg Bool.false_ne_true]

/-- A text that repeats a key in the object at some place is refused, and the report has this path. -/
def Reports (holes : List Hole) (path : Text) : Prop :=
  ∀ (text : Text) (before : Members) (key : Text) (rest : List Token),
    Keyed (.obj before) → key ∈ before.keys →
    (scan text).tokens =
      holeTokens holes ++ .openObject :: (memberTokens before ++ .str key :: rest) →
    decode text = .error (.duplicateKey key path)

theorem At.reports (place : At root holes value) (keyed : Keyed root) :
    Reports holes (shownPointer holes) := by
  intro text before key rest members repeated spelled
  have has : before.has key = true := by
    rw [← Bool.not_eq_false, Members.has_eq_false_iff]
    exact not_not_intro repeated
  have refused : (Progress.wantsValue holes).run
      (.openObject :: (memberTokens before ++ .str key :: rest)) =
        .error (.duplicateKey key (shownPointer holes)) := by
    cases members with
    | obj distinct each =>
      refine (run_memberTokens (fun member among => (each member among).builds) [] distinct holes
        (.str key :: rest)).trans ?_
      rw [nil_append, Progress.run, Progress.step, has, if_pos rfl]
  rw [decode_eq, spelled, place.run_holeTokens keyed, refused]

/-! ## What the pointer tells -/

theorem escapePointer_cons (cell : Cell) (key : Text) :
    escapePointer (cell :: key) =
      (if cell = .scalar '~' then [.scalar '~', .scalar '0']
        else if cell = .scalar '/' then [.scalar '~', .scalar '1'] else [cell]) ++
      escapePointer key := by
  have split : escapePointer (cell :: key) = escapePointer [cell] ++ escapePointer key := by
    simp [escapePointer, Text.replaceChar]
  rw [split]
  congr 1
  by_cases tilde : cell = .scalar '~'
  · subst tilde
    rfl
  · by_cases slash : cell = .scalar '/'
    · subst slash
      rfl
    · simp [escapePointer, Text.replaceChar, Cell.isChar, tilde, slash]

theorem escapePointer_inj {other : Text} (same : escapePointer key = escapePointer other) :
    key = other := by
  have nil : escapePointer [] = [] := rfl
  induction key generalizing other with
  | nil => cases other <;> grind [escapePointer_cons]
  | cons cell key ih => cases other <;> grind [escapePointer_cons]

private theorem Hole.slash_not_mem_step (hole : Hole) : .scalar '/' ∉ hole.step := by
  cases hole with
  | item before =>
    intro member
    obtain ⟨char, same, digit, _⟩ := isNumberCell_digit member
    cases same
    exact absurd digit (by decide)
  | member _ key =>
    rw [Hole.step]
    induction key with
    | nil => exact not_mem_nil
    | cons => grind [escapePointer_cons]

theorem splitOn_pointer (holes : List Hole) :
    Text.splitOn '/' (pointer holes) = [] :: (holes.map Hole.step).reverse := by
  induction holes with
  | nil => rfl
  | cons hole holes ih =>
    have split : pointer (hole :: holes) = pointer holes ++ .scalar '/' :: hole.step := by
      rw [pointer, reverse_cons, flatMap_append, flatMap_singleton]
      rfl
    rw [split, Text.splitOn_at, ih, Text.splitOn_of_absent hole.slash_not_mem_step, map_cons,
      reverse_cons, cons_append]

/-- The steps to a part of a document tell which part it is. -/
theorem At.unique (place : At root holes value) (elsewhere : At root places other)
    (keyed : Keyed root) (same : holes.map Hole.step = places.map Hole.step) :
    holes = places ∧ value = other := by
  induction place generalizing places other with
  | top =>
    cases elsewhere with
    | top => exact ⟨rfl, rfl⟩
    | item | member => cases same
  | item inside ih =>
    cases elsewhere with
    | top => cases same
    | item insideToo =>
      obtain ⟨step, steps⟩ := cons.inj same
      obtain ⟨rfl, whole⟩ := ih insideToo steps
      have lengths := congrArg Number.digits? step
      rw [Hole.step, Hole.step, Number.digits?_ofNat, Number.digits?_ofNat] at lengths
      obtain ⟨rfl, rest⟩ := append_inj (Json.arr.inj whole) (Option.some.inj lengths)
      exact ⟨rfl, (cons.inj rest).1⟩
    | member insideToo => cases (ih insideToo (cons.inj same).2).2
  | member inside ih =>
    cases elsewhere with
    | top => cases same
    | item insideToo => cases (ih insideToo (cons.inj same).2).2
    | member insideToo =>
      obtain ⟨step, steps⟩ := cons.inj same
      obtain ⟨rfl, whole⟩ := ih insideToo steps
      obtain rfl := escapePointer_inj step
      cases inside.keyed keyed with
      | obj distinct =>
        rw [map_append, map_cons] at distinct
        obtain ⟨-, tail, apart⟩ := nodup_append.mp distinct
        have keys := congrArg (map Prod.fst) (Json.obj.inj whole)
        rw [map_append, map_append, map_cons, map_cons, append_cons_inj_of_notMem
          (fun member => apart _ member _ mem_cons_self rfl) (nodup_cons.mp tail).1] at keys
        have lengths := congrArg length keys.1
        rw [length_map, length_map] at lengths
        obtain ⟨rfl, rest⟩ := append_inj (Json.obj.inj whole) lengths
        exact ⟨rfl, (Prod.mk.inj (cons.inj rest).1).2⟩

theorem shownPointer_nil_eq (holes : List Hole) :
    shownPointer [] = shownPointer holes ↔ holes = [] ∨ ∃ before, holes = [.member before []] := by
  constructor
  · intro same
    cases holes with
    | nil => exact .inl rfl
    | cons hole holes =>
      have steps : [[], []] = [] :: ((hole :: holes).map Hole.step).reverse :=
        (congrArg (Text.splitOn '/') same).trans (splitOn_pointer (hole :: holes))
      obtain ⟨-, steps⟩ := cons.inj steps
      rw [eq_comm, reverse_eq_iff] at steps
      obtain ⟨empty, none⟩ := cons.inj steps
      obtain rfl := map_eq_nil_iff.mp none
      cases hole with
      | item before =>
        have read := congrArg Number.digits? empty
        rw [Hole.step, Number.digits?_ofNat] at read
        cases read
      | member before key =>
        obtain rfl : key = [] := escapePointer_inj empty
        exact .inr ⟨before, rfl⟩
  · rintro (rfl | ⟨before, rfl⟩) <;> rfl

/-- A report of a repeated key tells apart any two places of a document, except for the document and
its member with an empty key. -/
theorem duplicateKey_identifies {one two : Members} (keyed : Keyed root)
    (place : At root holes (.obj one)) (elsewhere : At root places (.obj two)) :
    Reports holes (shownPointer holes) ∧ Reports places (shownPointer places) ∧
      (shownPointer holes = shownPointer places ↔
        holes = places ∨
        (holes = [] ∧ ∃ before, places = [.member before []]) ∨
        (places = [] ∧ ∃ before, holes = [.member before []])) := by
  refine ⟨place.reports keyed, elsewhere.reports keyed, ?_⟩
  cases holes with
  | nil =>
    rw [shownPointer_nil_eq]
    simp [eq_comm]
  | cons hole holes =>
    cases places with
    | nil =>
      rw [eq_comm, shownPointer_nil_eq]
      simp
    | cons hole' places =>
      suffices shownPointer (hole :: holes) = shownPointer (hole' :: places) ↔
        hole :: holes = hole' :: places by simpa using this
      refine ⟨fun same => ?_, congrArg shownPointer⟩
      have steps := congrArg (Text.splitOn '/') same
      rw [shownPointer, shownPointer, isEmpty_cons, isEmpty_cons, if_neg Bool.false_ne_true,
        if_neg Bool.false_ne_true, splitOn_pointer, splitOn_pointer] at steps
      exact (place.unique elsewhere keyed (reverse_inj.mp (cons.inj steps).2)).1

/-- A document that repeats a key, and one that repeats it in its member with an empty key. -/
theorem duplicateKey_identifies_empty_key :
    decode "\x7b\"k\":1,\"k\"" = .error (.duplicateKey "k" "/") ∧
      decode "\x7b\"\":\x7b\"k\":1,\"k\"" = .error (.duplicateKey "k" "/") := by
  have inner : Keyed (.obj [("k", .num "1")]) :=
    .obj (by simp) fun _ member => mem_singleton.mp member ▸ .num "1"
  have keyed : Keyed (.obj [("", .obj [("k", .num "1")])]) :=
    .obj (by simp) fun _ member => mem_singleton.mp member ▸ inner
  have place : At (.obj [("", .obj [("k", .num "1")])]) [.member [] ""] (.obj [("k", .num "1")]) :=
    @At.member _ [] [] "" _ [] .top
  obtain ⟨top, below, same⟩ := duplicateKey_identifies keyed .top place
  have path : "/" = shownPointer [.member [] ""] :=
    same.mpr (.inr (.inl ⟨rfl, [], rfl⟩))
  have repeated : ("k" : Text) ∈ Members.keys [("k", .num "1")] := mem_singleton_self _
  exact ⟨top _ _ _ [] inner repeated (by decide +kernel),
    path ▸ below _ _ _ [] inner repeated (by decide +kernel)⟩

end Avro.Json
