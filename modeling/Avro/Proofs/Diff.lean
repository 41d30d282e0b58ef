import Avro.Proofs.FileTree.Endings
import Avro.Registry
import Mathlib.Data.List.Basic

/-!
# What a diff says of both texts

The script of two sequences spells them both. Each line of a line diff has one line of a text behind
its mark, except that an empty piece is written as an empty line.
-/

set_option autoImplicit false

open List

namespace Avro.Diff

variable {α : Type}

namespace Script

@[simp] theorem old_nil : old ([] : Script α) = [] := rfl

@[simp] theorem new_nil : new ([] : Script α) = [] := rfl

@[simp] theorem old_append (first second : Script α) :
    old (first ++ second) = old first ++ old second := flatMap_append

@[simp] theorem new_append (first second : Script α) :
    new (first ++ second) = new first ++ new second := flatMap_append

@[simp] theorem old_cons (piece : Piece α) (rest : Script α) :
    old (piece :: rest) = (if piece.change = .insert then [] else piece.items) ++ old rest :=
  flatMap_cons

@[simp] theorem new_cons (piece : Piece α) (rest : Script α) :
    new (piece :: rest) = (if piece.change = .delete then [] else piece.items) ++ new rest :=
  flatMap_cons

/-- A script for two sequences. -/
def Spells (script : Script α) (left right : List α) : Prop :=
  script.old = left ∧ script.new = right

theorem Spells.append {first second : Script α} {left right left' right' : List α}
    (spells : first.Spells left right) (also : second.Spells left' right') :
    Spells (first ++ second) (left ++ left') (right ++ right') :=
  ⟨by rw [old_append, spells.1, also.1], by rw [new_append, spells.2, also.2]⟩

end Script

open Script

theorem keepMore_spells (done : Script α) (items : List α) :
    Spells (keepMore done items).reverse (old done.reverse ++ items) (new done.reverse ++ items) := by
  unfold keepMore Spells
  split <;> simp

variable [DecidableEq α]

/-! ## What two sequences share -/

theorem take_commonStart (left right : List α) :
    left.take (commonStart left right) = right.take (commonStart left right) := by
  fun_induction commonStart left right with
  | case1 a as bs ih => rw [take_succ_cons, take_succ_cons, ih]
  | case2 | case3 => rfl

private theorem commonStart_le (left right : List α) : commonStart left right ≤ right.length := by
  fun_induction commonStart left right with
  | case1 _ _ _ ih => exact Nat.succ_le_succ ih
  | case2 | case3 => exact Nat.zero_le _

theorem drop_commonEnd (left right : List α) :
    left.drop (left.length - commonEnd left right) =
      right.drop (right.length - commonEnd left right) := by
  have shared := congrArg reverse (take_commonStart left.reverse right.reverse)
  rwa [reverse_take, reverse_take, reverse_reverse, reverse_reverse, length_reverse,
    length_reverse] at shared

private theorem commonEnd_le (left right : List α) : commonEnd left right ≤ right.length := by
  have shared := commonStart_le left.reverse right.reverse
  rwa [length_reverse] at shared

/-! ## Tidying -/

omit [DecidableEq α] in
theorem take_append_drop_append (count : Nat) (list rest : List α) :
    list.take count ++ (list.drop count ++ rest) = list ++ rest := by
  rw [← append_assoc, take_append_drop]

theorem settle_spells (done : Script α) (pending : Pending α) (kept : List α) :
    Spells (settle done pending kept).reverse
      (old done.reverse ++ (pending.deleted.flatten ++ kept))
      (new done.reverse ++ (pending.inserted.flatten ++ kept)) := by
  unfold settle
  split
  · rename_i deleted inserted
    rw [deleted, inserted]
    exact keepMore_spells done kept
  · constructor <;> simp [*]
  · constructor <;> simp [*]
  · constructor <;> simp [*]
  · constructor <;> simp [*]
  · generalize pending.deleted.flatten = deleted
    generalize pending.inserted.flatten = inserted
    dsimp only
    have started := take_commonStart inserted deleted
    generalize commonStart inserted deleted = front at started ⊢
    have ended := drop_commonEnd (inserted.drop front) (deleted.drop front)
    have before : Spells (if front = 0 then done else keepMore done (inserted.take front)).reverse
        (old done.reverse ++ inserted.take front) (new done.reverse ++ inserted.take front) := by
      split
      · rename_i none
        rw [none, take_zero, append_nil, append_nil]
        exact ⟨rfl, rfl⟩
      · exact keepMore_spells done _
    simp only [reverse_cons, append_assoc, cons_append, nil_append]
    constructor
    · rw [old_append, before.1, started, ended]
      simp only [old_cons, old_nil, reduceCtorEq, if_false, if_true, append_assoc,
        nil_append, append_nil, take_append_drop_append]
    · rw [new_append, before.2]
      simp only [new_cons, new_nil, reduceCtorEq, if_false, if_true, append_assoc,
        nil_append, append_nil, take_append_drop_append]

private theorem mergeFrom_spells (done : Script α) (pending : Pending α) (script : Script α) :
    Spells (mergeFrom done pending script)
      (old done.reverse ++ (pending.deleted.flatten ++ old script))
      (new done.reverse ++ (pending.inserted.flatten ++ new script)) := by
  fun_induction mergeFrom done pending script with
  | case1 done pending change rest settled =>
    have spells := settle_spells done pending []
    rw [settled] at spells
    simpa [Spells] using spells
  | case2 done pending => exact settle_spells done pending []
  | case3 done pending items rest ih =>
    obtain ⟨old, new⟩ := settle_spells done pending items
    rw [old, new] at ih
    simpa [Pending.none] using ih
  | case4 _ _ _ _ ih | case5 _ _ _ _ ih => simpa [Spells] using ih

private theorem slideFrom_spells (done : Script α) (moved : Bool) (script : Script α) :
    Spells (slideFrom done moved script).1 (old done.reverse ++ old script)
      (new done.reverse ++ new script) := by
  fun_induction slideFrom done moved script with
  | case1 _ current next more before earlier isKeep ends items ih =>
    obtain ⟨change, _⟩ := current
    obtain ⟨front, rfl⟩ := isSuffixOf_iff_suffix.mp ends
    have moves : items = before ++ front := by simp [items]
    rw [moves] at ih ⊢
    cases change <;> simpa [isKeep] using ih
  | case2 _ current next more before earlier isKeep _ begins items ih =>
    obtain ⟨change, _⟩ := current
    obtain ⟨back, rfl⟩ := isPrefixOf_iff_prefix.mp begins
    have moves : items = back ++ next.items := by simp [items]
    rw [moves] at ih ⊢
    cases change <;> simpa [isKeep] using ih
  | case3 _ _ _ _ _ _ _ _ _ ih | case4 _ _ _ _ _ _ _ ih | case5 _ _ _ _ _ _ ih =>
    simpa [Spells] using ih
  | case6 => simp [Spells]

private theorem cleanupRounds_spells (rounds : Nat) (script : Script α) :
    Spells (cleanupRounds rounds script) script.old script.new := by
  induction rounds generalizing script with
  | zero => exact ⟨rfl, rfl⟩
  | succ rounds ih =>
    have merged : Spells (mergeFrom [] .none script) script.old script.new :=
      mergeFrom_spells [] .none script
    rw [cleanupRounds]
    generalize mergeFrom [] .none script = merging at merged
    cases merging with
    | nil => exact merged
    | cons first rest =>
      have slid : Spells (slideFrom [first] false rest).1 script.old script.new := by
        rw [← merged.1, ← merged.2]
        simpa using slideFrom_spells [first] false rest
      dsimp only
      split
      · rw [← slid.1, ← slid.2]
        exact ih _
      · exact slid

theorem cleanup_spells {script : Script α} {left right : List α} (spells : script.Spells left right) :
    (cleanup script).Spells left right := by
  rw [← spells.1, ← spells.2]
  exact cleanupRounds_spells _ script

/-! ## Cutting -/

private theorem indexFrom?_some {pattern sequence : List α} {start index : Nat}
    (found : indexFrom? pattern start sequence = some index) :
    ∃ before after, sequence = before ++ (pattern ++ after) ∧ index = start + before.length := by
  fun_induction indexFrom? pattern start sequence with
  | case1 start empty =>
    cases found
    exact ⟨[], [], by simpa using empty, rfl⟩
  | case2 => cases found
  | case3 start item rest begins =>
    cases found
    obtain ⟨after, whole⟩ := isPrefixOf_iff_prefix.mp begins
    exact ⟨[], after, whole.symm, rfl⟩
  | case4 start item rest _ ih =>
    obtain ⟨before, after, rfl, rfl⟩ := ih found
    exact ⟨item :: before, after, rfl, by rw [length_cons]; omega⟩

theorem indexFrom?_cut {pattern sequence : List α} {index : Nat}
    (found : indexFrom? pattern 0 sequence = some index) :
    sequence.take index ++ (pattern ++ sequence.drop (index + pattern.length)) = sequence := by
  obtain ⟨before, after, rfl, rfl⟩ := indexFrom?_some found
  rw [Nat.zero_add, take_left, ← drop_drop, drop_left, drop_left]

/-- Halves that stand around what two sequences share. -/
def Halves.Cut (halves : Halves α) (long short : List α) : Prop :=
  halves.leftBefore ++ (halves.shared ++ halves.leftAfter) = long ∧
    halves.rightBefore ++ (halves.shared ++ halves.rightAfter) = short

/-- What is shared around a position of one sequence and an index of the other. -/
structure Fits (long short : List α) (position : Nat) (best : Nat × Nat × Nat) : Prop where
  inShort : best.2.1 ≤ best.1
  back : (long.take position).drop (position - best.2.1) =
    (short.take best.1).drop (best.1 - best.2.1)
  ahead : (long.drop position).take best.2.2 = (short.drop best.1).take best.2.2

section Shared

variable {long short : List α} {position : Nat}

theorem fits_spread {index : Nat} (inside : position ≤ long.length) (within : index ≤ short.length) :
    Fits long short position (index, commonEnd (long.take position) (short.take index),
      commonStart (long.drop position) (short.drop index)) := by
  have back := commonEnd_le (long.take position) (short.take index)
  have ended := drop_commonEnd (long.take position) (short.take index)
  rw [length_take_of_le within] at back ended
  rw [length_take_of_le inside] at ended
  exact ⟨back, ended, take_commonStart _ _⟩

private theorem fits_foldl (inside : position ≤ long.length) {list : List Nat}
    (within : ∀ index ∈ list, index ≤ short.length) :
    Fits long short position (list.foldl (fun best index =>
      if best.2.1 + best.2.2 < commonEnd (long.take position) (short.take index) +
          commonStart (long.drop position) (short.drop index) then
        (index, commonEnd (long.take position) (short.take index),
          commonStart (long.drop position) (short.drop index))
      else best) (0, 0, 0)) := by
  refine foldlRecOn list _ ⟨Nat.le_refl _, ?_, rfl⟩ fun best fits index member => ?_
  · exact drop_of_length_le (length_take_le _ _)
  · split
    · exact fits_spread inside (within index member)
    · exact fits

omit [DecidableEq α] in
theorem around (list : List α) (place back ahead : Nat) :
    list.take (place - back) ++ ((list.take place).drop (place - back) ++
      ((list.drop place).take ahead ++ list.drop (place + ahead))) = list := by
  have front : list.take (place - back) = (list.take place).take (place - back) := by
    rw [take_take, Nat.min_eq_left (Nat.sub_le _ _)]
  rw [front, take_append_drop_append, ← drop_drop, take_append_drop, take_append_drop]

theorem sharedFrom?_cut {halves : Halves α} (inside : position ≤ long.length)
    (found : sharedFrom? long short position = some halves) : halves.Cut long short := by
  unfold sharedFrom? at found
  dsimp only at found
  have fits := @fits_foldl α _ long short position inside
    (occurrences ((long.drop position).take (long.length / 4)) short) (by
      intro index member
      have listed := mem_range.mp (mem_filter.mp member).1
      omega)
  generalize foldl _ (0, 0, 0) _ = best at found fits
  obtain ⟨index, back, ahead⟩ := best
  obtain ⟨inShort, sameBack, sameAhead⟩ := fits
  split at found
  · cases found
  · cases found
    have shared : (short.drop (index - back)).take (back + ahead) =
        (short.take index).drop (index - back) ++ (short.drop index).take ahead := by
      rw [take_add, drop_drop, Nat.sub_add_cancel inShort, drop_take, Nat.sub_sub_self inShort]
    constructor
    · rw [shared, ← sameBack, ← sameAhead, append_assoc]
      exact around long position back ahead
    · rw [shared, append_assoc]
      exact around short index back ahead

theorem sharedHalf?_cut {halves : Halves α} (found : sharedHalf? long short = some halves) :
    halves.Cut long short := by
  unfold sharedHalf? at found
  split at found
  · cases found
  · have quarter : (long.length + 3) / 4 ≤ long.length := by omega
    have half : (long.length + 1) / 2 ≤ long.length := by omega
    split at found
    · cases found
    · rename_i shared _
      exact sharedFrom?_cut quarter (shared.trans found)
    · rename_i shared
      exact sharedFrom?_cut half (shared.trans found)
    · rename_i first second
      split at found
      · exact sharedFrom?_cut quarter (first.trans found)
      · exact sharedFrom?_cut half (second.trans found)

end Shared

private theorem computeWith_spells {go} (spells : ∀ left right, (go left right).Spells left right)
    (left right : List α) : (computeWith go left right).Spells left right := by
  unfold computeWith
  split
  · rename_i empty
    simp [Spells, isEmpty_iff.mp empty]
  split
  · rename_i empty
    simp [Spells, isEmpty_iff.mp empty]
  have replaced : (replaceAll left right).Spells left right := by simp [replaceAll, Spells]
  have around {halves : Halves α} (cut : halves.Cut left right) :
      Spells (go halves.leftBefore halves.rightBefore ++ [⟨.keep, halves.shared⟩] ++
        go halves.leftAfter halves.rightAfter) left right := by
    have shared : Spells [⟨.keep, halves.shared⟩] halves.shared halves.shared := by simp [Spells]
    rw [← cut.1, ← cut.2, append_assoc]
    exact (spells _ _).append (shared.append (spells _ _))
  have cut (column row : Nat) : Spells (go (left.take column) (right.take row) ++
      go (left.drop column) (right.drop row)) left right := by
    have parts := (spells (left.take column) (right.take row)).append (spells (left.drop column)
      (right.drop row))
    rwa [take_append_drop, take_append_drop] at parts
  by_cases longer : right.length < left.length
  · simp only [longer, if_true]
    split
    · have whole := indexFrom?_cut ‹_›
      constructor <;> simp [whole]
    · split
      · exact replaced
      · split
        · exact around (sharedHalf?_cut ‹_›)
        · split
          · exact cut _ _
          · exact replaced
  · simp only [longer, if_false]
    split
    · have whole := indexFrom?_cut ‹_›
      constructor <;> simp [whole]
    · split
      · exact replaced
      · split
        · exact around (sharedHalf?_cut ‹_›).symm
        · split
          · exact cut _ _
          · exact replaced

omit [DecidableEq α] in
theorem framed_spells {script : Script α} {left right : List α} (spells : script.Spells left right)
    (shared ending : List α) :
    Spells (if ending.isEmpty then if shared.isEmpty then script else ⟨.keep, shared⟩ :: script
      else (if shared.isEmpty then script else ⟨.keep, shared⟩ :: script) ++ [⟨.keep, ending⟩])
      (shared ++ (left ++ ending)) (shared ++ (right ++ ending)) := by
  rw [← spells.1, ← spells.2]
  cases shared <;> cases ending <;> simp [Spells]

private theorem computeDeep_spells (depth : Nat) (left right : List α) :
    (computeDeep depth left right).Spells left right := by
  induction depth generalizing left right with
  | zero => simp [computeDeep, replaceAll, Spells]
  | succ depth ih =>
    rw [computeDeep]
    split
    · rename_i same
      subst same
      split
      · rename_i empty
        rw [isEmpty_iff.mp empty]
        exact ⟨rfl, rfl⟩
      · simp [Spells]
    · dsimp only
      have started := take_commonStart left right
      generalize commonStart left right = front at started ⊢
      have ended := drop_commonEnd (left.drop front) (right.drop front)
      generalize commonEnd (left.drop front) (right.drop front) = back at ended ⊢
      have framed := framed_spells (computeWith_spells ih
        ((left.drop front).take ((left.drop front).length - back))
        ((right.drop front).take ((right.drop front).length - back))) (left.take front)
        ((left.drop front).drop ((left.drop front).length - back))
      refine cleanup_spells ?_
      rw [take_append_drop, take_append_drop, ended, take_append_drop, started,
        take_append_drop] at framed
      rwa [started, ended]

theorem compute_spells (left right : List α) : (compute left right).Spells left right :=
  computeDeep_spells _ left right

/-! ## Lines -/

def bare (line : Text) : Text := Text.dropEnding line "\n"

/-- The lines of a text. A final newline does not open a further one. -/
def linesOf (text : Text) : List Text := (lines text).map bare

/-- The lines of a diff with one of some marks, without it. -/
def side (marks : List Char) (diff : Text) : List Text :=
  (linesOf diff).filterMap fun line =>
    match line with
    | [] => none
    | mark :: rest => if mark ∈ marks.map Cell.scalar then some rest else none

/-- Lines one after another: each has its newline at the end, but the last one may have none. -/
inductive Run : List Text → Prop
  | nil : Run []
  | last {line : Text} (filled : line ≠ []) (whole : .scalar '\n' ∉ line) : Run [line]
  | cons {line : Text} {rest : List Text} (whole : .scalar '\n' ∉ line) (more : Run rest) :
      Run ((line ++ [.scalar '\n']) :: rest)

theorem not_mem_cons_of_other {cell : Cell} {text : Text} (other : ¬cell.isChar '\n' = true)
    (whole : .scalar '\n' ∉ text) : .scalar '\n' ∉ cell :: text := by
  rw [mem_cons, not_or]
  exact ⟨fun same => other (beq_iff_eq.mpr same.symm), whole⟩

theorem run_lines (text : Text) : Run (lines text) := by
  fun_induction lines text with
  | case1 => exact .nil
  | case2 _ _ isBreak ih =>
    cases eq_of_beq isBreak
    exact @Run.cons [] _ not_mem_nil ih
  | case3 _ _ other => exact .last (cons_ne_nil _ _) (not_mem_cons_of_other other not_mem_nil)
  | case4 _ _ other _ _ found ih =>
    rw [found] at ih
    cases ih with
    | last _ whole => exact .last (cons_ne_nil _ _) (not_mem_cons_of_other other whole)
    | cons whole more => exact .cons (not_mem_cons_of_other other whole) more

theorem flatten_lines (text : Text) : (lines text).flatten = text := by
  fun_induction lines text with
  | case1 => rfl
  | case2 _ _ _ ih => rw [flatten_cons, ih]; rfl
  | case3 _ _ _ none ih | case4 _ _ _ _ _ none ih =>
    rw [none] at ih
    rw [← ih]
    rfl

theorem Run.take {list : List Text} (run : Run list) (count : Nat) : Run (list.take count) := by
  induction run generalizing count with
  | nil => rw [take_nil]; exact .nil
  | last filled whole =>
    cases count with
    | zero => exact .nil
    | succ => rw [take_succ_cons, take_nil]; exact .last filled whole
  | cons whole _ ih =>
    cases count with
    | zero => exact .nil
    | succ count => exact .cons whole (ih count)

theorem Run.drop {list : List Text} (run : Run list) (count : Nat) : Run (list.drop count) := by
  induction run generalizing count with
  | nil => rw [drop_nil]; exact .nil
  | last filled whole =>
    cases count with
    | zero => exact .last filled whole
    | succ => rw [drop_succ_cons, drop_nil]; exact .nil
  | cons whole more ih =>
    cases count with
    | zero => exact .cons whole more
    | succ count => exact ih count

theorem Run.of_infix {items list : List Text} (inside : items <:+: list) (run : Run list) :
    Run items := by
  obtain ⟨front, back, rfl⟩ := inside
  have part := (run.drop front.length).take items.length
  rwa [append_assoc, drop_left, take_left] at part

/-! ### Writing them out -/

theorem bare_snoc (text : Text) (cell : Cell) :
    bare (text ++ [cell]) = if cell.isChar '\n' then text else text ++ [cell] := by
  have ends : Text.endsWith (text ++ [cell]) "\n" = cell.isChar '\n' := by
    change isSuffixOf [Cell.scalar '\n'] _ = _
    rw [isSuffixOf, reverse_append]
    exact (Bool.and_true _).trans (Bool.beq_comm ..)
  rw [bare, Text.dropEnding, ends]
  split
  · exact take_left' (by rw [length_append]; rfl)
  · rfl

private theorem bare_append {more : Text} (text : Text) (filled : more ≠ []) :
    bare (text ++ more) = text ++ bare more := by
  obtain ⟨front, cell, rfl⟩ := (eq_nil_or_concat' more).resolve_left filled
  rw [← append_assoc, bare_snoc, bare_snoc, append_assoc]
  exact (apply_ite (text ++ ·) ..).symm

theorem bare_line (line : Text) : bare (line ++ [.scalar '\n']) = line := bare_snoc ..

theorem bare_of_whole {line : Text} (whole : .scalar '\n' ∉ line) : bare line = line := by
  obtain rfl | ⟨front, cell, rfl⟩ := eq_nil_or_concat' line
  · rfl
  · rw [bare_snoc, if_neg]
    intro isBreak
    exact whole (mem_append_right _ (mem_singleton.mpr (eq_of_beq isBreak).symm))

/-- The lines that a piece is written with. An empty piece is written as one empty line. -/
def Piece.written (piece : Piece Text) : List Text :=
  if piece.items = [] then [[]] else piece.items.map bare

private theorem splitOn_flatten {items : List Text} (run : Run items) (filled : items ≠ []) :
    Text.splitOn '\n' (bare items.flatten) = items.map bare := by
  induction run with
  | nil => exact absurd rfl filled
  | last _ whole =>
    rw [flatten_singleton, bare_of_whole whole, Text.splitOn_of_absent whole, map_singleton,
      bare_of_whole whole]
  | @cons line rest whole more ih =>
    rw [map_cons, bare_line, flatten_cons]
    by_cases alone : rest = []
    · rw [alone, flatten_nil, append_nil, bare_line, Text.splitOn_of_absent whole]
      rfl
    · have textual : rest.flatten ≠ [] := by
        cases more with
        | nil => exact absurd rfl alone
        | last filled _ => rwa [flatten_singleton]
        | cons => rw [flatten_cons]; simp
      rw [bare_append _ textual, append_assoc, singleton_append, Text.splitOn_at,
        Text.splitOn_of_absent whole, ih alone]
      rfl

private theorem renderPiece_eq {piece : Piece Text} (run : Run piece.items) :
    renderPiece piece = piece.written.flatMap fun line =>
      piece.change.mark :: line ++ [.scalar '\n'] := by
  have splits : Text.splitOn '\n' (bare piece.items.flatten) = piece.written := by
    unfold Piece.written
    split
    · next none => rw [none]; rfl
    · next filled => exact splitOn_flatten run filled
  rw [← splits]
  rfl

theorem Run.whole {items} (run : Run items) {line} (member : line ∈ items.map bare) :
    .scalar '\n' ∉ line := by
  induction run with
  | nil => exact absurd member not_mem_nil
  | last _ whole =>
    rw [map_singleton, mem_singleton, bare_of_whole whole] at member
    exact member ▸ whole
  | cons whole _ ih =>
    rw [map_cons, mem_cons, bare_line] at member
    exact member.elim (· ▸ whole) ih

private theorem lines_line {line : Text} (whole : .scalar '\n' ∉ line) (rest : Text) :
    lines (line ++ .scalar '\n' :: rest) = (line ++ [.scalar '\n']) :: lines rest := by
  induction line with
  | nil => rfl
  | cons cell line ih =>
    rw [mem_cons, not_or] at whole
    rw [cons_append, lines, if_neg, ih whole.2]
    · rfl
    · exact fun isBreak => whole.1 (eq_of_beq isBreak).symm

private theorem linesOf_flatMap {texts : List Text} (whole : ∀ text ∈ texts, .scalar '\n' ∉ text) :
    linesOf (texts.flatMap (· ++ [.scalar '\n'])) = texts := by
  induction texts with
  | nil => rfl
  | cons text texts ih =>
    obtain ⟨here, later⟩ := forall_mem_cons.mp whole
    rw [flatMap_cons, append_assoc, singleton_append, linesOf, lines_line here, map_cons,
      bare_line]
    exact congrArg _ (ih later)

/-! ### Reading a diff back -/

theorem run_items {old new piece} (member : piece ∈ compute (lines old) (lines new)) :
    Run piece.items := by
  obtain ⟨oldSide, newSide⟩ := compute_spells (lines old) (lines new)
  obtain ⟨before, after, split⟩ := append_of_mem member
  rw [split] at oldSide newSide
  by_cases inserted : piece.change = .insert
  · refine Run.of_infix ⟨Script.new before, Script.new after, ?_⟩ (run_lines new)
    rw [← newSide]
    simp [inserted]
  · refine Run.of_infix ⟨Script.old before, Script.old after, ?_⟩ (run_lines old)
    rw [← oldSide]
    simp [inserted]

private theorem linesOf_lineDiff (old new : Text) :
    linesOf (lineDiff old new) = (compute (lines old) (lines new)).flatMap fun piece =>
      piece.written.map (piece.change.mark :: ·) := by
  have rendered : lineDiff old new = ((compute (lines old) (lines new)).flatMap fun piece =>
      piece.written.map (piece.change.mark :: ·)).flatMap (· ++ [.scalar '\n']) := by
    rw [flatMap_assoc]
    refine flatMap_congr fun piece member => ?_
    rw [renderPiece_eq (run_items member), flatMap_map]
  rw [rendered]
  refine linesOf_flatMap fun line member => ?_
  obtain ⟨piece, isPiece, member⟩ := mem_flatMap.mp member
  obtain ⟨line, isLine, rfl⟩ := mem_map.mp member
  rw [mem_cons, not_or]
  refine ⟨by cases piece.change <;> decide, ?_⟩
  unfold Piece.written at isLine
  split at isLine
  · rw [mem_singleton.mp isLine]
    exact not_mem_nil
  · exact (run_items isPiece).whole isLine

theorem side_lineDiff (marks : List Char) (old new : Text) :
    side marks (lineDiff old new) = (compute (lines old) (lines new)).flatMap fun piece =>
      if piece.change.mark ∈ marks.map Cell.scalar then piece.written else [] := by
  rw [side, linesOf_lineDiff, filterMap_flatMap]
  refine flatMap_congr fun piece _ => ?_
  rw [filterMap_map, Function.comp_def]
  dsimp only
  split
  · exact filterMap_some
  · exact filterMap_eq_nil_iff.mpr fun _ _ => rfl

theorem side_eq_iff {marks : List Char} {skipped old new items}
    (marked : ∀ change : Change, change.mark ∈ marks.map Cell.scalar ↔ change ≠ skipped)
    (spelt : ((compute (lines old) (lines new)).flatMap fun piece =>
      if piece.change = skipped then [] else piece.items) = items) :
    side marks (lineDiff old new) = items.map bare ↔
      ∀ piece ∈ compute (lines old) (lines new), piece.change ≠ skipped → piece.items ≠ [] := by
  rw [side_lineDiff, ← spelt, map_flatMap, flatMap_eq_iff]
  · refine forall₂_congr fun piece _ => ?_
    by_cases isSkipped : piece.change = skipped
    · simp [marked, isSkipped]
    · by_cases none : piece.items = [] <;> simp [marked, isSkipped, none, Piece.written]
  · intro piece _
    by_cases isSkipped : piece.change = skipped
    · simp [isSkipped]
    · by_cases none : piece.items = [] <;> simp [marked, isSkipped, none, Piece.written]

private theorem written_ne_nil (piece : Piece Text) : piece.written ≠ [] := by
  unfold Piece.written
  split
  · exact cons_ne_nil _ _
  · next filled => rwa [Ne, map_eq_nil_iff]

private theorem side_changed {old new : Text} (changed : old ≠ new) :
    side ['-', '+'] (lineDiff old new) ≠ [] := by
  intro none
  rw [side_lineDiff, flatMap_eq_nil_iff] at none
  have kept : ∀ piece ∈ compute (lines old) (lines new), piece.change = .keep := by
    intro piece member
    by_contra other
    have marked : piece.change.mark ∈ ['-', '+'].map Cell.scalar := by
      cases shape : piece.change <;> first | exact absurd shape other | decide
    have unwritten := none piece member
    rw [if_pos marked] at unwritten
    exact written_ne_nil piece unwritten
  obtain ⟨oldSide, newSide⟩ := compute_spells (lines old) (lines new)
  have same : lines old = lines new := by
    refine oldSide.symm.trans (.trans (flatMap_congr fun piece member => ?_) newSide)
    rw [kept piece member]
    rfl
  exact changed (by rw [← flatten_lines old, same, flatten_lines])

private theorem extend_error {entries types conflict}
    (refused : Descriptor.extend entries types = .error conflict) :
    ∃ existing later : Descriptor, existing.canonical ≠ later.canonical ∧
      conflict = existing.conflictWith later := by
  fun_induction Descriptor.extend entries types with
  | case1 => cases refused
  | case2 _ _ _ _ ih | case3 _ _ _ _ _ _ ih => exact ih refused
  | case4 _ descriptor _ existing _ differ =>
    exact ⟨existing, descriptor, differ, (Except.error.inj refused).symm⟩

/-- A side of a diff reads back as its text exactly if no piece on that side is empty. The script
itself always spells both texts, and the diff of a conflict always shows a change. -/
theorem lineDiff_sides_iff (old new : Text) :
    (side [' ', '-'] (lineDiff old new) = linesOf old ↔
      ∀ piece ∈ compute (lines old) (lines new), piece.change ≠ .insert → piece.items ≠ []) ∧
    (side [' ', '+'] (lineDiff old new) = linesOf new ↔
      ∀ piece ∈ compute (lines old) (lines new), piece.change ≠ .delete → piece.items ≠ []) ∧
    (compute (lines old) (lines new)).Spells (lines old) (lines new) ∧
    (∀ (registry : Registry) (batch : Batch) (conflict : Conflict),
      registry.merge batch = .error conflict → side ['-', '+'] conflict.diff ≠ []) := by
  have spells := compute_spells (lines old) (lines new)
  refine ⟨side_eq_iff ?_ spells.1, side_eq_iff ?_ spells.2, spells, ?_⟩
  · rintro (_ | _ | _) <;> decide
  · rintro (_ | _ | _) <;> decide
  intro registry batch conflict refused
  unfold Registry.merge at refused
  cases extended : Descriptor.extend registry.entries batch.types with
  | ok => rw [extended] at refused; cases refused
  | error =>
    rw [extended] at refused
    cases refused
    obtain ⟨existing, later, differ, rfl⟩ := extend_error extended
    exact side_changed differ

/-- The insertion that ends the script has no lines, and yet a mark is written for it. -/
theorem lineDiff_empty_insertion :
    let old : Text := "a\nb\nb\nb\na\na\na\na\na\n"
    let new : Text := "b\na\nb\na\nb\nb\nb\n"
    lineDiff old new = "+b\n+a\n+b\n a\n b\n b\n b\n-a\n-a\n-a\n-a\n-a\n+\n" ∧
      side [' ', '+'] (lineDiff old new) ≠ linesOf new := by
  refine ⟨by decide +kernel, ?_⟩
  rw [Ne, (lineDiff_sides_iff _ _).2.1]
  decide +kernel

end Avro.Diff
