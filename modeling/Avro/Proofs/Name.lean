import Avro.Schema.Basic
import Avro.Proofs.Json.Tidy

/-!
# Legal names

A legal simple name has no dot, so a full name falls apart into its namespace and its simple name.
-/

set_option autoImplicit false

open List

namespace Avro

structure FullName.Legal (name : FullName) : Prop where
  simple : Name.isLegal name.simple = true
  space : Name.isLegalSpace name.space = true

namespace Name

variable {name : Text}

theorem isPart_of_isStart {cell : Cell} (start : isStart cell = true) : isPart cell = true := by
  cases cell with
  | stray => cases start
  | scalar =>
    simp only [isStart, isPart, Char.isAlphanum, Bool.or_eq_true] at start ⊢
    exact start.imp .inl id

theorem isPart_of_isLegal (legal : isLegal name = true) : ∀ cell ∈ name, isPart cell = true := by
  cases name with
  | nil => exact forall_mem_nil _
  | cons =>
    rw [isLegal, Bool.and_eq_true, all_eq_true] at legal
    exact forall_mem_cons.mpr ⟨isPart_of_isStart legal.1, legal.2⟩

theorem clean_of_isLegal (legal : isLegal name = true) : name.Clean := by
  intro cell member
  have part := isPart_of_isLegal legal cell member
  cases cell with
  | scalar char => exact ⟨char, rfl⟩
  | stray => cases part

theorem splitLast?_eq_none {char : Char} {text : Text} (absent : .scalar char ∉ text) :
    Text.splitLast? char text = none := by
  induction text with
  | nil => rfl
  | cons cell _ ih =>
    rw [mem_cons, not_or] at absent
    have differs : cell.isChar char = false :=
      beq_false_of_ne fun same => absent.1 same.symm
    simp only [Text.splitLast?, ih absent.2, differs, Bool.false_eq_true, if_false]

theorem no_dot_of_isLegal (legal : isLegal name = true) : .scalar '.' ∉ name :=
  fun member => absurd (isPart_of_isLegal legal _ member) (by decide)

theorem split_simple (legal : isLegal name = true) (space : Text) :
    split name space = (space, name) := by
  rw [split, splitLast?_eq_none (no_dot_of_isLegal legal)]

theorem splitLast?_append {char : Char} {before after : Text} (absent : .scalar char ∉ after) :
    Text.splitLast? char (before ++ .scalar char :: after) = some (before, after) := by
  induction before with
  | nil =>
    have same : Cell.isChar (.scalar char) char = true := beq_self_eq_true _
    simp only [nil_append, Text.splitLast?, splitLast?_eq_none absent, same, if_true]
  | cons _ _ ih => simp only [cons_append, Text.splitLast?, ih]

theorem split_qualified {name : FullName} (legal : isLegal name.simple = true)
    (inside : name.space ≠ []) (space : Text) :
    split name.text space = (name.space, name.simple) := by
  have text : name.text = name.space ++ .scalar '.' :: name.simple := by
    rw [FullName.text, qualify, if_neg (by rwa [List.isEmpty_iff]), append_assoc]
    rfl
  rw [split, text, splitLast?_append (no_dot_of_isLegal legal)]

theorem mem_splitOn {char text cell} (member : cell ∈ text) (differs : cell ≠ .scalar char) :
    ∃ piece ∈ Text.splitOn char text, cell ∈ piece := by
  induction text with
  | nil => cases member
  | cons first _ ih =>
    rw [Text.splitOn]
    split
    · rename_i same
      rcases mem_cons.mp member with rfl | later
      · exact absurd (eq_of_beq same) differs
      · obtain ⟨piece, among, inside⟩ := ih later
        exact ⟨piece, mem_cons_of_mem _ among, inside⟩
    · split
      · rename_i none
        rcases mem_cons.mp member with rfl | later
        · exact ⟨[cell], mem_cons_self, mem_cons_self⟩
        · obtain ⟨piece, among, _⟩ := ih later
          rw [none] at among
          cases among
      · rename_i piece pieces some
        rcases mem_cons.mp member with rfl | later
        · exact ⟨cell :: piece, mem_cons_self, mem_cons_self⟩
        · obtain ⟨found, among, inside⟩ := ih later
          rw [some] at among
          rcases mem_cons.mp among with rfl | other
          · exact ⟨first :: found, mem_cons_self, mem_cons_of_mem _ inside⟩
          · exact ⟨found, mem_cons_of_mem _ other, inside⟩

theorem clean_of_isLegalSpace {space : Text} (legal : isLegalSpace space = true) :
    space.Clean := by
  intro cell member
  by_cases dot : cell = .scalar '.'
  · exact ⟨'.', dot⟩
  · rw [isLegalSpace, Bool.or_eq_true, List.isEmpty_iff, all_eq_true] at legal
    rcases legal with empty | legal
    · rw [empty] at member
      cases member
    · obtain ⟨piece, among, inside⟩ := mem_splitOn member dot
      exact clean_of_isLegal (legal piece among) cell inside

end Name

namespace FullName

theorem text_of_space_nil {name : FullName} (outside : name.space = []) :
    name.text = name.simple := by
  rw [text, Name.qualify, outside]
  rfl

theorem Legal.split_text {name : FullName} (legal : name.Legal) :
    Name.split name.text [] = (name.space, name.simple) := by
  by_cases outside : name.space = []
  · rw [text_of_space_nil outside, Name.split_simple legal.simple, outside]
  · exact Name.split_qualified legal.simple outside []

theorem Legal.eq_of_text {first second : FullName} (firstLegal : first.Legal)
    (secondLegal : second.Legal) (same : first.text = second.text) : first = second := by
  have parts : (first.space, first.simple) = (second.space, second.simple) := by
    rw [← firstLegal.split_text, ← secondLegal.split_text, same]
  cases first
  cases second
  cases parts
  rfl

end FullName

end Avro
