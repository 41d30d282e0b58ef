import Avro.Proofs.FileTree.Evolves

/-!
# Names at the end of paths

Cleaning a path and following it keep the end of its last name.
-/

set_option autoImplicit false

open List

namespace Avro

namespace Text

variable {char : Char} {ending : Text}

theorem splitOn_of_absent (absent : .scalar char ∉ ending) : splitOn char ending = [ending] := by
  induction ending with
  | nil => rfl
  | cons cell _ ih =>
    rw [mem_cons, not_or] at absent
    have differs : cell.isChar char = false := beq_eq_false_iff_ne.mpr (Ne.symm absent.1)
    rw [splitOn, differs, ih absent.2]
    rfl

private theorem splitOn_ne_nil (char : Char) (text : Text) : splitOn char text ≠ [] := by
  cases text with
  | nil => exact cons_ne_nil _ _
  | cons =>
    rw [splitOn]
    split
    · exact cons_ne_nil _ _
    · split <;> exact cons_ne_nil _ _

theorem splitOn_at (char : Char) (text ending : Text) :
    splitOn char (text ++ .scalar char :: ending) = splitOn char text ++ splitOn char ending := by
  have here : Cell.isChar (.scalar char) char = true := beq_self_eq_true _
  induction text with
  | nil => simp only [nil_append, splitOn, here, if_true, singleton_append]
  | cons _ rest ih =>
    rw [cons_append, splitOn, splitOn, ih]
    split
    · rfl
    · obtain ⟨piece, pieces, split⟩ := exists_cons_of_ne_nil (splitOn_ne_nil char rest)
      rw [split]
      rfl

private theorem splitOn_append (text : Text) (absent : .scalar char ∉ ending) :
    ∃ pieces last, splitOn char (text ++ ending) = pieces ++ [last ++ ending] := by
  induction text with
  | nil => exact ⟨[], [], splitOn_of_absent absent⟩
  | cons cell _ ih =>
    obtain ⟨pieces, last, split⟩ := ih
    rw [cons_append, splitOn, split]
    cases cell.isChar char with
    | true => exact ⟨[] :: pieces, last, rfl⟩
    | false =>
      cases pieces with
      | nil => exact ⟨[], cell :: last, rfl⟩
      | cons piece pieces => exact ⟨(cell :: piece) :: pieces, last, rfl⟩

theorem suffix_join (separator : Text) (texts : List Text) (last : Text) :
    last <:+ join separator (texts ++ [last]) := by
  induction texts with
  | nil => simp [join]
  | cons _ _ ih =>
    rw [join, cons_append, intercalate_cons_of_ne_nil (by simp)]
    exact ih.trans (suffix_append _ _)

end Text

namespace Path

variable {ending path name : Text}

/-- An ending that lies within one part of a path and makes a name of it. -/
structure NameEnding (ending : Text) : Prop where
  inPart : .scalar '/' ∉ ending
  naming : ∃ cell ∈ ending, cell ≠ .scalar '.'

namespace NameEnding

theorem proper (naming : NameEnding ending) (ends : ending <:+ name) :
    name ≠ [] ∧ name ≠ "." ∧ name ≠ ".." := by
  obtain ⟨cell, member, differs⟩ := naming.naming
  have inside := ends.subset member
  refine ⟨?_, ?_, ?_⟩
  · rintro rfl
    cases inside
  · rintro rfl
    rw [show (Text.ofString ".") = [.scalar '.'] by decide] at inside
    exact differs (mem_singleton.mp inside)
  · rintro rfl
    rw [show (Text.ofString "..") = [.scalar '.', .scalar '.'] by decide] at inside
    simp [differs] at inside

theorem splitOn (naming : NameEnding ending) (ends : ending <:+ path) :
    ∃ parts name, Text.splitOn '/' path = parts ++ [name] ∧ ending <:+ name := by
  obtain ⟨start, rfl⟩ := ends
  obtain ⟨parts, name, split⟩ := Text.splitOn_append start naming.inPart
  exact ⟨parts, name ++ ending, split, suffix_append _ _⟩

theorem clean (naming : NameEnding ending) (ends : ending <:+ path) :
    ending <:+ Path.clean path := by
  obtain ⟨pieces, name, split, ended⟩ := naming.splitOn ends
  obtain ⟨full, noDot, noDots⟩ := naming.proper ended
  have kept : ∃ before, parts path = before ++ [name] := by
    refine ⟨(pieces.foldl (push (isAbsolute path)) []).reverse, ?_⟩
    have pushed : ∀ before, push (isAbsolute path) before name = name :: before := by
      intro before
      simp [push, full, noDot, noDots]
    rw [parts, split, foldl_append, foldl_cons, foldl_nil, pushed, reverse_cons]
  obtain ⟨before, listed⟩ := kept
  have joined : name <:+ Text.join "/" (parts path) := by
    rw [listed]
    exact Text.suffix_join _ _ _
  have nonempty : (Text.join "/" (parts path)).isEmpty = false := by
    rw [isEmpty_eq_false_iff]
    intro empty
    rw [empty] at joined
    exact full (eq_nil_of_suffix_nil joined)
  unfold Path.clean
  dsimp only
  split
  · exact (ended.trans joined).trans (suffix_append _ _)
  · rw [nonempty]
    exact ended.trans joined

theorem join (naming : NameEnding ending) (directory : Text) (ends : ending <:+ name) :
    ending <:+ Path.join [directory, name] := by
  have full : name.isEmpty = false := isEmpty_eq_false_iff.mpr (naming.proper ends).1
  unfold Path.join
  cases empty : directory.isEmpty with
  | true =>
    rw [dropWhile_cons_of_pos empty, dropWhile_cons_of_neg (by simp [full])]
    exact naming.clean (ends.trans (Text.suffix_join _ [] _))
  | false =>
    rw [dropWhile_cons_of_neg (by simp [empty])]
    exact naming.clean (ends.trans (Text.suffix_join _ [directory] _))

end NameEnding

end Path

theorem FileTree.Locates.ending {tree : FileTree} {path ending place}
    (leads : tree.Locates path place) (naming : Path.NameEnding ending) (ends : ending <:+ path) :
    ∃ name, place.getLast? = some name ∧ ending <:+ name := by
  obtain ⟨above, name, found, rfl⟩ := leads
  obtain ⟨_, last, _⟩ := target_ok_iff.mp found
  obtain ⟨parts, piece, split, ended⟩ := naming.splitOn ends
  have full : piece.isEmpty = false := isEmpty_eq_false_iff.mpr (naming.proper ended).1
  have same : trimmedParts path = parts ++ [piece] := by
    simp [trimmedParts, split, full]
  rw [same, getLast?_concat] at last
  cases last
  exact ⟨name, getLast?_concat, ended⟩

end Avro
