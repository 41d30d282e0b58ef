import Avro.Proofs.Idl.Spelling

/-!
# Lexemes

Which lexeme stands at the start of a text. Nothing of it depends on where the text stands.
-/

set_option autoImplicit false

open List

namespace Avro.Idl

variable {text : Text}

theorem splitFirst?_iff {char : Char} {before after : Text} :
    Text.splitFirst? char text = some (before, after) ↔
      text = before ++ .scalar char :: after ∧ Cell.scalar char ∉ before := by
  induction text generalizing before with
  | nil => simp [Text.splitFirst?]
  | cons _ _ ih =>
    rw [Text.splitFirst?]
    split
    · rename_i isChar
      obtain rfl := isChar_iff.mp isChar
      cases before with
      | nil => simp
      | cons => simp; grind
    · rename_i other
      rw [isChar_iff] at other
      cases before with
      | nil => simp [other]
      | cons => simp [ih]; grind

theorem splitAtText?_ok {pattern before after : Text}
    (found : Text.splitAtText? pattern text = some (before, after)) :
    text = before ++ (pattern ++ after) := by
  induction text generalizing before after with
  | nil =>
    rw [Text.splitAtText?] at found
    split at found
    · rename_i empty
      cases found
      rw [List.isEmpty_iff.mp empty]
      rfl
    · cases found
  | cons _ _ ih =>
    rw [Text.splitAtText?] at found
    split at found
    · rename_i starts
      cases found
      obtain ⟨after, whole⟩ := isPrefixOf_iff_prefix.mp starts
      rw [← whole, drop_left]
      rfl
    · obtain ⟨⟨_, _⟩, later, same⟩ := Option.map_eq_some_iff.mp found
      cases same
      rw [ih later]
      rfl

theorem takeWhile_of_ends {test : Cell → Bool} {front rest : Text}
    (inside : ∀ cell ∈ front, test cell = true)
    (ends : ∀ cell later, rest = cell :: later → test cell = false) :
    (front ++ rest).takeWhile test = front := by
  rw [takeWhile_append_of_pos inside]
  cases rest with
  | nil => rw [takeWhile_nil, append_nil]
  | cons cell later =>
    rw [takeWhile_cons_of_neg (Bool.eq_false_iff.mp (ends cell later rfl)), append_nil]

theorem exists_takeWhile (test : Cell → Bool) (text : Text) :
    ∃ front rest, text = front ++ rest ∧ text.takeWhile test = front ∧
      (∀ cell ∈ front, test cell = true) ∧
      ∀ cell later, rest = cell :: later → test cell = false := by
  refine ⟨_, _, takeWhile_append_dropWhile.symm, rfl,
    all_eq_true.mp all_takeWhile, fun cell later same => ?_⟩
  have failing := head?_dropWhile_not test text
  rw [same] at failing
  exact failing

/-- A lexeme, from its first cell and the others up to the rest of the text. -/
inductive Reads (first : Cell) : Text → Text → Lexeme → Prop
  | string {inner rest content} (opens : first = .scalar '"') (quoted : Quoted inner)
      (spelled : (pieces inner).map Piece.alone = content ++ [.scalar '"']) :
      Reads first inner rest ⟨.string, content, inner.length + 1, false⟩
  | name {name rest} (opens : first = .scalar '\x60') (inside : .scalar '\x60' ∉ name) :
      Reads first (name ++ [.scalar '\x60']) rest ⟨.identifier, name, name.length + 2, true⟩
  | number {digits rest : Text} (starts : isNumberStart first = true)
      (inside : ∀ cell ∈ digits, Json.isNumberCell cell = true)
      (ends : ∀ cell later, rest = cell :: later → Json.isNumberCell cell = false)
      (more : first :: digits ≠ "-") :
      Reads first digits rest ⟨.number, first :: digits, digits.length + 1, false⟩
  | identifier {name rest : Text} (noNumber : isNumberStart first = false)
      (starts : isIdentifierStart first = true)
      (inside : ∀ cell ∈ name, isIdentifierPart cell = true)
      (ends : ∀ cell later, rest = cell :: later → isIdentifierPart cell = false) :
      Reads first name rest ⟨.identifier, first :: name, name.length + 1, false⟩
  | mark {rest} (isMark : isMarkCell first = true) :
      Reads first [] rest ⟨.punctuation, [first], 1, false⟩

section Lexeme

variable {position : Position} {first : Cell} {inner rest : Text} {lexeme : Lexeme}

theorem Reads.length (reads : Reads first inner rest lexeme) :
    lexeme.length = inner.length + 1 := by
  cases reads <;> simp

theorem readLexeme_ok (read : readLexeme position first text = .ok lexeme) :
    ∃ inner rest, text = inner ++ rest ∧ Reads first inner rest lexeme := by
  unfold readLexeme at read
  split at read
  · rename_i quote
    obtain ⟨⟨content, next, left⟩, inside, same⟩ := map_ok.mp read
    obtain ⟨inner, rfl, quoted, spelled⟩ := readQuoted_ok inside
    cases same
    have length : 1 + (inner ++ left).length - left.length = inner.length + 1 := by
      rw [length_append]
      omega
    dsimp only
    rw [length]
    exact ⟨inner, left, rfl, .string (isChar_iff.mp quote) quoted spelled⟩
  split at read
  · rename_i tick
    split at read
    · rename_i found
      cases read
      obtain ⟨rfl, inside⟩ := splitFirst?_iff.mp found
      exact ⟨_, _, append_cons .., .name (isChar_iff.mp tick) inside⟩
    · cases read
  split at read
  · rename_i starts
    dsimp only at read
    obtain ⟨digits, rest, rfl, taken, inside, ends⟩ := exists_takeWhile Json.isNumberCell text
    rw [taken] at read
    split at read
    · cases read
    · rename_i more
      cases read
      exact ⟨digits, rest, rfl, .number starts inside ends more⟩
  rename_i noNumber
  split at read
  · rename_i starts
    obtain ⟨name, rest, rfl, taken, inside, ends⟩ := exists_takeWhile isIdentifierPart text
    rw [taken] at read
    cases read
    exact ⟨name, rest, rfl, .identifier (Bool.eq_false_iff.mpr noNumber) starts inside ends⟩
  split at read
  · rename_i isMark
    cases read
    exact ⟨[], text, rfl, .mark isMark⟩
  · cases read

theorem Reads.read (reads : Reads first inner rest lexeme) (position : Position) :
    readLexeme position first (inner ++ rest) = .ok lexeme := by
  -- the cell that starts a lexeme starts no lexeme of another kind
  have other {test : Cell → Bool} (passes : test first = true) (char : Char)
      (refuses : test (.scalar char) = false) : ¬first.isChar char = true := by
    intro isChar
    rw [isChar_iff.mp isChar, refuses] at passes
    cases passes
  cases reads with
  | @string _ _ content opens quoted spelled =>
    subst opens
    obtain ⟨found, after, read, alike⟩ :=
      @Quoted.read inner position (position.advance (.scalar '"')) quoted rest
    obtain rfl : content = found := append_cancel_right (spelled.symm.trans alike)
    have length : 1 + (inner ++ rest).length - rest.length = inner.length + 1 := by
      rw [length_append]
      omega
    rw [readLexeme, if_pos (isChar_iff.mpr rfl), read]
    dsimp only [Except.map]
    rw [length]
  | name opens inside =>
    subst opens
    rw [readLexeme, if_neg (by decide), if_pos (isChar_iff.mpr rfl),
      splitFirst?_iff.mpr ⟨(append_cons ..).symm, inside⟩]
  | number starts inside ends more =>
    rw [readLexeme, if_neg (other starts '"' rfl), if_neg (other starts '\x60' rfl), if_pos starts,
      takeWhile_of_ends inside ends]
    exact if_neg more
  | identifier noNumber starts inside ends =>
    rw [readLexeme, if_neg (other starts '"' (by decide)), if_neg (other starts '\x60' (by decide)),
      noNumber, if_neg Bool.false_ne_true, if_pos starts, takeWhile_of_ends inside ends]
    rfl
  | mark isMark =>
    have only : marks.all (fun char => !isNumberStart (.scalar char) &&
        !isIdentifierStart (.scalar char)) = true := by decide +kernel
    cases first with
    | stray => cases isMark
    | scalar char =>
      obtain ⟨noNumber, noWord⟩ := Bool.and_eq_true_iff.mp
        (all_eq_true.mp only char (contains_iff_mem.mp isMark))
      rw [Bool.not_eq_true'] at noNumber noWord
      rw [readLexeme, if_neg (other isMark '"' (by decide)), if_neg (other isMark '\x60' (by decide)),
        noNumber, if_neg Bool.false_ne_true, noWord, if_neg Bool.false_ne_true, if_pos isMark]

end Lexeme

end Avro.Idl
