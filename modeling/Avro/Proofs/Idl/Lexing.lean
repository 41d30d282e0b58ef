import Avro.Proofs.Idl.Lexemes

/-!
# Runs of the lexer

A run passes over gaps, which are blanks and comments, and reads lexemes until the source ends.
-/

set_option autoImplicit false

open List

namespace Avro.Idl

open Text

variable {position : Position} {doc after gap text inner rest : Text} {tokens : List Token}
  {last : Token} {first cell : Cell} {lexeme : Lexeme}

/-! ## Blanks -/

def lexicalTests : List (Cell → Bool) :=
  [Json.isNumberCell, isIdentifierPart, isNumberStart, isIdentifierStart, isMarkCell]

/-- A blank is part of no number and of no identifier, and starts no lexeme. -/
theorem lexicalTest_blank {test : Cell → Bool} (lexical : test ∈ lexicalTests)
    (isBlank : cell.isBlank = true) : test cell = false := by
  have table : blankRanges.all (fun range =>
      (List.range' range.1 (range.2 + 1 - range.1)).all fun code =>
        lexicalTests.all fun test => !test (.scalar (.ofNat code))) = true := by decide +kernel
  cases cell with
  | stray => cases isBlank
  | scalar char =>
    obtain ⟨range, among, inside⟩ := any_eq_true.mp isBlank
    simp only [Bool.and_eq_true, decide_eq_true_eq] at inside
    have codes := all_eq_true.mp (all_eq_true.mp table range among) char.toNat
      (mem_range'_1.mpr (by omega))
    rw [Char.ofNat_toNat] at codes
    exact Bool.not_eq_true' _ ▸ all_eq_true.mp codes test lexical

private theorem Reads.notBlank (reads : Reads first inner rest lexeme) : first.isBlank = false := by
  have passes {test : Cell → Bool} (lexical : test ∈ lexicalTests) (starts : test first = true) :
      first.isBlank = false := by
    apply Bool.eq_false_iff.mpr
    intro isBlank
    rw [lexicalTest_blank lexical isBlank] at starts
    cases starts
  cases reads with
  | string opens | name opens => exact opens ▸ rfl
  | number starts => exact passes (by simp [lexicalTests]) starts
  | identifier _ starts => exact passes (by simp [lexicalTests]) starts
  | mark isMark => exact passes (by simp [lexicalTests]) isMark

/-- A lexeme is read again before another text, which may start as the rest did or with a blank. -/
theorem Reads.before (reads : Reads first inner rest lexeme) {other : Text}
    (follows : lexeme.kind = .punctuation ∨ ∀ cell later, other = cell :: later →
      cell.isBlank = true ∨ ∃ behind, rest = cell :: behind) : Reads first inner other lexeme := by
  have stops {test : Cell → Bool} (lexical : test ∈ lexicalTests)
      (ends : ∀ cell later, rest = cell :: later → test cell = false)
      (follows : ∀ cell later, other = cell :: later →
        cell.isBlank = true ∨ ∃ behind, rest = cell :: behind) :
      ∀ cell later, other = cell :: later → test cell = false := by
    intro cell later same
    rcases follows cell later same with isBlank | ⟨behind, starts⟩
    · exact lexicalTest_blank lexical isBlank
    · exact ends cell behind starts
  cases reads with
  | string opens quoted spelled => exact .string opens quoted spelled
  | name opens inside => exact .name opens inside
  | number starts inside ends more =>
    exact .number starts inside (stops (by simp [lexicalTests]) ends (follows.resolve_left nofun)) more
  | identifier noNumber starts inside ends =>
    exact .identifier noNumber starts inside
      (stops (by simp [lexicalTests]) ends (follows.resolve_left nofun))
  | mark isMark => exact .mark isMark

private theorem Reads.notSlash (reads : Reads first inner rest lexeme) : first ≠ .scalar '/' := by
  rintro rfl
  have refused : readLexeme .start (.scalar '/') (inner ++ rest) =
    .error ⟨.start, .badCharacter (.scalar '/')⟩ := rfl
  rw [reads.read] at refused
  cases refused

/-! ## Gaps -/

/-- A text that the lexer passes over before a rest. The last index is the documentation that waits
behind it. A comment ends where its cells count for the length of its bytes. -/
inductive Gap (doc : Text) : Text → Text → Text → Prop
  | blank {cell : Cell} {rest} (isBlank : cell.isBlank = true) : Gap doc [cell] rest doc
  | line {body rest : Text} (inside : ∀ cell ∈ body, cell.isChar '\n' = false)
      (ends : ∀ cell later, rest = cell :: later → cell.isChar '\n' = true) :
      Gap doc (.scalar '/' :: .scalar '/' :: body) rest doc
  | block {text body behind gap rest : Text}
      (closes : splitAtText? "*/" text = some (body, behind))
      (split : .scalar '/' :: .scalar '*' :: text = gap ++ rest)
      (counts : ∀ position : Position,
        skipCounted (byteLength body + 4) position (gap ++ rest) = (position.past gap, rest)) :
      Gap doc gap rest ((docOfComment? body).getD doc)

private theorem skipCounted_split (count : Nat) (text : Text) : ∃ front rest, text = front ++ rest ∧
    ∀ position, skipCounted count position (front ++ rest) = (position.past front, rest) := by
  induction text generalizing count with
  | nil => exact ⟨[], [], rfl, fun _ => by cases count <;> rfl⟩
  | cons cell text ih =>
    cases count with
    | zero => exact ⟨[], cell :: text, rfl, fun _ => rfl⟩
    | succ count =>
      obtain ⟨front, rest, rfl, skips⟩ := ih (count + 1 - commentWidth cell)
      exact ⟨cell :: front, rest, rfl, fun position => skips (position.advance cell)⟩

theorem Gap.readTokens_eq (passes : Gap doc gap rest after) (position : Position) :
    readTokens position doc (gap ++ rest) = readTokens (position.past gap) after rest := by
  cases passes with
  | blank isBlank => exact (readTokens.eq_def ..).trans (if_pos isBlank)
  | @line body _ inside ends =>
    have taken : (Cell.scalar '/' :: (body ++ rest)).takeWhile (fun cell => !cell.isChar '\n') =
        .scalar '/' :: body := by
      refine @takeWhile_of_ends _ (.scalar '/' :: body) _ ?_ fun cell later same => ?_
      · exact forall_mem_cons.mpr ⟨rfl, fun cell member => by rw [inside cell member]; rfl⟩
      · rw [ends cell later same]
        rfl
    have opens : startsWith (.scalar '/' :: .scalar '/' :: (body ++ rest)) "//" = true := rfl
    rw [cons_append, cons_append, readTokens, if_neg (by decide), if_pos opens]
    dsimp only
    rw [taken, length_cons, drop_succ_cons, drop_left]
    rfl
  | @block text body _ _ _ closes split counts =>
    have skips := counts position
    have noLine : ¬startsWith (.scalar '/' :: .scalar '*' :: text) "//" = true :=
      Bool.false_ne_true
    have opens : startsWith (.scalar '/' :: .scalar '*' :: text) "/*" = true := rfl
    rw [← split] at skips ⊢
    rw [readTokens, if_neg (by decide), if_neg noLine, if_pos opens, drop_succ_cons,
      drop_zero, closes]
    dsimp only
    rw [show skipCounted (byteLength body + 3) (position.advance (.scalar '/')) _ = _ from skips]

private theorem Gap.withDoc (passes : Gap doc gap rest after) (other : Text) :
    ∃ after', Gap other gap rest after' ∧ (other = doc → after' = after) := by
  cases passes with
  | blank isBlank => exact ⟨other, .blank isBlank, id⟩
  | line inside ends => exact ⟨other, .line inside ends, id⟩
  | block closes split counts =>
    exact ⟨_, .block closes split counts, fun same => by rw [same]⟩

/-! ## Runs -/

def Lexeme.token (lexeme : Lexeme) (raw doc : Text) (position : Position) : Token where
  kind := lexeme.kind
  text := lexeme.text
  raw := raw
  doc := doc
  quoted := lexeme.quoted
  position := position

/-- The lexer, which stands at a position before a text, reads tokens up to the end. -/
inductive Run : Position → Text → Text → List Token → Token → Prop
  | finish {position : Position} {doc : Text} : Run position doc [] [] (endToken position doc)
  | gap {position : Position} {doc gap rest after tokens last} (passes : Gap doc gap rest after)
      (run : Run (position.past gap) after rest tokens last) :
      Run position doc (gap ++ rest) tokens last
  | lexeme {position : Position} {doc inner rest first lexeme tokens last}
      (reads : Reads first inner rest lexeme)
      (run : Run (position.past (first :: inner)) [] rest tokens last) :
      Run position doc (first :: inner ++ rest)
        (lexeme.token (first :: inner) doc position :: tokens) last

theorem Reads.readTokens_eq (reads : Reads first inner rest lexeme) (position : Position)
    (doc : Text) : readTokens position doc (first :: inner ++ rest) =
      (readTokens (position.past (first :: inner)) [] rest).map fun (tokens, last) =>
        (lexeme.token (first :: inner) doc position :: tokens, last) := by
  have noComment (mark : Cell) :
      ¬startsWith (first :: (inner ++ rest)) [.scalar '/', mark] = true := by
    intro starts
    obtain ⟨_, same⟩ := isPrefixOf_iff_prefix.mp starts
    exact reads.notSlash (List.cons.inj same).1.symm
  have noLine : ¬startsWith (first :: (inner ++ rest)) "//" = true := noComment _
  have noBlock : ¬startsWith (first :: (inner ++ rest)) "/*" = true := noComment _
  rw [cons_append, readTokens, reads.notBlank, if_neg Bool.false_ne_true, if_neg noLine,
    if_neg noBlock, reads.read]
  dsimp only
  rw [reads.length, take_succ_cons, take_left, Nat.add_sub_cancel, drop_left]
  rfl

theorem Run.read (run : Run position doc text tokens last) :
    readTokens position doc text = .ok (tokens, last) := by
  induction run with
  | finish => rw [readTokens]
  | gap passes _ ih => rw [passes.readTokens_eq, ih]
  | lexeme reads _ ih => rw [reads.readTokens_eq, ih, ok_map]

theorem startsWith_pair {start second : Cell}
    (starts : startsWith (first :: text) [start, second] = true) :
    first = start ∧ ∃ later, text = second :: later := by
  obtain ⟨later, same⟩ := isPrefixOf_iff_prefix.mp starts
  cases same
  exact ⟨rfl, later, rfl⟩

private theorem starts_of_readTokens
    (read : readTokens position doc (first :: text) = .ok (tokens, last)) :
    ∃ inner rest, text = inner ++ rest ∧
      ((∃ after, Gap doc (first :: inner) rest after) ∨ ∃ lexeme, Reads first inner rest lexeme) := by
  rw [readTokens] at read
  split at read
  · rename_i isBlank
    exact ⟨[], text, rfl, .inl ⟨doc, .blank isBlank⟩⟩
  split at read
  · rename_i line
    obtain ⟨rfl, later, rfl⟩ := @startsWith_pair text first (.scalar '/') (.scalar '/') line
    obtain ⟨body, rest, rfl, _, inside, ends⟩ :=
      exists_takeWhile (fun cell => !cell.isChar '\n') later
    exact ⟨_, rest, rfl, .inl ⟨doc, .line (by simpa using inside) (by simpa using ends)⟩⟩
  split at read
  · rename_i block
    obtain ⟨rfl, later, rfl⟩ := @startsWith_pair text first (.scalar '/') (.scalar '*') block
    split at read
    · cases read
    · rename_i body behind closes
      obtain ⟨inner, rest, split, counts⟩ :=
        skipCounted_split (byteLength body + 3) (.scalar '*' :: later)
      exact ⟨inner, rest, split, .inl ⟨_, .block closes (congrArg _ split) fun position =>
        counts (position.advance (.scalar '/'))⟩⟩
  split at read
  · cases read
  · rename_i lexeme found
    obtain ⟨inner, rest, split, reads⟩ := readLexeme_ok found
    exact ⟨inner, rest, split, .inr ⟨lexeme, reads⟩⟩

theorem run_of_readTokens (read : readTokens position doc text = .ok (tokens, last)) :
    Run position doc text tokens last := by
  induction size : text.length using Nat.strongRecOn generalizing position doc text tokens with
  | _ bound ih =>
    cases text with
    | nil =>
      rw [readTokens] at read
      cases read
      exact .finish
    | cons =>
      obtain ⟨inner, rest, rfl, starts⟩ := starts_of_readTokens read
      have shorter : rest.length < bound := by
        rw [← size, length_cons, length_append]
        omega
      rw [← cons_append] at read ⊢
      rcases starts with ⟨after, passes⟩ | ⟨lexeme, reads⟩
      · rw [passes.readTokens_eq] at read
        exact .gap passes (ih _ shorter read rfl)
      · rw [reads.readTokens_eq] at read
        obtain ⟨_, continued, same⟩ := map_ok.mp read
        cases same
        exact .lexeme reads (ih _ shorter continued rfl)

/-! ## What tokens are, apart from their places -/

/-- A token without its place and its documentation. -/
def Token.content (token : Token) : Token := { token with doc := [], position := .start }

/-- The tokens of a text are the same at other places and behind other documentation, which only
the first of them takes. -/
theorem Run.elsewhere (run : Run position doc text tokens last) (position' : Position)
    (doc' : Text) : ∃ others last', Run position' doc' text others last' ∧
      (others ++ [last']).map Token.content = (tokens ++ [last]).map Token.content ∧
      (doc' = doc → others.map Token.doc = tokens.map Token.doc) := by
  induction run generalizing position' doc' with
  | finish => exact ⟨[], _, .finish, rfl, fun _ => rfl⟩
  | @gap _ _ gap _ _ _ _ passes _ ih =>
    obtain ⟨after', passes', documents⟩ := passes.withDoc doc'
    obtain ⟨others, last', run', same, docs⟩ := ih (position'.past gap) after'
    exact ⟨others, last', .gap passes' run', same, docs ∘ documents⟩
  | @lexeme _ _ inner _ first lexeme _ _ reads _ ih =>
    obtain ⟨others, last', run', same, docs⟩ := ih (position'.past (first :: inner)) []
    refine ⟨_, last', .lexeme reads run', congrArg (lexeme.token (first :: inner) [] .start :: ·) same,
      fun documents => ?_⟩
    rw [map_cons, map_cons, docs rfl]
    exact congrArg (· :: _) documents

end Avro.Idl
