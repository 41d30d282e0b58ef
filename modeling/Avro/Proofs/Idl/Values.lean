import Avro.Proofs.Idl.Lexing
import Avro.Proofs.Json.Tidy
import Avro.Idl.Stream
import Avro.Proofs.Number.Integer

/-!
# Inline values of valid sources

What is read from the tokens of a valid source has no stray bytes, and an inline object repeats no
key.
-/

set_option autoImplicit false

open List

namespace Avro

/-! ## Tokens -/

namespace Text

theorem Clean.subset {text part : Text} (clean : text.Clean) (subset : part ⊆ text) : part.Clean :=
  fun cell member => clean cell (subset member)

theorem Clean.append {first second : Text} (clean : first.Clean) (also : second.Clean) :
    Text.Clean (first ++ second) :=
  forall_mem_append.mpr ⟨clean, also⟩

theorem subset_trim (text : Text) : trim text ⊆ text := by
  intro cell member
  have inStart := (dropWhile_sublist _).subset (mem_reverse.mp member)
  exact (dropWhile_sublist _).subset (mem_reverse.mp inStart)

private theorem clean_splitOn {char : Char} {text : Text} (clean : text.Clean) :
    ∀ piece ∈ splitOn char text, piece.Clean := by
  induction text with
  | nil => exact forall_mem_singleton.mpr clean_nil
  | cons _ _ ih =>
    obtain ⟨here, later⟩ := forall_mem_cons.mp clean
    rw [splitOn]
    split
    · exact forall_mem_cons.mpr ⟨clean_nil, ih later⟩
    · split
      · exact forall_mem_singleton.mpr (forall_mem_singleton.mpr here)
      · rename_i piece pieces same
        have others := ih later
        rw [same] at others
        obtain ⟨first, others⟩ := forall_mem_cons.mp others
        exact forall_mem_cons.mpr ⟨forall_mem_cons.mpr ⟨here, first⟩, others⟩

private theorem clean_join {separator : Text} {texts : List Text} (clean : separator.Clean)
    (each : ∀ text ∈ texts, text.Clean) : (join separator texts).Clean := by
  induction texts with
  | nil => exact clean_nil
  | cons _ rest ih =>
    obtain ⟨first, others⟩ := forall_mem_cons.mp each
    cases rest with
    | nil => exact first.append clean_nil
    | cons => exact first.append (clean.append (ih others))

end Text

namespace Idl

private theorem clean_cleanLine {line : Text} (clean : line.Clean) : (cleanLine line).Clean := by
  have trimmed := clean.subset (Text.subset_trim line)
  refine Text.Clean.subset ?_ (Text.subset_trim _)
  split
  · exact trimmed.subset (drop_subset 1 _)
  · exact trimmed

private theorem clean_cleanDoc {body : Text} (clean : body.Clean) : (cleanDoc body).Clean := by
  refine Text.Clean.subset (Text.clean_join (Text.clean_ofString "\n") ?_) (Text.subset_trim _)
  intro text member
  obtain ⟨line, among, rfl⟩ := mem_map.mp member
  exact clean_cleanLine (Text.clean_splitOn clean line among)

private theorem clean_docOfComment? {body doc : Text} (clean : body.Clean)
    (found : docOfComment? body = some doc) : doc.Clean := by
  unfold docOfComment? at found
  split at found
  · cases found
    exact clean_cleanDoc (clean.subset (subset_cons_self _ _))
  · cases found

structure Token.Sound (token : Token) : Prop where
  text : token.text.Clean
  doc : token.doc.Clean
  number : token.kind = .number → Json.IsLiteral token.text

theorem isLiteral_number {first : Cell} {digits : Text} (starts : isNumberStart first = true)
    (inside : ∀ cell ∈ digits, Json.isNumberCell cell = true) :
    Json.IsLiteral (first :: digits) := by
  cases first with
  | stray => cases starts
  | scalar =>
    rw [isNumberStart, Bool.or_eq_true, beq_iff_eq] at starts
    rcases starts with rfl | digit
    · exact Json.isLiteral_minus inside
    · exact Json.isLiteral_digit digit inside

private theorem clean_alone (parts : List Piece) : Text.Clean (parts.map Piece.alone) := by
  intro cell member
  obtain ⟨piece, _, rfl⟩ := mem_map.mp member
  cases piece <;> exact ⟨_, rfl⟩

theorem Reads.sound {first inner rest lexeme} (reads : Reads first inner rest lexeme)
    (clean : Text.Clean (first :: inner)) :
    lexeme.text.Clean ∧ (lexeme.kind = .number → Json.IsLiteral lexeme.text) := by
  cases reads with
  | string _ _ spelled =>
    have whole := clean_alone (pieces inner)
    rw [spelled] at whole
    exact ⟨whole.subset (subset_append_left _ _), nofun⟩
  | name =>
    exact ⟨clean.subset (subset_cons_of_subset _ (subset_append_left _ _)), nofun⟩
  | number starts inside => exact ⟨clean, fun _ => isLiteral_number starts inside⟩
  | identifier | mark => exact ⟨clean, nofun⟩

theorem Gap.clean {doc gap rest after : Text} (passes : Gap doc gap rest after)
    (clean : Text.Clean (gap ++ rest)) (cleanDoc : doc.Clean) : after.Clean := by
  cases passes with
  | blank | line => exact cleanDoc
  | @block _ body _ _ _ closes split =>
    rw [← split, splitAtText?_ok closes] at clean
    cases comment : docOfComment? body with
    | none => exact cleanDoc
    | some =>
      refine clean_docOfComment? (clean.subset ?_) comment
      exact fun cell member => by simp [member]

theorem Run.sound {position doc text tokens last} (run : Run position doc text tokens last)
    (clean : text.Clean) (cleanDoc : doc.Clean) : (∀ token ∈ tokens, token.Sound) ∧ last.Sound := by
  induction run with
  | finish =>
    exact ⟨forall_mem_nil _, ⟨Text.clean_nil, cleanDoc, fun isNumber => nomatch isNumber⟩⟩
  | gap passes _ ih =>
    exact ih (clean.subset (subset_append_right _ _)) (passes.clean clean cleanDoc)
  | lexeme reads _ ih =>
    obtain ⟨each, ending⟩ := ih (clean.subset (subset_append_right _ _)) Text.clean_nil
    obtain ⟨text, number⟩ := reads.sound (clean.subset (subset_append_left _ _))
    exact ⟨forall_mem_cons.mpr ⟨⟨text, cleanDoc, number⟩, each⟩, ending⟩

theorem lex_sound {source : Text} {tokens last} (valid : source.Clean)
    (read : lex source = .ok (tokens, last)) : (∀ token ∈ tokens, token.Sound) ∧ last.Sound :=
  (run_of_readTokens read).sound valid Text.clean_nil

open Json (Plain)

/-! ## Streams -/

def AllSound (tokens : List Token) : Prop := ∀ token ∈ tokens, token.Sound

section Streams

variable {α : Type} {tokens : List Token} {last : Token}

theorem AllSound.part {part : List Token} (sound : AllSound tokens) (within : part <:+ tokens) :
    AllSound part :=
  fun token member => sound token (within.subset member)

theorem AllSound.behind (sound : AllSound tokens) (result : Consumed tokens α) :
    AllSound result.rest := sound.part result.suffix

theorem AllSound.past (sound : AllSound tokens) (result : Passed tokens α) :
    AllSound result.rest := sound.part result.suffix

theorem AllSound.tail {token : Token} (sound : AllSound (token :: tokens)) : AllSound tokens :=
  (forall_mem_cons.mp sound).2

theorem sound_peek (sound : AllSound tokens) (ending : last.Sound) : (peek last tokens).Sound := by
  cases tokens with
  | nil => exact ending
  | cons token => exact sound token mem_cons_self

theorem require_ok {condition fault done} (allowed : require condition fault = .ok done) :
    condition = true := by
  unfold require at allowed
  split at allowed
  · assumption
  · cases allowed

theorem accept_ok {test problem result} (read : accept test problem last tokens = .ok result) :
    result.value ∈ tokens ∧ test result.value = true := by
  cases tokens with
  | nil => cases read
  | cons =>
    rw [accept] at read
    split at read
    · rename_i passed
      cases read
      exact ⟨mem_cons_self, passed⟩
    · cases read

theorem AllSound.accepted (sound : AllSound tokens) {test problem result}
    (read : accept test problem last tokens = .ok result) : result.value.Sound :=
  sound _ (accept_ok read).1

end Streams

/-! ## Values -/

mutual

theorem plain_readJson {last tokens result} (sound : AllSound tokens)
    (read : readJson last tokens = .ok result) : Plain result.value := by
  cases tokens with
  | nil =>
    rw [readJson] at read
    cases read
  | cons token =>
    have here := sound token mem_cons_self
    rw [readJson] at read
    split at read
    · cases read
      exact .str here.text
    split at read
    · rename_i isNumber
      split at read
      · cases read
        exact .num (here.number isNumber)
      · cases read
    split at read
    · cases read
      exact .bool true
    split at read
    · cases read
      exact .bool false
    split at read
    · cases read
      exact .null
    split at read
    · obtain ⟨items, listed, same⟩ := map_ok.mp read
      cases same
      exact .arr (plain_readItems sound.tail listed)
    split at read
    · obtain ⟨members, listed, same⟩ := map_ok.mp read
      cases same
      exact plain_readMembers sound.tail Json.tidy_emptyObject listed
    · cases read
termination_by (tokens.length, 0)

theorem plain_readItems {last tokens result} (sound : AllSound tokens)
    (read : readItems last tokens = .ok result) : ∀ item ∈ result.value, Plain item := by
  cases tokens with
  | nil =>
    rw [readItems] at read
    cases read
  | cons =>
    rw [readItems] at read
    split at read
    · cases read
      exact forall_mem_nil _
    · obtain ⟨item, first, read⟩ := bind_ok.mp read
      obtain ⟨next, _, read⟩ := bind_ok.mp read
      obtain ⟨items, others, read⟩ := bind_ok.mp read
      cases read
      have shorter := (item.andPass next).shorter
      have later := (sound.behind item).past next
      exact forall_mem_cons.mpr ⟨plain_readJson sound first, plain_readItems later others⟩
termination_by (tokens.length, 1)
decreasing_by
  · subst_vars
    exact Prod.Lex.right _ Nat.zero_lt_one
  · subst_vars
    exact Prod.Lex.left _ _ shorter

theorem plain_readMembers {last before tokens result} (sound : AllSound tokens)
    (plain : Plain (.obj before)) (read : readMembers last before tokens = .ok result) :
    Plain (.obj result.value) := by
  cases tokens with
  | nil =>
    rw [readMembers] at read
    cases read
  | cons =>
    rw [readMembers] at read
    split at read
    · cases read
      exact plain
    · obtain ⟨key, named, read⟩ := bind_ok.mp read
      obtain ⟨colon, _, read⟩ := bind_ok.mp read
      obtain ⟨value, valued, read⟩ := bind_ok.mp read
      obtain ⟨_, allowed, read⟩ := bind_ok.mp read
      obtain ⟨next, _, read⟩ := bind_ok.mp read
      obtain ⟨members, others, read⟩ := bind_ok.mp read
      cases read
      have shorter := (((key.andThen colon).andThen value).andPass next).shorter
      have shorterValue := (key.andThen colon).shorter
      have inside := (sound.behind key).behind colon
      have fresh := Members.has_eq_false_iff.mp (by simpa using require_ok allowed)
      have longer := plain.addMember (sound.accepted named).text fresh
        (plain_readJson inside valued)
      have whole := plain_readMembers ((inside.behind value).past next) longer others
      exact whole
termination_by (tokens.length, 1)
decreasing_by
  · subst_vars
    exact Prod.Lex.left _ _ shorterValue
  · subst_vars
    exact Prod.Lex.left _ _ shorter

end

theorem plain_readAnnotationsAfter {last before tokens result} (sound : AllSound tokens)
    (plain : Plain (.obj before)) (read : readAnnotationsAfter last before tokens = .ok result) :
    Plain (.obj result.value) := by
  cases tokens with
  | nil =>
    rw [readAnnotationsAfter] at read
    cases read
    exact plain
  | cons =>
    rw [readAnnotationsAfter] at read
    split at read
    · obtain ⟨name, named, read⟩ := bind_ok.mp read
      obtain ⟨opening, _, read⟩ := bind_ok.mp read
      obtain ⟨value, valued, read⟩ := bind_ok.mp read
      obtain ⟨closing, _, read⟩ := bind_ok.mp read
      obtain ⟨_, allowed, read⟩ := bind_ok.mp read
      obtain ⟨all, others, read⟩ := bind_ok.mp read
      cases read
      have shorter := (((name.andThen opening).andThen value).andThen closing).shorter
      have inside := (sound.tail.behind name).behind opening
      have fresh := Members.has_eq_false_iff.mp (by simpa using require_ok allowed)
      have longer := plain.addMember (sound.tail.accepted named).text fresh
        (plain_readJson inside valued)
      have whole := plain_readAnnotationsAfter ((inside.behind value).behind closing) longer others
      exact whole
    · cases read
      exact plain
termination_by tokens.length
decreasing_by
  subst_vars
  exact Nat.lt_succ_of_lt shorter

theorem plain_readAnnotations {last tokens result} (sound : AllSound tokens)
    (read : readAnnotations last tokens = .ok result) : Plain (.obj result.value) :=
  plain_readAnnotationsAfter sound Json.tidy_emptyObject read

theorem le_maxInt64_of_readInteger {last tokens result}
    (read : readInteger last tokens = .ok result) : (result.value : Int) ≤ Number.maxInt64 := by
  obtain ⟨token, _, read⟩ := bind_ok.mp read
  split at read
  · rename_i number
    cases read
    exact Number.le_maxInt64_of_readInt64 number
  · cases read

end Idl

end Avro
