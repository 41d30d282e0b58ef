import Mathlib.Data.List.Forall2
import Avro.Proofs.Idl.Insertion

/-!
# Written values inline

The text of a value, in either layout, is lexed to one token for each of its atoms, and these tokens
are read inline as the value.
-/

set_option autoImplicit false

open List

namespace Avro.Idl

open Json

variable {value : Json}

/-- A value without stray bytes and repeated keys, whose numbers can be read. -/
inductive Inlinable : Json → Prop
  | null : Inlinable .null
  | bool (value : Bool) : Inlinable (.bool value)
  | str {text : Text} (clean : text.Clean) : Inlinable (.str text)
  | num {literal} (isLiteral : IsLiteral literal)
      (readable : (Number.readDouble? literal).isSome = true) : Inlinable (.num literal)
  | arr {items} (each : ∀ item ∈ items, Inlinable item) : Inlinable (.arr items)
  | obj {members : Members} (clean : ∀ member ∈ members, member.1.Clean)
      (distinct : (members.map Prod.fst).Nodup) (each : ∀ member ∈ members, Inlinable member.2) :
      Inlinable (.obj members)

theorem Inlinable.plain (inlinable : Inlinable value) : Json.Plain value := by
  induction inlinable with
  | null => exact .null
  | bool value => exact .bool value
  | str clean => exact .str clean
  | num isLiteral => exact .num isLiteral
  | arr _ each => exact .arr each
  | obj clean distinct _ each => exact .obj clean distinct each

/-! ## From the text to its tokens -/

def kindOf : Atom → TokenKind
  | .mark _ => .punctuation
  | .word _ => .identifier
  | .str _ => .string
  | .num _ => .number

def textOf : Atom → Text
  | .mark char => [.scalar char]
  | .word word => word.text
  | .str text => text
  | .num literal => literal

/-- A token that an atom is lexed to. -/
structure Token.Stands (token : Token) (atom : Atom) : Prop where
  kind : token.kind = kindOf atom
  text : token.text = textOf atom
  unquoted : token.quoted = false

abbrev Stand (atoms : List Atom) (tokens : List Token) : Prop :=
  List.Forall₂ (fun atom token => token.Stands atom) atoms tokens

/-- A text starts with the text of an atom and goes on with the rest. -/
def LexesAs (atom : Atom) (rest text : Text) : Prop :=
  ∃ first inner length, text = first :: inner ++ rest ∧
    Reads first inner rest ⟨kindOf atom, textOf atom, length, false⟩

section Atoms

variable {rest : Text}

private theorem lexes_mark {char : Char} (isMark : (markJson? char).isSome = true) :
    LexesAs (.mark char) rest (.scalar char :: rest) := by
  unfold markJson? at isMark
  split at isMark
  case h_7 => cases isMark
  all_goals exact ⟨_, [], 1, rfl, .mark rfl⟩

theorem lexes_letters {word : Json.Word} (first : Char) (letters : Text)
    (text : word.text = .scalar first :: letters)
    (starts : isNumberStart (.scalar first) = false ∧ isIdentifierStart (.scalar first) = true)
    (inside : ∀ cell ∈ letters, isIdentifierPart cell = true) (ends : Ends rest) :
    LexesAs (.word word) rest (word.text ++ rest) := by
  have reads : Reads (.scalar first) letters rest _ :=
    .identifier starts.1 starts.2 inside fun cell later same => (ends cell later same).2
  rw [← text] at reads
  rw [text]
  exact ⟨_, letters, _, rfl, reads⟩

private theorem lexes_word (word : Json.Word) (ends : Ends rest) :
    LexesAs (.word word) rest (word.text ++ rest) := by
  cases word with
  | true => exact lexes_letters 't' "rue" rfl (by decide) (by decide) ends
  | false => exact lexes_letters 'f' "alse" rfl (by decide) (by decide) ends
  | null => exact lexes_letters 'n' "ull" rfl (by decide) (by decide) ends

private theorem lexes_str (text : Text) :
    LexesAs (.str text.sanitize) rest (writeString text ++ rest) := by
  obtain ⟨quoted, _, apart⟩ := quoted_written text
  rw [writeString_append]
  exact ⟨_, _, _, rfl, .string rfl quoted apart⟩

private theorem lexes_num {literal : Text} (isLiteral : IsLiteral literal) (ends : Ends rest)
    (more : literal ≠ "-") : LexesAs (.num literal) rest (literal ++ rest) := by
  obtain @⟨byte, digits, starts, inside⟩ := isLiteral
  have start : ∀ code < 256, startsNumber (.ofNat code) = true →
      isNumberStart (asciiCell (.ofNat code)) = true := by decide +kernel
  have here := start byte.toNat byte.toNat_lt
  rw [UInt8.ofNat_toNat] at here
  exact ⟨_, digits, _, rfl,
    .number (here starts) inside (fun cell later same => (ends cell later same).1) more⟩

theorem lexes_spelled {text atoms} (spelled : Spelled (· ≠ "-") text atoms) (position : Position)
    (doc : Text) :
    ∃ tokens last, readTokens position doc text = .ok (tokens, last) ∧ last.kind = .endOfFile ∧
      Stand atoms tokens := by
  -- each atom is lexed at its place; what follows it is lexed by the induction hypothesis
  have step {text rest : Text} {atom : Atom} {atoms : List Atom} (lexes : LexesAs atom rest text)
      (later : ∀ position doc, ∃ tokens last, readTokens position doc rest = .ok (tokens, last) ∧
        last.kind = .endOfFile ∧ Stand atoms tokens)
      (position : Position) (doc : Text) :
      ∃ tokens last, readTokens position doc text = .ok (tokens, last) ∧ last.kind = .endOfFile ∧
        Stand (atom :: atoms) tokens := by
    obtain ⟨first, inner, _, rfl, reads⟩ := lexes
    obtain ⟨tokens, last, read, ends, others⟩ := later (position.past (first :: inner)) []
    exact ⟨_, last, by rw [reads.readTokens_eq, read, ok_map], ends, .cons ⟨rfl, rfl, rfl⟩ others⟩
  induction spelled generalizing position doc with
  | nil => exact ⟨[], _, by rw [readTokens], rfl, .nil⟩
  | blank isBlank _ ih =>
    rcases isBlank with rfl | rfl
    all_goals
      obtain ⟨tokens, last, read, stand⟩ := ih (position.advance _) doc
      refine ⟨tokens, last, ?_, stand⟩
      rw [readTokens.eq_def]
      exact (if_pos rfl).trans read
  | mark isMark _ ih => exact step (lexes_mark isMark) ih position doc
  | word word ends _ ih => exact step (lexes_word word ends) ih position doc
  | str text _ ih => exact step (lexes_str text) ih position doc
  | num isLiteral notMinus ends _ ih =>
    exact step (lexes_num isLiteral ends notMinus) ih position doc

end Atoms

/-! ## From the tokens to the value -/

/-- The tokens of a value are read as the value, whatever follows. -/
def ReadsAtoms (value : Json) : Prop :=
  ∀ (last : Token) {more : List Atom} {tokens : List Token}, Stand (value.atoms more) tokens →
    ∃ rest, Gives (readJson last tokens) value rest ∧ Stand more rest

section Parsing

variable {last token : Token} {tokens : List Token} {more : List Atom} {char : Char}
  {members : Members} {items : List Json}

theorem Token.Stands.isMark (stands : token.Stands (.mark char)) : token.isMark char = true :=
  isMark_iff.mpr ⟨stands.kind, stands.text⟩

theorem Token.Stands.noMark {other : Char} (stands : token.Stands (.mark char))
    (differ : char ≠ other) : token.isMark other = false := by
  simp [Token.isMark, stands.text, textOf, differ]

private theorem open_of_readJson {result} (read : readJson last (token :: tokens) = .ok result) :
    token.isMark ']' = false := by
  apply Bool.eq_false_iff.mpr
  intro closes
  obtain ⟨kind, text⟩ := isMark_iff.mp closes
  simp [readJson, kind, text, Token.isKeyword, Token.isMark] at read

theorem gives_items {first passed item rest} (read : readJson last tokens = .ok first)
    (same : first.value = item) (pass : passSeparator ']' last first.rest = .ok passed)
    (others : Gives (readItems last passed.rest) items rest) :
    Gives (readItems last tokens) (item :: items) rest := by
  obtain ⟨later, readLater, rfl, rfl⟩ := others
  subst same
  cases tokens with
  | nil =>
    rw [readJson] at read
    cases read
  | cons =>
    refine ⟨((first.andPass passed).andThen later).give (first.value :: later.value), ?_, rfl, rfl⟩
    rw [readItems, open_of_readJson read, if_neg Bool.false_ne_true]
    exact bind_ok.mpr ⟨first, read, bind_ok.mpr ⟨passed, pass, bind_ok.mpr ⟨later, readLater, rfl⟩⟩⟩

private theorem gives_noItems (closing : token.Stands (.mark ']')) :
    Gives (readItems last (token :: tokens)) [] tokens :=
  ⟨.next [], (readItems.eq_def ..).trans (if_pos closing.isMark), rfl, rfl⟩

theorem passSeparator_close (stands : token.Stands (.mark char)) (differ : char ≠ ',') :
    passSeparator char last (token :: tokens) = .ok (.stay ()) := by
  rw [passSeparator, stands.noMark differ, if_neg Bool.false_ne_true, if_pos stands.isMark]

private theorem readItems_atoms (each : ∀ item ∈ items, ReadsAtoms item)
    (stand : Stand (itemAtoms items (.mark ']' :: more)) tokens) :
    ∃ passed, passSeparator ']' last tokens = .ok passed ∧
      ∃ rest, Gives (readItems last passed.rest) items rest ∧ Stand more rest := by
  induction items generalizing tokens with
  | nil =>
    rw [itemAtoms] at stand
    obtain ⟨_, rest, closing, behind, rfl⟩ := forall₂_cons_left_iff.mp stand
    exact ⟨.stay (), passSeparator_close closing (by decide), rest, gives_noItems closing, behind⟩
  | cons _ _ ih =>
    obtain ⟨here, others⟩ := forall_mem_cons.mp each
    rw [itemAtoms] at stand
    obtain ⟨_, _, comma, inside, rfl⟩ := forall₂_cons_left_iff.mp stand
    obtain ⟨_, ⟨first, read, same, rfl⟩, behind⟩ := here last inside
    obtain ⟨passed, pass, rest, gives, after⟩ := ih others behind
    exact ⟨.next (), if_pos comma.isMark, rest, gives_items read same pass gives, after⟩

theorem readsAtoms_array (each : ∀ item ∈ items, ReadsAtoms item) : ReadsAtoms (.arr items) := by
  intro last more tokens stand
  have step {token : Token} {inside rest : List Token} (opening : token.Stands (.mark '['))
      (gives : Gives (readItems last inside) items rest) :
      Gives (readJson last (token :: inside)) (.arr items) rest := by
    obtain ⟨result, read, rfl, rfl⟩ := gives
    refine ⟨(result.give (.arr result.value)).later, ?_, rfl, rfl⟩
    simp [readJson, opening.kind, kindOf, Token.isKeyword, opening.isMark, read]
  cases items with
  | nil =>
    rw [atoms] at stand
    obtain ⟨_, _, opening, inside, rfl⟩ := forall₂_cons_left_iff.mp stand
    obtain ⟨_, rest, closing, behind, rfl⟩ := forall₂_cons_left_iff.mp inside
    exact ⟨rest, step opening (gives_noItems closing), behind⟩
  | cons =>
    obtain ⟨here, others⟩ := forall_mem_cons.mp each
    rw [atoms] at stand
    obtain ⟨_, _, opening, inside, rfl⟩ := forall₂_cons_left_iff.mp stand
    obtain ⟨_, ⟨first, read, same, rfl⟩, behind⟩ := here last inside
    obtain ⟨passed, pass, rest, gives, after⟩ := readItems_atoms others behind
    exact ⟨rest, step opening (gives_items read same pass gives), after⟩

theorem gives_members {before : Members} {key} {name colon : Token} {first passed rest}
    (named : name.Stands (.str key)) (marked : colon.Stands (.mark ':'))
    (fresh : before.has key = false) (read : readJson last tokens = .ok first)
    (same : first.value = value) (pass : passSeparator '\x7d' last first.rest = .ok passed)
    (others : Gives (readMembers last (before ++ [(key, value)]) passed.rest) members rest) :
    Gives (readMembers last before (name :: colon :: tokens)) members rest := by
  obtain ⟨later, readLater, rfl, rfl⟩ := others
  have isString : name.kind = .string := named.kind
  obtain rfl : name.text = key := named.text
  subst same
  have inside : ¬name.isMark '\x7d' = true := by simp [Token.isMark, isString]
  let start : Consumed (name :: colon :: tokens) Token := .next name
  let mark : Consumed (colon :: tokens) Token := .next colon
  refine ⟨((((start.andThen mark).andThen first).andPass passed).andThen later), ?_, rfl, rfl⟩
  rw [readMembers]
  refine (if_neg inside).trans (bind_ok.mpr ⟨start, if_pos (decide_eq_true isString), ?_⟩)
  refine bind_ok.mpr ⟨mark, if_pos marked.isMark, bind_ok.mpr ⟨first, read, ?_⟩⟩
  refine bind_ok.mpr ⟨(), if_pos (congrArg not fresh), ?_⟩
  exact bind_ok.mpr ⟨passed, pass, bind_ok.mpr ⟨later, readLater, rfl⟩⟩

private theorem gives_noMembers {before : Members} (closing : token.Stands (.mark '\x7d')) :
    Gives (readMembers last before (token :: tokens)) before tokens :=
  ⟨.next before, (readMembers.eq_def ..).trans (if_pos closing.isMark), rfl, rfl⟩

private theorem fresh_of_nodup {before : Members} {key : Text}
    (distinct : ((before ++ (key, value) :: members).map Prod.fst).Nodup) :
    before.has key = false := by
  rw [Members.has_eq_false_iff]
  rw [map_append, map_cons, nodup_append] at distinct
  exact fun member => distinct.2.2 key member key mem_cons_self rfl

theorem readMembers_atoms {before : Members} (each : ∀ member ∈ members, ReadsAtoms member.2)
    (distinct : ((before ++ members).map Prod.fst).Nodup)
    (stand : Stand (memberAtoms members (.mark '\x7d' :: more)) tokens) :
    ∃ passed, passSeparator '\x7d' last tokens = .ok passed ∧
      ∃ rest, Gives (readMembers last before passed.rest) (before ++ members) rest ∧
        Stand more rest := by
  induction members generalizing before tokens with
  | nil =>
    rw [memberAtoms] at stand
    obtain ⟨_, rest, closing, behind, rfl⟩ := forall₂_cons_left_iff.mp stand
    rw [append_nil]
    exact ⟨.stay (), passSeparator_close closing (by decide), rest, gives_noMembers closing, behind⟩
  | cons member members ih =>
    obtain ⟨key, value⟩ := member
    obtain ⟨here, others⟩ := forall_mem_cons.mp each
    have split : before ++ (key, value) :: members = before ++ [(key, value)] ++ members := by
      rw [append_assoc, singleton_append]
    have fresh := fresh_of_nodup distinct
    rw [split] at distinct ⊢
    rw [memberAtoms] at stand
    obtain ⟨_, _, comma, inside, rfl⟩ := forall₂_cons_left_iff.mp stand
    obtain ⟨_, _, named, keyed, rfl⟩ := forall₂_cons_left_iff.mp inside
    obtain ⟨_, _, marked, valued, rfl⟩ := forall₂_cons_left_iff.mp keyed
    obtain ⟨_, ⟨first, read, same, rfl⟩, behind⟩ := here last valued
    obtain ⟨passed, pass, rest, gives, after⟩ := ih others distinct behind
    exact ⟨.next (), if_pos comma.isMark, rest,
      gives_members named marked fresh read same pass gives, after⟩

private theorem readsAtoms_object (each : ∀ member ∈ members, ReadsAtoms member.2)
    (distinct : (members.map Prod.fst).Nodup) : ReadsAtoms (.obj members) := by
  intro last more tokens stand
  have step {token : Token} {inside rest : List Token} (opening : token.Stands (.mark '\x7b'))
      (gives : Gives (readMembers last [] inside) members rest) :
      Gives (readJson last (token :: inside)) (.obj members) rest := by
    obtain ⟨result, read, rfl, rfl⟩ := gives
    refine ⟨(result.give (.obj result.value)).later, ?_, rfl, rfl⟩
    simp [readJson, opening.kind, kindOf, Token.isKeyword, opening.isMark,
      opening.noMark (show '\x7b' ≠ '[' by decide), read]
  cases members with
  | nil =>
    rw [atoms] at stand
    obtain ⟨_, _, opening, inside, rfl⟩ := forall₂_cons_left_iff.mp stand
    obtain ⟨_, rest, closing, behind, rfl⟩ := forall₂_cons_left_iff.mp inside
    exact ⟨rest, step opening (gives_noMembers closing), behind⟩
  | cons member =>
    obtain ⟨key, value⟩ := member
    obtain ⟨here, others⟩ := forall_mem_cons.mp each
    rw [atoms] at stand
    obtain ⟨_, _, opening, inside, rfl⟩ := forall₂_cons_left_iff.mp stand
    obtain ⟨_, _, named, keyed, rfl⟩ := forall₂_cons_left_iff.mp inside
    obtain ⟨_, _, marked, valued, rfl⟩ := forall₂_cons_left_iff.mp keyed
    obtain ⟨_, ⟨first, read, same, rfl⟩, behind⟩ := here last valued
    obtain ⟨passed, pass, rest, gives, after⟩ :=
      @readMembers_atoms last _ _ _ [(key, value)] others distinct behind
    exact ⟨rest, step opening (gives_members named marked rfl read same pass gives), after⟩

theorem readsAtoms_one (atom : Atom) (atoms : ∀ more, value.atoms more = atom :: more)
    (reads : ∀ (last token : Token) (rest : List Token), token.Stands atom →
      readJson last (token :: rest) = .ok (.next value)) : ReadsAtoms value := by
  intro last more tokens stand
  rw [atoms] at stand
  obtain ⟨token, rest, stands, behind, rfl⟩ := forall₂_cons_left_iff.mp stand
  exact ⟨rest, ⟨_, reads last token rest stands, rfl, rfl⟩, behind⟩

private theorem Inlinable.readsAtoms (inlinable : Inlinable value) : ReadsAtoms value := by
  induction inlinable with
  | null =>
    refine readsAtoms_one (.word .null) (fun _ => rfl) fun last token rest stands => ?_
    obtain ⟨kind, text, unquoted⟩ := stands
    simp [readJson, Token.isKeyword, kind, text, unquoted, kindOf, textOf, Json.Word.text]
  | bool value =>
    cases value
    all_goals
      refine readsAtoms_one (.word _) (fun _ => rfl) fun last token rest stands => ?_
      obtain ⟨kind, text, unquoted⟩ := stands
      simp [readJson, Token.isKeyword, kind, text, unquoted, kindOf, textOf, Json.Word.text]
  | @str text =>
    refine readsAtoms_one (.str text) (fun _ => rfl) fun last token rest stands => ?_
    simp [readJson, stands.kind, kindOf, stands.text, textOf]
  | @num literal _ readable =>
    refine readsAtoms_one (.num literal) (fun _ => rfl) fun last token rest stands => ?_
    simp [readJson, stands.kind, kindOf, stands.text, textOf, readable]
  | arr _ each => exact readsAtoms_array each
  | obj _ distinct _ each => exact readsAtoms_object each distinct

end Parsing

/-! ## Both together -/

/-- A minus alone is a literal of no number, and refused where the numbers of a source are lexed. -/
theorem Inlinable.spells (inlinable : Inlinable value) : Json.Spells (· ≠ "-") value := by
  induction inlinable with
  | null => exact spells_null
  | bool value => exact spells_bool value
  | str => exact spells_str _
  | num isLiteral readable =>
    refine spells_num isLiteral ?_
    rintro rfl
    exact absurd readable (by decide)
  | arr _ each => exact spells_array each
  | obj _ _ _ each => exact spells_object each

/-- The text of a value, in either layout, is lexed as a source, and read inline as the value up to
the end of the source. -/
theorem readJson_render {value : Json} (inlinable : Inlinable value) (layout : Layout) :
    ∃ tokens last, lex (render layout value) = .ok (tokens, last) ∧ last.kind = .endOfFile ∧
      Gives (readJson last tokens) value [] := by
  have spelled := inlinable.spells layout 0 follows_nil
  rw [inlinable.plain.asRead_eq] at spelled
  obtain ⟨tokens, last, lexed, ends, stand⟩ := lexes_spelled spelled .start []
  obtain ⟨rest, gives, behind⟩ := inlinable.readsAtoms last stand
  cases forall₂_nil_left_iff.mp behind
  exact ⟨tokens, last, lexed, ends, gives⟩

/-- A key with a quote and a line separator, a number with an exponent and an empty array. -/
theorem readJson_render_nested :
    let value : Json := .obj [("b\"\u2028", .arr [.num "-1.5e+3", .str "\t😀"]), ("a", .arr [])]
    Inlinable value ∧ ∃ tokens last, lex (render .spacious value) = .ok (tokens, last) ∧
      last.kind = .endOfFile ∧ Gives (readJson last tokens) value [] := by
  intro value
  have number : Inlinable (.num "-1.5e+3") :=
    .num (isLiteral_minus (by decide)) (by decide +kernel)
  have items := forall_mem_cons.mpr
    ⟨number, forall_mem_singleton.mpr (.str (Text.clean_ofString "\t😀"))⟩
  have inlinable : Inlinable value := by
    refine .obj ?_ (by decide) ?_
    · exact forall_mem_cons.mpr ⟨Text.clean_ofString _,
        forall_mem_singleton.mpr (Text.clean_ofString _)⟩
    · exact forall_mem_cons.mpr ⟨.arr items, forall_mem_singleton.mpr (.arr nofun)⟩
  exact ⟨inlinable, readJson_render inlinable .spacious⟩

end Avro.Idl
