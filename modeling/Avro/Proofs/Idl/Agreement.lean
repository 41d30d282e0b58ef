import Avro.Proofs.Idl.Grammar
import Avro.Proofs.Idl.Values
import Avro.Proofs.Json.Acceptance

/-!
# Two readers of values

A value may stand in a document or inline in a source. Where both readers accept a text they see the
same tokens, up to the strings in which a surrogate pair is spelled.
-/

set_option autoImplicit false

open List

namespace Avro.Idl

open Json Text

variable {tokens : List Token} {last : Token} {text : Text} {json : List Json.Token}

/-! ## Tokens of values -/

def wordJson? (word : Text) : Option (List Json.Token) :=
  if word = "true" then some [.bool true]
  else if word = "false" then some [.bool false]
  else if word = "null" then some [.null]
  else none

/-- The tokens of a document that a token of a source stands for, if it may stand in a value. -/
def Token.asJson? (token : Token) : Option (List Json.Token) :=
  match token.kind with
  | .string => some [.str token.text]
  | .number => some [.num token.text]
  | .identifier => if token.quoted then none else wordJson? token.text
  | .punctuation =>
    match token.text with
    | [.scalar mark] => markJson? mark
    | _ => none
  | .endOfFile => none

def Token.asJson (token : Token) : List Json.Token := token.asJson?.getD []

/-- Some tokens stand for tokens of a document, and some are left behind them. -/
inductive Spells : List Token → List Token → List Json.Token → Prop
  | nil (rest : List Token) : Spells rest rest []
  | cons {token : Token} {tokens rest here later} (stands : token.asJson? = some here)
      (follows : Spells tokens rest later) : Spells (token :: tokens) rest (here ++ later)

namespace Spells

variable {tokens middle rest : List Token} {token : Token} {first second json : List Json.Token}

theorem trans (before : Spells tokens middle first) (after : Spells middle rest second) :
    Spells tokens rest (first ++ second) := by
  induction before with
  | nil => exact after
  | cons stands _ ih =>
    rw [append_assoc]
    exact .cons stands (ih after)

theorem whole (spelled : Spells tokens rest json) (nothing : rest = []) :
    (∀ token ∈ tokens, token.asJson?.isSome = true) ∧
      json = tokens.flatMap Token.asJson := by
  induction spelled with
  | nil =>
    rw [nothing]
    exact ⟨forall_mem_nil _, rfl⟩
  | cons stands _ ih =>
    obtain ⟨each, same⟩ := ih nothing
    refine ⟨forall_mem_cons.mpr ⟨Option.isSome_iff_exists.mpr ⟨_, stands⟩, each⟩, ?_⟩
    rw [flatMap_cons, Token.asJson, stands, ← same]
    rfl

theorem one (stands : token.asJson? = some json) : Spells (token :: rest) rest json := by
  have spelled := cons stands (.nil rest)
  rwa [append_nil] at spelled

end Spells

section Marks

variable {token : Token}

theorem asJson?_of_mark {mark : Char} (isMark : token.isMark mark = true) :
    token.asJson? = markJson? mark := by
  obtain ⟨kind, text⟩ := isMark_iff.mp isMark
  simp only [Token.asJson?, kind, text]

theorem asJson?_of_word {word : Text} (isWord : token.isKeyword word = true) :
    token.asJson? = wordJson? word := by
  obtain ⟨kind, unquoted, text⟩ := isKeyword_iff.mp isWord
  simp only [Token.asJson?, kind, unquoted, text, Bool.false_eq_true, if_false]

theorem asJson?_of_string (isString : token.kind = .string) :
    token.asJson? = some [.str token.text] := by
  simp only [Token.asJson?, isString]

private theorem asJson?_of_number (isNumber : token.kind = .number) :
    token.asJson? = some [.num token.text] := by
  simp only [Token.asJson?, isNumber]

theorem asJson?_of_separator {closing result}
    (read : passSeparator closing last tokens = .ok result) : Spells tokens result.rest [] := by
  cases tokens with
  | nil => cases read
  | cons =>
    rw [passSeparator] at read
    split at read
    · rename_i isMark
      cases read
      exact .one (asJson?_of_mark isMark)
    · split at read
      · cases read
        exact .nil _
      · cases read

theorem Spells.of_next {Is rest} (next : Next Is tokens rest)
    (stands : ∀ {token}, Is token → token.asJson? = some json) : Spells tokens rest json := by
  obtain ⟨holds⟩ := next
  exact .one (stands holds)

private theorem asJson?_of_acceptMark {mark result} (means : markJson? mark = some json)
    (read : acceptMark mark last tokens = .ok result) : Spells tokens result.rest json :=
  .of_next (mark_of_accept read) fun isMark => (asJson?_of_mark isMark).trans means

private theorem asJson?_of_acceptString {result} (read : acceptString last tokens = .ok result) :
    Spells tokens result.rest [.str result.value.text] :=
  .of_next (next_of_accept read) fun ⟨same, isString⟩ =>
    same ▸ asJson?_of_string (of_decide_eq_true isString)

end Marks

/-! ## Reading a value -/

mutual

theorem readJson_spells {last tokens result} (read : readJson last tokens = .ok result) :
    Spells tokens result.rest result.value.tokens ∧ Keyed result.value := by
  cases tokens with
  | nil =>
    rw [readJson] at read
    cases read
  | cons =>
    rw [readJson] at read
    split at read
    · rename_i isString
      cases read
      exact ⟨.one (asJson?_of_string isString), .str _⟩
    split at read
    · rename_i isNumber
      split at read
      · cases read
        exact ⟨.one (asJson?_of_number isNumber), .num _⟩
      · cases read
    split at read
    · rename_i isTrue
      cases read
      exact ⟨.one (asJson?_of_word isTrue), .bool true⟩
    split at read
    · rename_i isFalse
      cases read
      exact ⟨.one (asJson?_of_word isFalse), .bool false⟩
    split at read
    · rename_i isNull
      cases read
      exact ⟨.one (asJson?_of_word isNull), .null⟩
    split at read
    · rename_i isMark
      obtain ⟨items, listed, same⟩ := map_ok.mp read
      cases same
      obtain ⟨spelled, each⟩ := readItems_spells listed
      have whole := Spells.cons (asJson?_of_mark isMark) spelled
      exact ⟨whole, .arr each⟩
    split at read
    · rename_i isMark
      obtain ⟨members, listed, same⟩ := map_ok.mp read
      cases same
      obtain ⟨added, value, spelled, each, distinct⟩ := readMembers_spells listed
      refine ⟨?_, .obj (distinct nodup_nil) ?_⟩
      · have whole := Spells.cons (asJson?_of_mark isMark) spelled
        rw [nil_append] at value
        rw [← value] at whole
        exact whole
      · rw [nil_append] at value
        exact value ▸ each
    · cases read
termination_by (tokens.length, 0)

theorem readItems_spells {last tokens result} (read : readItems last tokens = .ok result) :
    Spells tokens result.rest (itemTokens result.value ++ [.closeArray]) ∧
      ∀ item ∈ result.value, Keyed item := by
  cases tokens with
  | nil =>
    rw [readItems] at read
    cases read
  | cons =>
    rw [readItems] at read
    split at read
    · rename_i isMark
      cases read
      exact ⟨.one (asJson?_of_mark isMark), forall_mem_nil _⟩
    · obtain ⟨item, first, read⟩ := bind_ok.mp read
      obtain ⟨next, passed, read⟩ := bind_ok.mp read
      obtain ⟨items, others, read⟩ := bind_ok.mp read
      cases read
      have shorter := (item.andPass next).shorter
      obtain ⟨spelled, keyed⟩ := readJson_spells first
      obtain ⟨later, each⟩ := readItems_spells others
      refine ⟨?_, forall_mem_cons.mpr ⟨keyed, each⟩⟩
      have whole := spelled.trans ((asJson?_of_separator passed).trans later)
      rwa [nil_append, ← append_assoc] at whole
termination_by (tokens.length, 1)
decreasing_by
  · subst_vars
    exact Prod.Lex.right _ Nat.zero_lt_one
  · subst_vars
    exact Prod.Lex.left _ _ shorter

theorem readMembers_spells {last before tokens result}
    (read : readMembers last before tokens = .ok result) :
    ∃ added : Members, result.value = before ++ added ∧
      Spells tokens result.rest (memberTokens added ++ [.closeObject]) ∧
      (∀ member ∈ added, Keyed member.2) ∧
      ((before.map Prod.fst).Nodup → (result.value.map Prod.fst).Nodup) := by
  cases tokens with
  | nil =>
    rw [readMembers] at read
    cases read
  | cons =>
    rw [readMembers] at read
    split at read
    · rename_i isMark
      cases read
      exact ⟨[], (append_nil _).symm, .one (asJson?_of_mark isMark),
        forall_mem_nil _, id⟩
    · obtain ⟨key, named, read⟩ := bind_ok.mp read
      obtain ⟨colon, marked, read⟩ := bind_ok.mp read
      obtain ⟨value, valued, read⟩ := bind_ok.mp read
      obtain ⟨_, allowed, read⟩ := bind_ok.mp read
      obtain ⟨next, passed, read⟩ := bind_ok.mp read
      obtain ⟨members, others, read⟩ := bind_ok.mp read
      cases read
      have shorter := (((key.andThen colon).andThen value).andPass next).shorter
      have shorterValue := (key.andThen colon).shorter
      have fresh := Members.has_eq_false_iff.mp (by simpa using require_ok allowed)
      obtain ⟨spelled, keyed⟩ := readJson_spells valued
      obtain ⟨added, same, later, each, distinct⟩ := readMembers_spells others
      refine ⟨(key.value.text, value.value) :: added, ?_, ?_, ?_, ?_⟩
      · rw [append_cons]
        exact same
      · have whole := (asJson?_of_acceptString named).trans
          ((asJson?_of_acceptMark rfl marked).trans
            (spelled.trans ((asJson?_of_separator passed).trans later)))
        simp only [memberTokens, nil_append, cons_append, append_assoc] at whole ⊢
        exact whole
      · exact forall_mem_cons.mpr ⟨keyed, each⟩
      · intro unique
        apply distinct
        rw [map_append, nodup_append]
        refine ⟨unique, pairwise_singleton _ _, ?_⟩
        intro name among other here same
        have isKey : other = key.value.text := mem_singleton.mp here
        exact fresh (isKey ▸ same ▸ among)
termination_by (tokens.length, 1)
decreasing_by
  · subst_vars
    exact Prod.Lex.left _ _ shorterValue
  · subst_vars
    exact Prod.Lex.left _ _ shorter

end

/-! ## Scanning the same text -/

section Scanning

variable {feed : Feed} {rest : Text}

/-- Whether a byte may stand between the tokens of a document or at the start of one. -/
def isExpected (byte : UInt8) : Bool :=
  isSeparator byte || (bracket? byte).isSome || isByte byte '"' ||
    startsNumber byte || (word? byte).isSome

theorem scanFrom_unexpected (nonzero : feed.head ≠ 0) (unexpected : isExpected feed.head = false) :
    (scanFrom feed).failure ≠ none := by
  simp only [isExpected, Bool.or_eq_false_iff, Option.isSome_eq_false_iff,
    Option.isNone_iff_eq_none] at unexpected
  obtain ⟨⟨⟨⟨noSeparator, noBracket⟩, noString⟩, noNumber⟩, noWord⟩ := unexpected
  rw [scanFrom, dif_neg nonzero, noSeparator, if_neg Bool.false_ne_true]
  simp only [noBracket, noString, noNumber, noWord, Bool.false_eq_true, if_false]
  exact fun none => nomatch none

private theorem scanFrom_wide {char : Char} (shown : feed.Shows (.scalar char :: rest))
    (wide : 0x80 ≤ char.toNat) : (scanFrom feed.settle).failure ≠ none := by
  have unexpected : ∀ code < 256, 0x80 ≤ code → isExpected (UInt8.ofNat code) = false := by
    decide +kernel
  have encodes := encode_shape char
  obtain ⟨settled, present, _⟩ := shown.settle
  have same := settled.head_eq (present (cons_ne_nil _ _))
  rw [toBytes_cons, Cell.bytes] at same
  cases written : String.utf8EncodeChar char with
  | nil =>
    rw [written] at encodes
    cases encodes
  | cons =>
    rw [written] at encodes same
    have high : 0x80 ≤ feed.settle.head.toNat := by
      rw [same]
      exact Nat.le_of_not_lt (encodes.starts_wide wide).1
    apply scanFrom_unexpected (shown.settle_head_ne_zero (cons_ne_nil _ _))
    have refused := unexpected feed.settle.head.toNat (UInt8.toNat_lt _) high
    rwa [UInt8.ofNat_toNat] at refused

end Scanning

/-! ## Lexemes -/

/-- The token with the surrogate pairs of a string joined. The quotes are no part of its text. -/
def Token.joined (token : Token) : Token :=
  if token.kind = .string then
    { token with text := ((Idl.joined (pieces token.raw)).drop 1).dropLast }
  else token

section Lexemes

variable {feed : Feed} {first : Cell} {inner rest doc : Text} {position : Position} {lexeme : Lexeme}

theorem asJson?_joined_string {token : Token} {inner : Text} (isString : token.kind = .string)
    (raw : token.raw = .scalar '"' :: inner) :
    token.joined.asJson? = some [.str (joined (pieces inner)).dropLast] := by
  have text : joined (pieces token.raw) = .scalar '"' :: joined (pieces inner) := by
    rw [raw, pieces_plain _ (by decide)]
    rfl
  rw [Token.joined, if_pos isString, text, drop_succ_cons, drop_zero]
  exact asJson?_of_string isString

private theorem scanned_wordText {word : Text} (shown : feed.Shows (word ++ rest))
    (means : wordJson? word = some json) : Scanned feed json rest := by
  unfold wordJson? at means
  split at means
  · rename_i isTrue
    cases means
    rw [isTrue] at shown
    exact scanned_word .true shown
  split at means
  · rename_i isFalse
    cases means
    rw [isFalse] at shown
    exact scanned_word .false shown
  split at means
  · rename_i isNull
    cases means
    rw [isNull] at shown
    exact scanned_word .null shown
  · cases means

theorem Reads.scanned (reads : Reads first inner rest lexeme)
    (shown : feed.Shows (first :: inner ++ rest))
    (stands : (lexeme.token (first :: inner) doc position).asJson?.isSome = true) :
    ∃ json, (lexeme.token (first :: inner) doc position).joined.asJson? = some json ∧
      Scanned feed json rest := by
  cases reads with
  | string opens quoted =>
    subst opens
    obtain ⟨read, _, _, _, same⟩ := scanString_joined quoted (shows_byte 34 shown (by decide)).2.2
    refine ⟨[.str read], ?_, scanned_string shown quoted same⟩
    rw [asJson?_joined_string rfl rfl, same]
    simp
  | name => cases stands
  | number starts inside ends =>
    exact ⟨_, rfl, scanned_number (isLiteral_number starts inside) shown ends⟩
  | identifier =>
    obtain ⟨json, means⟩ := Option.isSome_iff_exists.mp stands
    exact ⟨json, means, scanned_wordText shown means⟩
  | mark isMark =>
    cases first with
    | stray => cases isMark
    | scalar =>
      obtain ⟨json, means⟩ := Option.isSome_iff_exists.mp stands
      exact ⟨json, means, scanned_mark shown means⟩

end Lexemes

/-! ## All tokens of a text -/

theorem scanned_blank {feed : Feed} {cell : Cell} {rest : Text} (shown : feed.Shows (cell :: rest))
    (isBlank : cell.isBlank = true) (ended : (scanFrom feed.settle).failure = none) :
    Scanned feed [] rest := by
  have blanks : ∀ code < 0x80, inRanges blankRanges code = true →
      isSeparator (UInt8.ofNat code) = false → isExpected (UInt8.ofNat code) = false := by
    decide
  cases cell with
  | stray => cases isBlank
  | scalar char =>
    by_cases ascii : char.toNat < 0x80
    · obtain ⟨byte, _, same⟩ := bytes_ascii ascii
      rw [← asciiCell_of_toNat same] at shown
      rw [Cell.isBlank, ← same] at isBlank
      rw [← same] at ascii
      have refused := blanks byte.toNat ascii isBlank
      rw [UInt8.ofNat_toNat] at refused
      cases separates : isSeparator byte with
      | true => exact scanned_separator byte shown ascii separates
      | false =>
        obtain ⟨isHead, nonzero, _⟩ := shows_byte byte shown ascii
        exact absurd ended (scanFrom_unexpected nonzero (isHead ▸ refused separates))
    · exact absurd ended (scanFrom_wide shown (Nat.le_of_not_lt ascii))

theorem scanFrom_comment {feed : Feed} {rest : Text} (shown : feed.Shows (.scalar '/' :: rest)) :
    (scanFrom feed.settle).failure ≠ none := by
  obtain ⟨same, nonzero, _⟩ := shows_byte 47 shown (by decide)
  exact scanFrom_unexpected nonzero (by rw [same]; decide)

/-- Where a text is scanned to its end, the scanner of documents sees the same tokens, with the
pairs joined. -/
private theorem scanFrom_readTokens {feed : Feed} {position doc}
    (read : readTokens position doc text = .ok (tokens, last)) (shown : feed.Shows text)
    (stand : ∀ token ∈ tokens, token.asJson?.isSome = true)
    (ended : (scanFrom feed.settle).failure = none) :
    (scanFrom feed.settle).tokens = tokens.flatMap fun token => token.joined.asJson := by
  have run := run_of_readTokens read
  clear read
  induction run generalizing feed with
  | finish =>
    rw [scanFrom_nothing shown]
    rfl
  | gap passes _ ih =>
    cases passes with
    | blank isBlank =>
      obtain ⟨next, nextShown, same⟩ := scanned_blank shown isBlank ended
      rw [same] at ended ⊢
      exact ih nextShown stand ended
    | line => exact absurd ended (scanFrom_comment shown)
    | block _ split =>
      rw [← split] at shown
      exact absurd ended (scanFrom_comment shown)
  | lexeme reads _ ih =>
    obtain ⟨here, later⟩ := forall_mem_cons.mp stand
    obtain ⟨json, means, next, nextShown, scanned⟩ := reads.scanned shown here
    rw [scanned] at ended ⊢
    rw [flatMap_cons, ← ih nextShown later ended]
    exact congrArg (· ++ _) (congrArg (·.getD []) means).symm

/-- The text of a string, given what it was read from. -/
structure Token.IsSpelled (token : Token) (inner : Text) : Prop where
  raw : token.raw = .scalar '"' :: inner
  alone : (pieces inner).map Piece.alone = token.text ++ [.scalar '"']

private theorem readTokens_spelled {position : Position} {doc : Text}
    (read : readTokens position doc text = .ok (tokens, last)) :
    ∀ token ∈ tokens, token.kind = .string → ∃ inner, token.IsSpelled inner := by
  have run := run_of_readTokens read
  clear read
  induction run with
  | finish => exact forall_mem_nil _
  | gap _ _ ih => exact ih
  | lexeme reads _ ih =>
    refine forall_mem_cons.mpr ⟨?_, ih⟩
    intro isString
    cases reads with
    | string opens _ spelled => exact ⟨_, opens ▸ rfl, spelled⟩
    | name | number | identifier | mark => cases isString

def Token.spellsPair (token : Token) : Bool := token.kind = .string && hasPair (pieces token.raw)

private theorem joined_ne_nil {parts : List Piece} (nonempty : parts ≠ []) : joined parts ≠ [] := by
  fun_cases joined parts with
  | case1 | case2 | case3 => exact cons_ne_nil _ _
  | case4 => exact absurd rfl nonempty

theorem Token.IsSpelled.joined_iff {token : Token} {inner : Text} (isSpelled : token.IsSpelled inner)
    (isString : token.kind = .string) :
    token.joined.asJson = token.asJson ↔ token.spellsPair = false := by
  have parts : pieces token.raw = .scalar '"' :: pieces inner := by
    rw [isSpelled.raw, pieces_plain _ (by decide)]
    rfl
  have pairs : token.spellsPair = hasPair (pieces inner) := by
    rw [Token.spellsPair, parts, decide_eq_true isString, Bool.true_and]
    rfl
  rw [Token.asJson, Token.asJson, asJson?_joined_string isString isSpelled.raw,
    asJson?_of_string isString, pairs, Option.getD_some, Option.getD_some]
  constructor
  · intro same
    have texts : (Idl.joined (pieces inner)).dropLast = token.text := by
      simpa using same
    apply Bool.eq_false_iff.mpr
    intro pair
    have shorter := (length_joined (pieces inner)).2 pair
    have length := congrArg List.length isSpelled.alone
    have nonempty : pieces inner ≠ [] := by
      intro none
      rw [none] at pair
      cases pair
    have positive := length_pos_iff.mpr (joined_ne_nil nonempty)
    rw [length_map, length_append, length_singleton, ← texts,
      length_dropLast] at length
    omega
  · intro none
    rw [joined_of_not_hasPair none, isSpelled.alone, dropLast_concat]

theorem joined_of_other {token : Token} (other : token.kind ≠ .string) : token.joined = token :=
  if_neg other

private theorem length_joined_asJson (token : Token) :
    token.joined.asJson.length = token.asJson.length := by
  by_cases isString : token.kind = .string
  · have joinedString : token.joined.kind = .string := by
      rw [Token.joined, if_pos isString]
      exact isString
    rw [Token.asJson, Token.asJson, asJson?_of_string isString, asJson?_of_string joinedString]
    rfl
  · rw [joined_of_other isString]

theorem decode_ok {value : Json} (read : decode text = .ok value) :
    (scan text).failure = none ∧
      (Json.Progress.wantsValue []).run (scan text).tokens = .ok (.complete value) := by
  rw [decode_eq] at read
  split at read
  · cases read
  · rename_i progress ran
    split at read
    · cases read
    · rename_i ended
      split at read
      · cases read
        exact ⟨ended, ran⟩
      · cases read

/-- A value read from a document is one read inline exactly if the two have the same tokens. -/
private theorem decoded_iff_tokens {value other : Json} (read : decode text = .ok value)
    (keyed : Keyed other) : value = other ↔ (scan text).tokens = other.tokens := by
  obtain ⟨_, ran⟩ := decode_ok read
  constructor
  · rintro rfl
    exact (tokens_run ran).symm
  · intro same
    have built := keyed.builds [] []
    rw [append_nil] at built
    rw [same, built] at ran
    cases ran
    rfl

/-- A text without NUL bytes that is short, or has at most one stray byte, may be accepted as a
document and as one inline value. Then it is read as the same value exactly if no string in it
spells a high surrogate directly before a low one. -/
theorem decode_eq_readJson_iff {bytes : List UInt8} {value : Json} {tokens : List Token}
    {last : Token} {result : Consumed tokens Json} (noNul : 0 ∉ bytes)
    (harmless : bytes.length < 511 ∨ (ofBytes bytes).strays ≤ 1)
    (decoded : decode (ofBytes bytes) = .ok value)
    (lexed : lex (ofBytes bytes) = .ok (tokens, last))
    (read : readJson last tokens = .ok result) (whole : result.rest = []) :
    value = result.value ↔ ∀ token ∈ tokens, token.spellsPair = false := by
  obtain ⟨spelled, keyed⟩ := readJson_spells read
  obtain ⟨stand, inline⟩ := spelled.whole whole
  obtain ⟨feed, shown, started⟩ := Feed.shows_start noNul harmless
  have ended := (decode_ok decoded).1
  have scanned : scan (ofBytes bytes) = scanFrom feed.settle := by
    rw [scan, toBytes_ofBytes, started]
  rw [scanned] at ended
  rw [decoded_iff_tokens decoded keyed, scanned, scanFrom_readTokens lexed shown stand ended, inline,
    flatMap_eq_iff fun token _ => Nat.le_of_eq (length_joined_asJson token).symm]
  refine forall_congr' fun token => forall_congr' fun member => ?_
  by_cases isString : token.kind = .string
  · obtain ⟨inner, isSpelled⟩ := readTokens_spelled lexed token member isString
    exact isSpelled.joined_iff isString
  · rw [joined_of_other isString, Token.spellsPair, decide_eq_false isString, Bool.false_and]
    exact iff_of_true rfl rfl

/-- An array with a surrogate pair, accepted by both readers and read as two different values. -/
theorem decode_ne_readJson_pair :
    let bytes := toBytes "[\"\\ud83d\\ude00\"]"
    ∃ value tokens last, ∃ result : Consumed tokens Json,
      decode (ofBytes bytes) = .ok value ∧
      lex (ofBytes bytes) = .ok (tokens, last) ∧ readJson last tokens = .ok result ∧
      result.rest = [] ∧ value ≠ result.value := by
  intro bytes
  let mark (char : Char) (column : Nat) : Token :=
    ⟨.punctuation, [.scalar char], [.scalar char], [], false, ⟨1, column⟩⟩
  let string : Token :=
    ⟨.string, [.scalar '�', .scalar '�'], "\"\\ud83d\\ude00\"", [], false, ⟨1, 2⟩⟩
  let tokens := [mark '[' 1, string, mark ']' 16]
  have lexed : (lex (ofBytes bytes)).toOption = some (tokens, endToken ⟨1, 17⟩ []) := by
    decide +kernel
  have decodes : (decode (ofBytes bytes)).toOption.isSome = true := by decide +kernel
  obtain ⟨result, read, whole⟩ : ∃ result : Consumed tokens Json,
      readJson (endToken ⟨1, 17⟩ []) tokens = .ok result ∧ result.rest = [] := by
    simp [tokens, readJson, readItems, mark, string, Token.isKeyword, Token.isMark, passSeparator,
      Except.map, bind, Except.bind, pure, Except.pure, Consumed.next, Consumed.give, Consumed.later,
      Consumed.andThen, Passed.stay]
  cases lexedText : lex (ofBytes bytes) with
  | error =>
    rw [lexedText] at lexed
    cases lexed
  | ok =>
    rw [lexedText] at lexed
    cases lexed
    cases decoded : decode (ofBytes bytes) with
    | error =>
      rw [decoded] at decodes
      cases decodes
    | ok value =>
      refine ⟨value, tokens, _, result, rfl, rfl, read, whole, ?_⟩
      intro same
      have none := (decode_eq_readJson_iff (by decide) (.inl (by decide)) decoded lexedText read
        whole).mp same string (by simp [tokens])
      revert none
      decide

end Avro.Idl
