import Avro.Proofs.Idl.Lexing

/-!
# The layout of a source

The tokens of a source do not depend on the blanks between them. A comment is passed over like a
blank as far as its bytes are text; stray bytes end it early.
-/

set_option autoImplicit false

open List

namespace Avro.Idl

open Text

variable {position : Position} {doc text rest : Text} {tokens : List Token} {last : Token}

/-! ## Between bytes and cells -/

/-- A text that is read from its bytes as it is, whatever bytes stand before it. -/
def Apart (text : Text) : Prop := ∀ front, ofBytes (front ++ text.toBytes) = ofBytes front ++ text

theorem apart_nil : Apart [] := by
  intro front
  rw [append_nil]
  exact congrArg ofBytes (append_nil front)

theorem apart_cons {char : Char} (canonical : Canonical (.scalar char :: rest)) :
    Apart (.scalar char :: rest) := by
  intro front
  rw [ofBytes_append front, canonical]
  intro byte first
  have encodes := encode_shape char
  rw [Json.toBytes_cons, Cell.bytes] at first
  simp only [UInt8.lt_iff_toNat_lt, UInt8.le_iff_toNat_le, UInt8.reduceToNat]
  generalize String.utf8EncodeChar char = bytes at encodes first
  cases encodes <;> cases first <;> omega

theorem Apart.append {front : Text} (first : Apart front) (second : Apart rest) :
    Apart (front ++ rest) := by
  intro before
  rw [Json.toBytes_append, ← append_assoc, second, first, append_assoc]

theorem Apart.canonical (apart : Apart text) : Canonical text :=
  (apart []).trans (congrArg (· ++ text) ofBytes.eq_1)

theorem Reads.first_scalar {first inner lexeme} (reads : Reads first inner rest lexeme) :
    ∃ char, first = .scalar char := by
  cases first with
  | scalar char => exact ⟨char, rfl⟩
  | stray =>
    cases reads with
    | string opens | name opens => cases opens
    | number starts => cases starts
    | identifier _ starts => cases starts
    | mark isMark => cases isMark

theorem Run.apart (run : Run position doc text tokens last) (canonical : Canonical text) :
    Apart text := by
  cases run with
  | finish => exact apart_nil
  | gap passes =>
    cases passes with
    | @blank cell _ isBlank =>
      cases cell with
      | scalar => exact apart_cons canonical
      | stray => cases isBlank
    | line => exact apart_cons canonical
    | block _ split =>
      rw [← split] at canonical ⊢
      exact apart_cons canonical
  | lexeme reads =>
    obtain ⟨char, rfl⟩ := reads.first_scalar
    exact apart_cons canonical

theorem Run.apart_raw (run : Run position doc text tokens last) (canonical : Canonical text) :
    ∀ token ∈ tokens, Apart token.raw := by
  induction run with
  | finish => exact forall_mem_nil _
  | gap _ _ ih => exact ih canonical.append
  | @lexeme _ _ inner _ _ _ _ _ reads run ih =>
    refine forall_mem_cons.mpr ⟨?_, ih canonical.append⟩
    obtain ⟨char, rfl⟩ := reads.first_scalar
    have whole := run.apart canonical.append (toBytes (.scalar char :: inner))
    rw [← Json.toBytes_append, canonical] at whole
    exact apart_cons (append_cancel_right whole).symm

/-! ## Blanks between tokens -/

/-- The raw texts of tokens, each followed by a gap. -/
def layOut (tokens : List Token) (gaps : List Text) : Text :=
  (List.zipWith (fun token gap => token.raw ++ gap) tokens gaps).flatten

def IsBlank (gap : Text) : Prop := ∀ cell ∈ gap, cell.isBlank = true

theorem Run.blanks {gap : Text} (isBlank : IsBlank gap)
    (run : Run (position.past gap) doc rest tokens last) :
    Run position doc (gap ++ rest) tokens last := by
  induction gap generalizing position with
  | nil => exact run
  | cons cell gap ih =>
    obtain ⟨here, later⟩ := forall_mem_cons.mp isBlank
    exact @Run.gap _ _ [cell] _ _ _ _ (.blank here) (ih later run)

theorem Run.layOut (run : Run position doc text tokens last) {gaps : List Text}
    (blank : ∀ gap ∈ gaps, IsBlank gap) (count : gaps.length = tokens.length)
    (apart : ∀ gap ∈ gaps.dropLast, gap ≠ []) (position' : Position) :
    ∃ others last', Run position' [] (layOut tokens gaps) others last' ∧
      (others ++ [last']).map Token.content = (tokens ++ [last]).map Token.content ∧
      ∀ other ∈ others ++ [last'], other.doc = [] := by
  induction run generalizing gaps position' with
  | finish =>
    obtain rfl := length_eq_zero_iff.mp count
    exact ⟨[], _, .finish, rfl, forall_mem_singleton.mpr rfl⟩
  | gap _ _ ih => exact ih blank count apart position'
  | @lexeme position doc inner _ first lexeme tokens _ reads _ ih =>
    cases gaps with
    | nil => cases count
    | cons gap gaps =>
      obtain ⟨here, later⟩ := forall_mem_cons.mp blank
      have countLater : gaps.length = tokens.length := Nat.succ.inj count
      have apartLater : ∀ gap ∈ gaps.dropLast, gap ≠ [] := by
        cases gaps with
        | nil => nofun
        | cons => exact (forall_mem_cons.mp apart).2
      obtain ⟨others, last', run', contents, docs⟩ :=
        ih later countLater apartLater ((position'.past (first :: inner)).past gap)
      have again : Reads first inner (gap ++ Idl.layOut tokens gaps) lexeme := by
        refine reads.before (.inr fun cell behind same => .inl ?_)
        cases gap with
        | nil =>
          -- only the last gap may be empty
          cases gaps with
          | nil =>
            obtain rfl := length_eq_zero_iff.mp countLater.symm
            cases same
          | cons => exact absurd rfl ((forall_mem_cons.mp apart).1)
        | cons =>
          cases same
          exact (forall_mem_cons.mp here).1
      refine ⟨lexeme.token (first :: inner) [] position' :: others, last', ?_,
        congrArg (lexeme.token (first :: inner) [] .start :: ·) contents,
        forall_mem_cons.mpr ⟨rfl, docs⟩⟩
      rw [show Idl.layOut (lexeme.token (first :: inner) doc position :: tokens) (gap :: gaps) = _ from
        append_assoc (first :: inner) gap _]
      exact .lexeme again (run'.blanks here)

theorem apart_of_isBlank {gap : Text} (isBlank : IsBlank gap) : Apart gap := by
  have scalars : ∀ cell ∈ gap, ∃ char : Char, cell = .scalar char := by
    intro cell member
    cases cell with
    | scalar char => exact ⟨char, rfl⟩
    | stray => cases isBlank _ member
  cases gap with
  | nil => exact apart_nil
  | cons =>
    obtain ⟨char, rfl⟩ := (forall_mem_cons.mp scalars).1
    exact apart_cons (canonical_of_scalars scalars)

private theorem apart_layOut {gaps : List Text} (raws : ∀ token ∈ tokens, Apart token.raw)
    (blank : ∀ gap ∈ gaps, IsBlank gap) : Apart (layOut tokens gaps) := by
  induction tokens generalizing gaps with
  | nil => exact apart_nil
  | cons _ _ ih =>
    cases gaps with
    | nil => exact apart_nil
    | cons =>
      obtain ⟨raw, others⟩ := forall_mem_cons.mp raws
      obtain ⟨here, later⟩ := forall_mem_cons.mp blank
      exact (raw.append (apart_of_isBlank here)).append (ih others later)

/-- Tokens do not depend on the layout of their source: their texts, with any blanks between them,
are lexed to the same tokens, without documentation. -/
theorem lex_layOut {source : List UInt8} {tokens : List Token} {last : Token}
    (lexed : lex (ofBytes source) = .ok (tokens, last)) {lead : Text} {gaps : List Text}
    (blank : ∀ gap ∈ lead :: gaps, IsBlank gap) (count : gaps.length = tokens.length)
    (apart : ∀ gap ∈ gaps.dropLast, gap ≠ []) :
    ∃ others last', lex (ofBytes (lead ++ layOut tokens gaps).toBytes) = .ok (others, last') ∧
      (others ++ [last']).map Token.content = (tokens ++ [last]).map Token.content ∧
      ∀ other ∈ others ++ [last'], other.doc = [] := by
  have run := run_of_readTokens lexed
  obtain ⟨here, later⟩ := forall_mem_cons.mp blank
  obtain ⟨others, last', run', contents, docs⟩ :=
    run.layOut later count apart (Position.start.past lead)
  have raws := run.apart_raw (canonical_ofBytes source)
  have canonical := ((apart_of_isBlank here).append (apart_layOut raws later)).canonical
  refine ⟨others, last', ?_, contents, docs⟩
  rw [canonical]
  exact (run'.blanks here).read

/-- A comment between two names, one of them quoted, gives way to a wide blank and a new line. -/
theorem lex_layOut_names :
    let source := toBytes "a.b//c\n\x60x y\x60"
    let tokens : List Token := [⟨.identifier, "a.b", "a.b", [], false, ⟨1, 1⟩⟩,
      ⟨.identifier, "x y", "\x60x y\x60", [], true, ⟨2, 1⟩⟩]
    let lead : Text := " "
    let gaps : List Text := ["\u3000\n", []]
    lex (ofBytes source) = .ok (tokens, endToken ⟨2, 6⟩ []) ∧ (∀ gap ∈ lead :: gaps, IsBlank gap) ∧
      gaps.length = tokens.length ∧ (∀ gap ∈ gaps.dropLast, gap ≠ []) ∧
      ∃ others last', lex (ofBytes (lead ++ layOut tokens gaps).toBytes) = .ok (others, last') ∧
        (others ++ [last']).map Token.content =
          (tokens ++ [endToken ⟨2, 6⟩ []]).map Token.content ∧
        ∀ other ∈ others ++ [last'], other.doc = [] := by
  intro source tokens lead gaps
  have lexed : lex (ofBytes source) = .ok (tokens, endToken ⟨2, 6⟩ []) :=
    ok_of_toOption (by decide +kernel)
  have blank : ∀ gap ∈ lead :: gaps, IsBlank gap := by
    unfold IsBlank
    decide
  exact ⟨lexed, blank, rfl, by decide, lex_layOut lexed blank rfl (by decide)⟩

/-! ## Comments -/

/-- What the cells of a text count for in the length of a comment. -/
def counted (text : Text) : Nat := text.byteLength + 2 * text.strays

theorem counted_cons (cell : Cell) (text : Text) :
    counted (cell :: text) = commentWidth cell + counted text := by
  have bytes : byteLength (cell :: text) = cell.width + text.byteLength := rfl
  cases cell with
  | scalar =>
    rw [counted, bytes, strays_scalar, Nat.add_assoc]
    rfl
  | stray =>
    rw [counted, bytes, strays_stray, counted]
    change 1 + _ + _ = 3 + _
    omega

private theorem commentWidth_le (cell : Cell) : commentWidth cell ≤ 4 := by
  cases cell with
  | scalar char =>
    have encodes := encode_shape char
    rw [commentWidth]
    generalize String.utf8EncodeChar char = bytes at encodes ⊢
    cases encodes <;> simp
  | stray => exact Nat.le_succ 3

/-- Leaving out cells ends within the first text that counts for enough, at most three too far. -/
theorem skipCounted_within {count : Nat} (enough : count ≤ counted text) :
    ∃ front back, text = front ++ back ∧ count ≤ counted front ∧ counted front ≤ count + 3 ∧
      (count = 0 → front = []) ∧ ∀ position rest,
        skipCounted count position (text ++ rest) = (position.past front, back ++ rest) := by
  induction text generalizing count with
  | nil =>
    obtain rfl := Nat.le_zero.mp enough
    exact ⟨[], [], rfl, Nat.le_refl 0, Nat.zero_le 3, fun _ => rfl,
      fun _ _ => by rw [skipCounted]; rfl⟩
  | cons cell text ih =>
    cases count with
    | zero =>
      exact ⟨[], cell :: text, rfl, Nat.le_refl 0, Nat.zero_le 3, fun _ => rfl,
        fun _ _ => by rw [skipCounted]; rfl⟩
    | succ count =>
      rw [counted_cons] at enough
      obtain ⟨front, back, rfl, least, most, none, skips⟩ :=
        @ih (count + 1 - commentWidth cell) (by omega)
      have width := commentWidth_le cell
      refine ⟨cell :: front, back, rfl, ?_, ?_, nofun, fun position rest => ?_⟩
      · rw [counted_cons]
        omega
      · rw [counted_cons]
        by_cases used : count + 1 - commentWidth cell = 0
        · rw [none used]
          change commentWidth cell + 0 ≤ _
          omega
        · omega
      · rw [cons_append, skipCounted]
        exact skips (position.advance cell) rest

private theorem splitAtText?_first {body : Text} (noEnd : ¬[.scalar '*', .scalar '/'] <:+: body)
    (rest : Text) :
    splitAtText? "*/" (body ++ (.scalar '*' :: .scalar '/' :: rest)) = some (body, rest) := by
  induction body with
  | nil => rfl
  | cons cell body ih =>
    have notHere : ¬List.isPrefixOf (ofString "*/")
        (cell :: (body ++ (.scalar '*' :: .scalar '/' :: rest))) = true := by
      intro starts
      obtain ⟨rfl, later, same⟩ := @startsWith_pair _ cell (.scalar '*') (.scalar '/') starts
      cases body with
      | nil => cases same
      | cons _ body =>
        obtain ⟨rfl, _⟩ := List.cons.inj same
        exact noEnd (List.IsPrefix.isInfix ⟨body, rfl⟩)
    rw [cons_append, splitAtText?, if_neg notHere,
      ih fun inside => noEnd (inside.trans (suffix_cons cell body).isInfix)]
    rfl

/-- The kinds, texts and quotes of the tokens, if a text can be read. -/
def contents (lexed : Except Fault (List Token × Token)) : Option (List Token) :=
  lexed.toOption.map fun (tokens, last) => (tokens ++ [last]).map Token.content

private theorem contents_readTokens (position position' : Position) (doc doc' text : Text) :
    contents (readTokens position doc text) = contents (readTokens position' doc' text) := by
  cases read : readTokens position doc text with
  | ok =>
    obtain ⟨others, last', run, same, _⟩ := (run_of_readTokens read).elsewhere position' doc'
    rw [run.read]
    exact congrArg some same.symm
  | error =>
    cases again : readTokens position' doc' text with
    | error => rfl
    | ok =>
      obtain ⟨_, _, run, _⟩ := (run_of_readTokens again).elsewhere position doc
      rw [run.read] at read
      cases read

theorem gap_comment {body front left : Text} (noEnd : ¬[.scalar '*', .scalar '/'] <:+: body)
    (split : body ++ (.scalar '*' :: .scalar '/' :: rest) = front ++ left)
    (skips : ∀ position, skipCounted (body.byteLength + 2) position (front ++ left) =
      (position.past front, left)) (doc : Text) :
    Gap doc (.scalar '/' :: .scalar '*' :: front) left ((docOfComment? body).getD doc) :=
  .block (splitAtText?_first noEnd rest) (congrArg (.scalar '/' :: .scalar '*' :: ·) split)
    fun position => skips ((position.advance (.scalar '/')).advance (.scalar '*'))

theorem strays_append (front back : Text) : strays (front ++ back) = front.strays + back.strays := by
  induction front with
  | nil => exact (Nat.zero_add _).symm
  | cons cell _ ih =>
    cases cell <;> simp only [cons_append, strays_scalar, strays_stray, ih]
    omega

theorem byteLength_append (front back : Text) :
    byteLength (front ++ back) = front.byteLength + back.byteLength := by
  rw [byteLength_eq, Json.toBytes_append, length_append, byteLength_eq,
    byteLength_eq]

/-- A comment without stray bytes is passed over up to its end. -/
private theorem gap_clean {body : Text} (noEnd : ¬[.scalar '*', .scalar '/'] <:+: body)
    (clean : body.strays = 0) (doc rest : Text) :
    Gap doc (.scalar '/' :: .scalar '*' :: (body ++ [.scalar '*', .scalar '/'])) rest
      ((docOfComment? body).getD doc) := by
  have length : counted (body ++ [.scalar '*', .scalar '/']) = body.byteLength + 2 := by
    rw [counted, strays_append, clean, byteLength_append]
    rfl
  obtain ⟨front, back, split, least, _, _, skips⟩ := skipCounted_within (Nat.le_of_eq length.symm)
  have nothing : back = [] := by
    rw [split, counted, strays_append, byteLength_append] at length
    rw [counted] at least
    cases back with
    | nil => rfl
    | cons cell =>
      have positive := width_pos cell
      change _ + (cell.width + _) + _ = _ at length
      omega
  subst nothing
  rw [append_nil] at split
  have whole : body ++ (.scalar '*' :: .scalar '/' :: rest) = front ++ rest := by
    rw [← split, append_assoc]
    rfl
  rw [split] at skips ⊢
  exact gap_comment noEnd whole (fun position => skips position rest) doc

/-- One with stray bytes ends before its closing mark, two bytes for each of them. -/
private theorem gap_stray {body : Text} (noEnd : ¬[.scalar '*', .scalar '/'] <:+: body)
    (strays : 0 < body.strays) : ∃ front back, body = front ++ back ∧
      back.byteLength + 2 ≤ 2 * front.strays ∧ 2 * front.strays ≤ back.byteLength + 5 ∧
      ∀ doc rest, Gap doc (.scalar '/' :: .scalar '*' :: front)
        (back ++ (.scalar '*' :: .scalar '/' :: rest)) ((docOfComment? body).getD doc) := by
  have enough : body.byteLength + 2 ≤ counted body := by
    rw [counted]
    omega
  obtain ⟨front, back, split, least, most, _, skips⟩ := skipCounted_within enough
  have length := byteLength_append front back
  rw [← split] at length
  rw [counted] at least most
  refine ⟨front, back, split, by omega, by omega, fun doc rest => ?_⟩
  refine gap_comment noEnd (by rw [split, append_assoc]) (fun position => ?_) doc
  rw [← append_assoc, ← split]
  exact skips position _

theorem ofBytes_ascii {byte : UInt8} (small : byte < 0x80) (bytes : List UInt8) :
    ofBytes (byte :: bytes) = Json.asciiCell byte :: ofBytes bytes := by
  have width : (Json.asciiCell byte).width = 1 :=
    congrArg List.length (Json.bytes_asciiCell (show byte.toNat < 0x80 from small))
  rw [ofBytes, firstCell_ascii small, width]
  rfl

private theorem ofBytes_comment (body rest : List UInt8) :
    ofBytes (toBytes "/*" ++ body ++ toBytes "*/" ++ rest) =
      .scalar '/' :: .scalar '*' :: (ofBytes body ++ (.scalar '*' :: .scalar '/' :: ofBytes rest)) := by
  have apart : ∀ byte ∈ (42 :: 47 :: rest).head?, byte < 0x80 ∨ 0xC0 ≤ byte := by
    rintro _ ⟨⟩
    decide
  change ofBytes (47 :: 42 :: (body ++ [42, 47] ++ rest)) = _
  rw [append_assoc, ofBytes_ascii (by decide), ofBytes_ascii (by decide)]
  change _ :: _ :: ofBytes (body ++ 42 :: 47 :: rest) = _
  rw [ofBytes_append body apart, ofBytes_ascii (by decide), ofBytes_ascii (by decide)]
  rfl

/-- A comment whose bytes are text is passed over like a blank, up to the byte behind its closing
mark. One with stray bytes ends early, two bytes for each of them, and the rest of it is read as code;
with a single one this is the closing mark, which is refused. -/
theorem readTokens_comment {body : List UInt8} (noEnd : ¬toBytes "*/" <:+: body)
    (rest : List UInt8) (position : Position) (doc : Text) :
    let source := ofBytes (toBytes "/*" ++ body ++ toBytes "*/" ++ rest)
    let after := (docOfComment? (ofBytes body)).getD doc
    ((ofBytes body).strays = 0 →
      readTokens position doc source =
        readTokens (position.past ("/*" ++ ofBytes body ++ "*/")) after (ofBytes rest) ∧
      contents (readTokens position doc source) =
        contents (readTokens position doc (ofBytes (toBytes " " ++ rest)))) ∧
    (0 < (ofBytes body).strays → ∃ front back, ofBytes body = front ++ back ∧
      back.byteLength + 2 ≤ 2 * front.strays ∧ 2 * front.strays ≤ back.byteLength + 5 ∧
      readTokens position doc source =
        readTokens (position.past ("/*" ++ front)) after (back ++ "*/" ++ ofBytes rest)) ∧
    ((ofBytes body).strays = 1 → ∃ fault, readTokens position doc source = .error fault) := by
  intro source after
  have noMark : ¬[.scalar '*', .scalar '/'] <:+: ofBytes body := by
    rintro ⟨front, back, same⟩
    refine noEnd ⟨toBytes front, toBytes back, ?_⟩
    rw [← Json.toBytes_append, ← Json.toBytes_append, ← toBytes_ofBytes body, ← same]
    rfl
  have text : source = _ := ofBytes_comment body rest
  have early (strays : 0 < (ofBytes body).strays) : ∃ front back, ofBytes body = front ++ back ∧
      back.byteLength + 2 ≤ 2 * front.strays ∧ 2 * front.strays ≤ back.byteLength + 5 ∧
      readTokens position doc source =
        readTokens (position.past ("/*" ++ front)) after (back ++ "*/" ++ ofBytes rest) := by
    obtain ⟨front, back, split, most, least, passes⟩ := gap_stray noMark strays
    have read := (passes doc (ofBytes rest)).readTokens_eq position
    refine ⟨front, back, split, most, least, ?_⟩
    rw [text, split, append_assoc, append_assoc back]
    exact read
  refine ⟨fun clean => ?_, early, fun one => ?_⟩
  · have read := (gap_clean noMark clean doc (ofBytes rest)).readTokens_eq position
    rw [cons_append, cons_append, append_assoc] at read
    have passes : Gap doc [.scalar ' '] (ofBytes rest) doc := .blank (by decide)
    have blank : ofBytes (toBytes " " ++ rest) = [.scalar ' '] ++ ofBytes rest :=
      ofBytes_ascii (by decide) rest
    have same : readTokens position doc source = _ := text ▸ read
    exact ⟨same, by rw [same, blank, passes.readTokens_eq, contents_readTokens]⟩
  · obtain ⟨front, back, split, most, _, read⟩ := early (by omega)
    have strays := strays_append front back
    rw [← split, one] at strays
    cases back with
    | nil =>
      refine ⟨⟨position.past ("/*" ++ front), .badCharacter (.scalar '*')⟩, read.trans ?_⟩
      change readTokens _ _ (.scalar '*' :: .scalar '/' :: ofBytes rest) = _
      rw [readTokens]
      rfl
    | cons cell =>
      have positive := width_pos cell
      change cell.width + _ + 2 ≤ _ at most
      omega

/-- A stray byte lets the closing mark be read as code; letters and stars do not. -/
theorem readTokens_comment_stray :
    let stray : List UInt8 := [0x20, 0xFF]
    let plain := toBytes "é**"
    ¬toBytes "*/" <:+: stray ∧ ¬toBytes "*/" <:+: plain ∧
      (∃ fault, readTokens .start []
        (ofBytes (toBytes "/*" ++ stray ++ toBytes "*/" ++ toBytes "x")) = .error fault) ∧
      contents (readTokens .start []
        (ofBytes (toBytes "/*" ++ plain ++ toBytes "*/" ++ toBytes "x"))) =
        contents (readTokens .start [] (ofBytes (toBytes " " ++ toBytes "x"))) := by
  intro stray plain
  have openStray : ¬toBytes "*/" <:+: stray := by decide
  have openPlain : ¬toBytes "*/" <:+: plain := by decide
  exact ⟨openStray, openPlain, (readTokens_comment openStray _ _ _).2.2 (by decide +kernel),
    ((readTokens_comment openPlain _ _ _).1 (by decide +kernel)).2⟩

end Avro.Idl
