import Avro.Idl.Type
import Avro.Proofs.Schema.WellFormed

/-!
# The grammar of type expressions

Which tokens form a type expression, and which schema it denotes at a site, is said by the rules of
a grammar. Exactly what it derives is read.
-/

set_option autoImplicit false

namespace Avro.Idl

variable {schema : Schema}

/-! ## Streams -/

/-- A reader gives a value and leaves the rest. -/
def Gives {tokens : List Token} {α : Type} (outcome : Except Fault (Consumed tokens α)) (value : α)
    (rest : List Token) : Prop :=
  ∃ result, outcome = .ok result ∧ result.value = value ∧ result.rest = rest

/-- One token stands before the rest. -/
inductive Next (Is : Token → Prop) : List Token → List Token → Prop
  | mk {token rest} (holds : Is token) : Next Is (token :: rest) rest

abbrev Mark (mark : Char) : List Token → List Token → Prop := Next fun token => token.isMark mark

abbrev Word (word : Text) : List Token → List Token → Prop := Next fun token => token.isKeyword word

section Streams

variable {tokens rest : List Token} {token last : Token} {mark : Char}

theorem isMark_iff :
    token.isMark mark = true ↔ token.kind = .punctuation ∧ token.text = [.scalar mark] := by
  simp [Token.isMark]

theorem isKeyword_iff {word : Text} : token.isKeyword word = true ↔
    token.kind = .identifier ∧ token.quoted = false ∧ token.text = word := by
  simp [Token.isKeyword, and_assoc]

theorem isKeyword_unique {word other : Text} (isKeyword : token.isKeyword word = true)
    (differ : word ≠ other) : ¬token.isKeyword other = true := by
  obtain ⟨_, _, text⟩ := isKeyword_iff.mp isKeyword
  simp [Token.isKeyword, text, differ]

variable {test : Token → Bool} {problem : Text → Problem} {result : Consumed tokens Token}

theorem next_of_accept (read : accept test problem last tokens = .ok result) :
    Next (fun token => token = result.value ∧ test token) tokens result.rest := by
  cases tokens with
  | nil => cases read
  | cons =>
    rw [accept] at read
    split at read
    · rename_i passed
      cases read
      exact .mk ⟨rfl, passed⟩
    · cases read

theorem Next.mono {Is Has : Token → Prop} (next : Next Is tokens rest)
    (within : ∀ {token}, Is token → Has token) : Next Has tokens rest := by
  obtain ⟨holds⟩ := next
  exact .mk (within holds)

theorem mark_of_accept (read : acceptMark mark last tokens = .ok result) :
    Mark mark tokens result.rest :=
  (next_of_accept read).mono And.right

theorem Next.acceptMark (next : Mark mark tokens rest) (last : Token) :
    ∃ result, acceptMark mark last tokens = .ok result ∧ result.rest = rest := by
  obtain ⟨holds⟩ := next
  exact ⟨.next _, if_pos holds, rfl⟩

theorem mark_of_nextIsMark (next : nextIsMark mark tokens = true) :
    Mark mark tokens tokens.tail := by
  cases tokens with
  | nil => cases next
  | cons => exact .mk next

theorem Next.isNext (next : Mark mark tokens rest) :
    nextIsMark mark tokens = true ∧ tokens.tail = rest := by
  obtain ⟨holds⟩ := next
  exact ⟨holds, rfl⟩

theorem Next.noMark {other : Char} (next : Mark mark tokens rest) (differ : mark ≠ other) :
    nextIsMark other tokens = false := by
  obtain ⟨holds⟩ := next
  obtain ⟨_, text⟩ := isMark_iff.mp holds
  simp [nextIsMark, Token.isMark, text, differ]

end Streams

/-! ## Rules -/

def builtIns : List (Text × Schema) :=
  [("date", .primitive .int [("logicalType", .str "date")]),
    ("time_ms", .primitive .int [("logicalType", .str "time-millis")]),
    ("timestamp_ms", .primitive .long [("logicalType", .str "timestamp-millis")]),
    ("uuid", .primitive .string [("logicalType", .str "uuid")]),
    ("null", .primitive .null []), ("boolean", .primitive .boolean []),
    ("int", .primitive .int []), ("long", .primitive .long []), ("float", .primitive .float []),
    ("double", .primitive .double []), ("bytes", .primitive .bytes []),
    ("string", .primitive .string [])]

def builtIn? (word : Text) : Option Schema := builtIns.lookup word

theorem builtIn?_eq (word : Text) :
    builtIn? word = (logicalTypes.lookup word).or ((Primitive.ofName? word).map .plain) := by
  have words : builtIns = logicalTypes ++ Primitive.all.map fun kind => (kind.name, .plain kind) :=
    rfl
  rw [builtIn?, words, List.lookup_append, Primitive.ofName?]
  congr 1
  induction Primitive.all with
  | nil => rfl
  | cons kind _ ih =>
    rw [List.map_cons, List.lookup_cons, List.find?_cons, ih]
    by_cases same : kind.name = word
    · simp [same]
    · simp [same, beq_false_of_ne (Ne.symm same)]

def constructors : List Text := ["array", "map", "union", "decimal"]

namespace Token

def Counts (number : Nat) (token : Token) : Prop :=
  token.kind = .number ∧ Number.readInt64 token.text = .value number

/-- A word that starts no other type is a name, and so is every quoted word. -/
def Names (text : Text) (token : Token) : Prop :=
  token.kind = .identifier ∧ token.text = text ∧ (token.quoted = true ∨
    builtIn? text = none ∧ text ∉ constructors)

end Token

inductive Phrase where
  | base (schema : Schema)
  | whole (schema : Schema)
  | branches (schemas : List Schema)

/-- The tokens before a place form a type expression that denotes a schema at a site, or a part of
one: its base, before a question mark, or the branches of a union. A question mark belongs to the
expression before it. -/
inductive Denotes (site : Site) : Phrase → List Token → List Token → Prop
  | container {tokens first inside behind rest schema} {kind : Container}
      (word : Word kind.name tokens first) (opening : Mark '<' first inside)
      (inner : Denotes site (.whole schema) inside behind) (closing : Mark '>' behind rest) :
      Denotes site (.base (.container kind schema [])) tokens rest
  | union {tokens first inside behind rest branches} (word : Word "union" tokens first)
      (opening : Mark '\x7b' first inside) (inner : Denotes site (.branches branches) inside behind)
      (closing : Mark '\x7d' behind rest) (legal : Schema.Apart branches) :
      Denotes site (.base (.union branches [])) tokens rest
  | decimal {tokens first inside behind rest precision} (word : Word "decimal" tokens first)
      (opening : Mark '(' first inside) (digits : Next (·.Counts precision) inside behind)
      (closing : Mark ')' behind rest) :
      Denotes site (.base (.primitive .bytes [("logicalType", .str "decimal"),
        ("precision", .int precision), ("scale", .int 0)])) tokens rest
  | scaled {tokens first inside between after behind rest precision scale}
      (word : Word "decimal" tokens first) (opening : Mark '(' first inside)
      (digits : Next (·.Counts precision) inside between) (comma : Mark ',' between after)
      (fraction : Next (·.Counts scale) after behind) (closing : Mark ')' behind rest) :
      Denotes site (.base (.primitive .bytes [("logicalType", .str "decimal"),
        ("precision", .int precision), ("scale", .int scale)])) tokens rest
  | builtIn {tokens rest word schema} (here : Word word tokens rest)
      (known : builtIn? word = some schema) : Denotes site (.base schema) tokens rest
  | name {tokens rest text schema} (here : Next (·.Names text) tokens rest)
      (resolved : site.resolve? text = some schema) : Denotes site (.base schema) tokens rest
  | plain {tokens rest schema} (base : Denotes site (.base schema) tokens rest)
      (ends : nextIsMark '?' rest = false) : Denotes site (.whole schema) tokens rest
  | null {tokens behind rest schema} (base : Denotes site (.base schema) tokens behind)
      (sign : Mark '?' behind rest) (isNull : schema.isNull = true) :
      Denotes site (.whole schema) tokens rest
  | optional {tokens behind rest schema} (base : Denotes site (.base schema) tokens behind)
      (sign : Mark '?' behind rest) (notNull : ¬schema.isNull = true)
      (legal : Schema.Apart [.plain .null, schema]) :
      Denotes site (.whole (.union [.plain .null, schema] [])) tokens rest
  | one {tokens rest branch} (here : Denotes site (.whole branch) tokens rest) :
      Denotes site (.branches [branch]) tokens rest
  | more {tokens behind next rest branch branches}
      (here : Denotes site (.whole branch) tokens behind) (comma : Mark ',' behind next)
      (others : Denotes site (.branches branches) next rest) :
      Denotes site (.branches (branch :: branches)) tokens rest

theorem makeUnion_ok_iff {branches union} :
    Schema.makeUnion branches = .ok union ↔ Schema.Apart branches ∧ .union branches [] = union := by
  have legal := @Schema.branchFault?_eq_none_iff [] branches
  simp only [List.not_mem_nil, not_false_eq_true, implies_true, and_true] at legal
  rw [Schema.makeUnion, ← legal]
  cases Schema.branchFault? [] branches <;> simp

theorem wordType_ok_iff {site : Site} {token : Token} :
    wordType site token = .ok schema ↔
      (if token.quoted then site.resolve? token.text
        else (builtIn? token.text).or (site.resolve? token.text)) = some schema := by
  unfold wordType
  rw [builtIn?_eq]
  cases token.quoted <;> cases logicalTypes.lookup token.text <;>
    cases Primitive.ofName? token.text <;> cases site.resolve? token.text <;> simp

section Sound

variable {site : Site} {last : Token} {tokens : List Token}

/-! ## What is read is derived -/

theorem counts_of_readInteger {result} (read : readInteger last tokens = .ok result) :
    Next (·.Counts result.value) tokens result.rest := by
  obtain ⟨token, accepted, read⟩ := bind_ok.mp read
  split at read
  · rename_i number
    cases read
    exact (next_of_accept accepted).mono fun holds => ⟨of_decide_eq_true holds.2, holds.1 ▸ number⟩
  · cases read

private theorem denotes_of_readDecimal {word : Token} {result} (isWord : word.isKeyword "decimal")
    (read : readDecimal last tokens = .ok result) :
    Denotes site (.base result.value) (word :: tokens) result.rest := by
  obtain ⟨opening, opened, read⟩ := bind_ok.mp read
  obtain ⟨precision, counted, read⟩ := bind_ok.mp read
  have digits := counts_of_readInteger counted
  dsimp only at read
  split at read
  · rename_i comma
    obtain ⟨scale, counted, read⟩ := bind_ok.mp read
    obtain ⟨closing, closed, read⟩ := bind_ok.mp read
    cases read
    exact .scaled (.mk isWord) (mark_of_accept opened) digits (mark_of_nextIsMark comma)
      (counts_of_readInteger counted) (mark_of_accept closed)
  · obtain ⟨closing, closed, read⟩ := bind_ok.mp read
    cases read
    exact .decimal (.mk isWord) (mark_of_accept opened) digits (mark_of_accept closed)

theorem denotes_of_wordType {token : Token} {rest : List Token} (kind : token.kind = .identifier)
    (other : ∀ word ∈ constructors, ¬token.isKeyword word) (read : wordType site token = .ok schema)
    : Denotes site (.base schema) (token :: rest) rest := by
  have read := wordType_ok_iff.mp read
  split at read
  · rename_i quoted
    exact .name (.mk ⟨kind, rfl, .inl quoted⟩) read
  · rename_i unquoted
    have isKeyword : token.isKeyword token.text := by simp [Token.isKeyword, kind, unquoted]
    rcases Option.or_eq_some_iff.mp read with known | ⟨unknown, resolved⟩
    · exact .builtIn (.mk isKeyword) known
    · have starts := fun among => other token.text among isKeyword
      exact .name (.mk ⟨kind, rfl, .inr ⟨unknown, starts⟩⟩) resolved

theorem denotes_of_passOptional {behind result} (base : Denotes site (.base schema) tokens behind)
    (read : passOptional schema behind = .ok result) :
    Denotes site (.whole result.value) tokens result.rest := by
  cases behind with
  | nil =>
    cases read
    exact .plain base rfl
  | cons =>
    rw [passOptional] at read
    split at read
    · rename_i isMark
      split at read
      · rename_i isNull
        cases read
        exact .null base (.mk isMark) isNull
      · rename_i notNull
        split at read
        · rename_i made
          cases read
          obtain ⟨legal, rfl⟩ := makeUnion_ok_iff.mp made
          exact .optional base (.mk isMark) notNull legal
        · cases read
    · rename_i noMark
      cases read
      exact .plain base (Bool.eq_false_iff.mpr noMark)

mutual

theorem denotes_of_readType {tokens result} (read : readType site last tokens = .ok result) :
    Denotes site (.whole result.value) tokens result.rest := by
  rw [readType] at read
  obtain ⟨base, found, read⟩ := bind_ok.mp read
  obtain ⟨whole, optional, read⟩ := bind_ok.mp read
  cases read
  exact denotes_of_passOptional (denotes_of_readBaseType found) optional
termination_by (tokens.length, 1)

private theorem denotes_of_readBaseType {tokens : List Token} {result : Consumed tokens Schema}
    (read : readBaseType site last tokens = .ok result) :
    Denotes site (.base result.value) tokens result.rest := by
  cases tokens with
  | nil =>
    rw [readBaseType] at read
    cases read
  | cons =>
    rw [readBaseType] at read
    split at read
    · cases read
    rename_i kind
    split at read
    · rename_i keyword
      obtain ⟨opening, opened, read⟩ := bind_ok.mp read
      obtain ⟨inner, found, read⟩ := bind_ok.mp read
      obtain ⟨closing, closed, read⟩ := bind_ok.mp read
      cases read
      have shorter := opening.shorter
      have inside := denotes_of_readType found
      simp only [Consumed.later, Consumed.give]
      rcases Bool.or_eq_true_iff.mp keyword with isArray | isMap
      · rw [if_pos (isKeyword_iff.mp isArray).2.2]
        exact .container (.mk isArray) (mark_of_accept opened) inside (mark_of_accept closed)
      · rw [if_neg (by rw [(isKeyword_iff.mp isMap).2.2]; decide)]
        exact .container (.mk isMap) (mark_of_accept opened) inside (mark_of_accept closed)
    split at read
    · rename_i isUnion
      obtain ⟨opening, opened, read⟩ := bind_ok.mp read
      obtain ⟨branches, found, read⟩ := bind_ok.mp read
      obtain ⟨closing, closed, read⟩ := bind_ok.mp read
      have shorter := opening.shorter
      have inside := denotes_of_readBranches found
      split at read
      · cases read
      · rename_i made
        cases read
        obtain ⟨legal, rfl⟩ := makeUnion_ok_iff.mp made
        exact .union (.mk isUnion) (mark_of_accept opened) inside (mark_of_accept closed) legal
    split at read
    · rename_i isDecimal
      obtain ⟨decimal, found, same⟩ := map_ok.mp read
      cases same
      exact denotes_of_readDecimal isDecimal found
    · obtain ⟨schema, meant, same⟩ := map_ok.mp read
      cases same
      exact denotes_of_wordType (Decidable.not_not.mp kind) (by simp_all [constructors]) meant
termination_by (tokens.length, 0)
decreasing_by
  · subst_vars
    exact Prod.Lex.left _ _ (Nat.lt_succ_of_lt shorter)
  · subst_vars
    exact Prod.Lex.left _ _ (Nat.lt_succ_of_lt shorter)

theorem denotes_of_readBranches {tokens : List Token} {result : Consumed tokens (List Schema)}
    (read : readBranches site last tokens = .ok result) :
    Denotes site (.branches result.value) tokens result.rest := by
  rw [readBranches] at read
  obtain ⟨branch, first, read⟩ := bind_ok.mp read
  have here := denotes_of_readType first
  split at read
  · rename_i comma
    obtain ⟨branches, others, read⟩ := bind_ok.mp read
    cases read
    have shorter := branch.skip.shorter
    exact .more here (mark_of_nextIsMark comma) (denotes_of_readBranches others)
  · cases read
    exact .one here
termination_by (tokens.length, 2)
decreasing_by
  · exact Prod.Lex.right _ (by decide)
  · exact Prod.Lex.left _ _ shorter

end

end Sound

/-! ## What is derived is read -/

section Complete

variable {site : Site} {last token : Token} {tokens inside behind rest : List Token}

theorem Next.readInteger {number : Nat} (next : Next (·.Counts number) tokens rest) (last : Token) :
    Gives (readInteger last tokens) number rest := by
  obtain @⟨token, _, kind, value⟩ := next
  refine ⟨.next number, bind_ok.mpr ⟨.next token, if_pos (decide_eq_true kind), ?_⟩, rfl, rfl⟩
  simp only [Consumed.next, value]
  rfl

private theorem gives_container {kind : Container} (isWord : token.isKeyword kind.name)
    (opening : Mark '<' tokens inside) (inner : Gives (readType site last inside) schema behind)
    (closing : Mark '>' behind rest) :
    Gives (readBaseType site last (token :: tokens)) (.container kind schema []) rest := by
  obtain ⟨opened, isOpen, rfl⟩ := opening.acceptMark last
  obtain ⟨inner, read, rfl, rfl⟩ := inner
  obtain ⟨closed, isClosed, rfl⟩ := closing.acceptMark last
  obtain ⟨identifier, _, text⟩ := isKeyword_iff.mp isWord
  have isOne : (token.isKeyword "array" || token.isKeyword "map") = true := by
    cases kind with
    | array => exact Bool.or_eq_true_iff.mpr (.inl isWord)
    | map => exact Bool.or_eq_true_iff.mpr (.inr isWord)
  have meant : (if token.text = "array" then Container.array else .map) = kind := by
    rw [text]
    cases kind <;> decide
  refine ⟨(((opened.andThen inner).andThen closed).give (.container kind inner.value [])).later, ?_,
    rfl, rfl⟩
  rw [readBaseType, if_neg (not_not_intro identifier), if_pos isOne, meant]
  exact bind_ok.mpr ⟨opened, isOpen, bind_ok.mpr ⟨inner, read, bind_ok.mpr ⟨closed, isClosed, rfl⟩⟩⟩

private theorem gives_union {branches : List Schema} (isWord : token.isKeyword "union")
    (opening : Mark '\x7b' tokens inside)
    (inner : Gives (readBranches site last inside) branches behind)
    (closing : Mark '\x7d' behind rest) (legal : Schema.Apart branches) :
    Gives (readBaseType site last (token :: tokens)) (.union branches []) rest := by
  obtain ⟨opened, isOpen, rfl⟩ := opening.acceptMark last
  obtain ⟨inner, read, rfl, rfl⟩ := inner
  obtain ⟨closed, isClosed, rfl⟩ := closing.acceptMark last
  have noArray := isKeyword_unique isWord (show _ ≠ ("array" : Text) by decide)
  have noMap := isKeyword_unique isWord (show _ ≠ ("map" : Text) by decide)
  refine ⟨(((opened.andThen inner).andThen closed).give (.union inner.value [])).later, ?_, rfl, rfl⟩
  rw [readBaseType, if_neg (not_not_intro (isKeyword_iff.mp isWord).1),
    if_neg (by simp [noArray, noMap]), if_pos isWord]
  refine bind_ok.mpr ⟨opened, isOpen, bind_ok.mpr ⟨inner, read, bind_ok.mpr ⟨closed, isClosed, ?_⟩⟩⟩
  rw [makeUnion_ok_iff.mpr ⟨legal, rfl⟩]
  rfl

theorem gives_decimal (isWord : token.isKeyword "decimal")
    (read : Gives (readDecimal last tokens) schema rest) :
    Gives (readBaseType site last (token :: tokens)) schema rest := by
  obtain ⟨result, read, rfl, rfl⟩ := read
  have noArray := isKeyword_unique isWord (show _ ≠ ("array" : Text) by decide)
  have noMap := isKeyword_unique isWord (show _ ≠ ("map" : Text) by decide)
  have noUnion := isKeyword_unique isWord (show _ ≠ ("union" : Text) by decide)
  refine ⟨result.later, ?_, rfl, rfl⟩
  rw [readBaseType, if_neg (not_not_intro (isKeyword_iff.mp isWord).1),
    if_neg (by simp [noArray, noMap]), if_neg noUnion, if_pos isWord, read]
  rfl

theorem gives_word (kind : token.kind = .identifier)
    (other : ∀ word ∈ constructors, ¬token.isKeyword word)
    (meant : wordType site token = .ok schema) :
    Gives (readBaseType site last (token :: rest)) schema rest := by
  simp only [constructors, List.forall_mem_cons] at other
  obtain ⟨noArray, noMap, noUnion, noDecimal, _⟩ := other
  refine ⟨.next schema, ?_, rfl, rfl⟩
  rw [readBaseType, if_neg (not_not_intro kind), if_neg (by simp [noArray, noMap]), if_neg noUnion,
    if_neg noDecimal, meant]
  rfl

private theorem passOptional_stay (ends : nextIsMark '?' tokens = false) :
    passOptional schema tokens = .ok (.stay schema) := by
  cases tokens with
  | nil => rfl
  | cons => exact if_neg (Bool.eq_false_iff.mp ends)

theorem gives_whole {base : Schema} (passed : Passed behind Schema)
    (found : Gives (readBaseType site last tokens) base behind)
    (optional : passOptional base behind = .ok passed) :
    Gives (readType site last tokens) passed.value passed.rest := by
  obtain ⟨base, found, rfl, rfl⟩ := found
  refine ⟨base.andPass passed, ?_, rfl, rfl⟩
  rw [readType]
  exact bind_ok.mpr ⟨base, found, bind_ok.mpr ⟨passed, optional, rfl⟩⟩

/-- What the reader of a phrase gives. Branches end where no comma follows. -/
def Phrase.Read (site : Site) (last : Token) (tokens rest : List Token) : Phrase → Prop
  | .base schema => Gives (readBaseType site last tokens) schema rest
  | .whole schema => Gives (readType site last tokens) schema rest
  | .branches schemas =>
    nextIsMark ',' rest = false → Gives (readBranches site last tokens) schemas rest

theorem Denotes.read {phrase : Phrase} (denotes : Denotes site phrase tokens rest) :
    phrase.Read site last tokens rest := by
  induction denotes with
  | container word opening _ closing ih =>
    obtain ⟨isWord⟩ := word
    exact gives_container isWord opening ih closing
  | union word opening _ closing legal ih =>
    obtain ⟨isWord⟩ := word
    exact gives_union isWord opening (ih (closing.noMark (by decide))) closing legal
  | decimal word opening digits closing =>
    obtain ⟨isWord⟩ := word
    have noComma := closing.noMark (by decide : _ ≠ ',')
    obtain ⟨opened, isOpen, rfl⟩ := opening.acceptMark last
    obtain ⟨precision, counted, rfl, rfl⟩ := digits.readInteger last
    obtain ⟨closed, isClosed, rfl⟩ := closing.acceptMark last
    refine gives_decimal isWord ⟨((opened.andThen precision).andThen closed).give _,
      bind_ok.mpr ⟨opened, isOpen, bind_ok.mpr ⟨precision, counted, ?_⟩⟩, rfl, rfl⟩
    exact (if_neg (Bool.eq_false_iff.mp noComma)).trans (bind_ok.mpr ⟨closed, isClosed, rfl⟩)
  | scaled word opening digits comma fraction closing =>
    obtain ⟨isWord⟩ := word
    obtain ⟨opened, isOpen, rfl⟩ := opening.acceptMark last
    obtain ⟨precision, counted, rfl, rfl⟩ := digits.readInteger last
    obtain ⟨isComma, rfl⟩ := comma.isNext
    obtain ⟨scale, scaled, rfl, rfl⟩ := fraction.readInteger last
    obtain ⟨closed, isClosed, rfl⟩ := closing.acceptMark last
    refine gives_decimal isWord ⟨(((opened.andThen precision).skip.andThen scale).andThen
      closed).give _, bind_ok.mpr ⟨opened, isOpen, bind_ok.mpr ⟨precision, counted, ?_⟩⟩, rfl, rfl⟩
    exact (if_pos isComma).trans
      (bind_ok.mpr ⟨scale, scaled, bind_ok.mpr ⟨closed, isClosed, rfl⟩⟩)
  | builtIn here known =>
    obtain @⟨token, _, isWord⟩ := here
    obtain ⟨kind, unquoted, rfl⟩ := isKeyword_iff.mp isWord
    have apart : ∀ word ∈ constructors, builtIn? word = none := by decide
    refine gives_word kind (fun word among isOther => ?_)
      (wordType_ok_iff.mpr (by simp [unquoted, known]))
    rw [(isKeyword_iff.mp isOther).2.2, apart word among] at known
    cases known
  | name here resolved =>
    obtain @⟨token, _, kind, rfl, free⟩ := here
    refine gives_word kind (fun word among isOther => ?_) (wordType_ok_iff.mpr ?_)
    · obtain ⟨_, unquoted, rfl⟩ := isKeyword_iff.mp isOther
      rcases free with quoted | ⟨_, other⟩
      · exact absurd (quoted.symm.trans unquoted) (by decide)
      · exact other among
    · rcases free with quoted | ⟨unknown, _⟩
      · rw [if_pos quoted, resolved]
      · simp [unknown, resolved]
  | plain _ ends ih => exact gives_whole (.stay _) ih (passOptional_stay ends)
  | null _ sign isNull ih =>
    obtain @⟨token, _, isMark⟩ := sign
    exact gives_whole (.next _) ih ((if_pos isMark).trans (if_pos isNull))
  | optional _ sign notNull legal ih =>
    obtain @⟨token, _, isMark⟩ := sign
    refine gives_whole (.next _) ih ((if_pos isMark).trans ((if_neg notNull).trans ?_))
    rw [makeUnion_ok_iff.mpr ⟨legal, rfl⟩]
  | one _ ih =>
    intro noComma
    obtain ⟨branch, first, rfl, rfl⟩ := ih
    refine ⟨branch.give [branch.value], ?_, rfl, rfl⟩
    rw [readBranches]
    exact bind_ok.mpr ⟨branch, first, if_neg (Bool.eq_false_iff.mp noComma)⟩
  | more _ comma _ ih ihOthers =>
    intro noComma
    obtain ⟨branch, first, rfl, rfl⟩ := ih
    obtain ⟨isComma, rfl⟩ := comma.isNext
    obtain ⟨branches, others, rfl, rfl⟩ := ihOthers noComma
    refine ⟨(branch.skip.andThen branches).give (branch.value :: branches.value), ?_, rfl, rfl⟩
    rw [readBranches]
    exact bind_ok.mpr ⟨branch, first,
      (if_pos isComma).trans (bind_ok.mpr ⟨branches, others, rfl⟩)⟩

/-- A type expression is read up to a place exactly if the tokens before it form one, where every
name is in scope and every union is legal, and the schema is what it denotes. -/
theorem readType_gives_iff {schema : Schema} :
    Gives (readType site last tokens) schema rest ↔ Denotes site (.whole schema) tokens rest := by
  constructor
  · rintro ⟨result, read, rfl, rfl⟩
    exact denotes_of_readType read
  · exact Denotes.read

end Complete

end Avro.Idl
