import Avro.Proofs.Idl.Imports
import Avro.Proofs.Idl.Locality

/-!
# Repeated imports

A source can be cut where the reader stands between two declarations. An import of a document that
is known there changes nothing when it is put in.
-/

set_option autoImplicit false

open List

namespace Avro.Idl

open Position Avro.Path

variable {lexeme : Lexeme} {path reference : Text} {kind : ImportKind} {document : Imported}
  {imports : List Token} {last : Token} {draft : Draft}

/-! ## Cutting texts -/

section Lexing

variable {position next : Position} {text rest content left more : Text} {before : List Token}

private theorem splitAtText?_append {pattern before after : Text}
    (found : Text.splitAtText? pattern text = some (before, after)) (nonempty : pattern ≠ [])
    (more : Text) :
    Text.splitAtText? pattern (text ++ more) = some (before, after ++ more) := by
  induction text generalizing before after with
  | nil =>
    rw [Text.splitAtText?] at found
    split at found
    · rename_i empty
      exact absurd (List.isEmpty_iff.mp empty) nonempty
    · cases found
  | cons cell text ih =>
    have fits : pattern.length ≤ (cell :: text).length := by
      rw [splitAtText?_ok found, length_append, length_append]
      omega
    have starts : pattern.isPrefixOf (cell :: (text ++ more)) =
        pattern.isPrefixOf (cell :: text) := by
      rw [Bool.eq_iff_iff, isPrefixOf_iff_prefix, isPrefixOf_iff_prefix]
      refine ⟨fun starts => ?_, fun starts => starts.trans (prefix_append _ more)⟩
      exact prefix_of_prefix_length_le starts (prefix_append _ more) fits
    rw [Text.splitAtText?] at found
    rw [cons_append, Text.splitAtText?, starts]
    split at found
    · rename_i here
      cases found
      rw [if_pos here, ← cons_append, drop_append_of_le_length fits]
    · rename_i notHere
      obtain ⟨⟨_, _⟩, later, same⟩ := Option.map_eq_some_iff.mp found
      cases same
      rw [if_neg notHere, ih later]
      rfl

theorem skipCounted_append {count : Nat} (remains : (skipCounted count position text).2 ≠ [])
    (more : Text) :
    skipCounted count position (text ++ more) =
      ((skipCounted count position text).1, (skipCounted count position text).2 ++ more) := by
  fun_induction skipCounted count position text with
  | case1 => rw [skipCounted]
  | case2 => exact absurd rfl remains
  | case3 count position cell rest ih =>
    exact ih remains

private theorem past_line_le (position : Position) (text : Text) :
    position.line ≤ (position.past text).line := by
  induction text generalizing position with
  | nil => exact Nat.le_refl _
  | cons cell _ ih =>
    refine Nat.le_trans ?_ (ih (position.advance cell))
    unfold advance
    split
    · exact Nat.le_succ _
    · exact Nat.le_refl _

private theorem past_column (same : (position.past text).line = position.line) :
    (position.past text).column = position.column + text.length := by
  induction text generalizing position with
  | nil => rfl
  | cons cell text ih =>
    have later := past_line_le (position.advance cell) text
    change ((position.advance cell).past text).line = position.line at same
    change ((position.advance cell).past text).column = _
    by_cases breaks : cell.isChar '\n' = true
    · simp only [advance, if_pos breaks] at later same
      omega
    · simp only [advance, if_neg breaks] at same ⊢
      rw [ih same]
      exact Nat.succ_add_eq_add_succ _ _

private theorem eq_nil_of_past_eq (same : position.past text = position) : text = [] := by
  have columns := past_column (congrArg line same)
  rw [same] at columns
  exact length_eq_zero_iff.mp (Nat.left_eq_add.mp columns)

theorem past_append (position : Position) (text more : Text) :
    position.past (text ++ more) = (position.past text).past more := foldl_append

private theorem same_of_content {tokens others : List Token}
    (contents : others.map Token.content = tokens.map Token.content)
    (docs : others.map Token.doc = tokens.map Token.doc) : Same tokens [] others [] := by
  induction tokens generalizing others with
  | nil => exact map_eq_nil_iff.mp contents ▸ .nil
  | cons _ _ ih =>
    cases others with
    | nil => cases contents
    | cons =>
      obtain ⟨here, later⟩ := List.cons.inj contents
      obtain ⟨doc, laterDocs⟩ := List.cons.inj docs
      exact .cons ⟨(congrArg Token.kind here).symm, (congrArg Token.text here).symm, doc.symm,
        (congrArg Token.quoted here).symm⟩ (ih later laterDocs)

theorem readTokens_alike {doc tokens} (read : readTokens position doc text = .ok (tokens, last))
    (position' : Position) :
    ∃ others last', readTokens position' doc text = .ok (others, last') ∧
      Same tokens [] others [] := by
  obtain ⟨others, last', run, contents, docs⟩ := (run_of_readTokens read).elsewhere position' doc
  rw [map_append, map_append] at contents
  exact ⟨others, last', run.read,
    same_of_content (append_inj_left' contents rfl) (docs rfl)⟩

/-- A text at a position reads as some tokens, whatever stands behind it. It ends neither inside of
a token nor of a comment, and no documentation waits there for the next token. -/
def Lexes (position : Position) (text : Text) (tokens : List Token) : Prop :=
  ∀ more, readTokens position [] (text ++ more) =
    (readTokens (position.past text) [] more).map fun (later, last) => (tokens ++ later, last)

theorem Gap.append {doc gap after : Text} (passes : Gap doc gap rest after) (remains : rest ≠ [])
    (more : Text) : Gap doc gap (rest ++ more) after := by
  obtain ⟨cell, later, rfl⟩ := exists_cons_of_ne_nil remains
  cases passes with
  | blank isBlank => exact .blank isBlank
  | line inside ends =>
    refine .line inside fun _ _ same => ?_
    cases same
    exact ends cell later rfl
  | block closes split counts =>
    refine .block (splitAtText?_append closes (by decide) more) ?_ fun position => ?_
    · rw [← append_assoc, ← split]
      rfl
    · rw [← append_assoc, skipCounted_append (by rw [counts]; exact remains), counts]

theorem Run.ne_nil {doc : Text} {token : Token} (run : Run position doc text (before ++ [token]) last) :
    text ≠ [] := by
  rintro rfl
  have read := run.read
  rw [readTokens] at read
  exact append_ne_nil_of_right_ne_nil before (cons_ne_nil token [])
    (Prod.mk.inj (Except.ok.inj read)).1.symm

private theorem Run.append_of_mark {doc tokens mark} (run : Run position doc text tokens last)
    (ends : tokens = before ++ [mark]) (isMark : mark.kind = .punctuation)
    (atEnd : mark.position.past mark.raw = position.past text) (more : Text) :
    readTokens position doc (text ++ more) =
      (readTokens (position.past text) [] more).map fun (later, last) => (tokens ++ later, last) := by
  induction run generalizing before with
  | finish => exact absurd ends.symm (append_ne_nil_of_right_ne_nil _ (cons_ne_nil _ _))
  | gap passes run ih =>
    rw [past_append] at atEnd ⊢
    rw [append_assoc, (passes.append (ends ▸ run).ne_nil more).readTokens_eq, ih ends atEnd]
  | @lexeme position _ inner _ first lexeme _ _ reads run ih =>
    rw [past_append] at atEnd ⊢
    rw [append_assoc]
    cases before with
    | nil =>
      -- the mark is the last cell, and what follows is read from there
      cases ends
      obtain rfl := eq_nil_of_past_eq atEnd.symm
      rw [(reads.before (.inl isMark)).readTokens_eq]
      rfl
    | cons _ before =>
      obtain ⟨rfl, rfl⟩ := List.cons.inj ends
      obtain ⟨cell, later, rfl⟩ := exists_cons_of_ne_nil run.ne_nil
      have again : Reads first inner (cell :: later ++ more) lexeme :=
        reads.before (.inr fun _ _ same => .inr ⟨later, congrArg (· :: later) (List.cons.inj same).1⟩)
      rw [again.readTokens_eq, ih rfl atEnd]
      cases readTokens ((position.past (first :: inner)).past (cell :: later)) [] more <;> rfl

theorem lexes_of_mark {mark : Token}
    (read : readTokens position [] text = .ok (before ++ [mark], last))
    (isMark : mark.kind = .punctuation) (atEnd : mark.position.past mark.raw = position.past text) :
    Lexes position text (before ++ [mark]) :=
  (run_of_readTokens read).append_of_mark rfl isMark atEnd

end Lexing

/-! ## Between declarations -/

inductive IsImport (kind : ImportKind) (reference : Text) : List Token → Prop
  | mk {keyword word string mark : Token} (isKeyword : keyword.isKeyword "import" = true)
      (isWord : word.kind = .identifier) (known : ImportKind.ofName? word.text = some kind)
      (isString : string.kind = .string) (names : string.text = reference)
      (closes : mark.isMark ';' = true) : IsImport kind reference [keyword, word, string, mark]

section Declarations

variable {Failure : Type}
  {followImport : Draft → ImportKind → Text → Except (Error Failure) Draft}

/-- The reader comes from one place between declarations to another, past some imports. -/
inductive Reaches (followImport : Draft → ImportKind → Text → Except (Error Failure) Draft)
    (space : Text) (last : Token) :
    Draft → List Token → List (ImportKind × Text) → Draft → List Token → Prop
  | here {draft tokens} : Reaches followImport space last draft tokens [] draft tokens
  | import_ {draft next after} {token : Token} {tokens rest passed statement}
      (keyword : token.isKeyword "import" = true) (read : readImport last tokens = .ok statement)
      (followed : followImport draft statement.value.1 statement.value.2 = .ok next)
      (reaches : Reaches followImport space last next statement.rest passed after rest) :
      Reaches followImport space last draft (token :: tokens) (statement.value :: passed) after rest
  | declaration {draft after} {token : Token} {tokens rest passed declared}
      (opens : ¬token.isMark '\x7d' = true) (other : ¬token.isKeyword "import" = true)
      (read : readDeclaration space draft last (token :: tokens) = .ok declared)
      (reaches : Reaches followImport space last declared.value declared.rest passed after rest) :
      Reaches followImport space last draft (token :: tokens) passed after rest

theorem not_isMark_of_isKeyword {token : Token} {word : Text}
    (isKeyword : token.isKeyword word = true) (mark : Char) : ¬token.isMark mark = true := by
  intro isMark
  simp only [Token.isKeyword, Token.isMark, Bool.and_eq_true, decide_eq_true_eq] at isKeyword isMark
  rw [isKeyword.1.1] at isMark
  cases isMark.1

private theorem follow_known {importer : Importer Failure} {depth : Nat} {after : Draft}
    (followed :
      follow (some importer) (readSource (some importer) depth) path draft kind reference = .ok
      after) (fetched : importer.fetch kind reference path = .ok document) :
    clean document.path ∈ after.session.imported := by
  by_cases known : clean document.path ∈ draft.session.imported
  · exact follow_keeps followed known
  · have noted := (follow_notesFresh importer (readSource_notesFresh importer depth) path draft kind
      reference).2 after.session (by rw [followed]; rfl)
    rw [noted, followLog, fetched]
    dsimp only
    rw [if_neg known]
    exact mem_append_left _ (mem_reverse.mpr mem_cons_self)

namespace Reaches

variable {space : Text} {last : Token} {draft after : Draft} {tokens rest : List Token}
  {passed : List (ImportKind × Text)}

theorem suffix (reaches : Reaches followImport space last draft tokens passed after rest) :
    rest <:+ tokens := by
  induction reaches with
  | here => exact suffix_refl _
  | @import_ _ _ _ _ _ _ _ statement _ _ _ _ ih =>
    exact (ih.trans statement.suffix).trans (suffix_cons _ _)
  | @declaration _ _ _ _ _ _ declared _ _ _ _ ih => exact ih.trans declared.suffix

theorem trans {middle between others}
    (first : Reaches followImport space last draft tokens passed middle between)
    (second : Reaches followImport space last middle between others after rest) :
    Reaches followImport space last draft tokens (passed ++ others) after rest := by
  induction first with
  | here => exact second
  | import_ keyword read followed _ ih => exact .import_ keyword read followed (ih second)
  | declaration opens other read _ ih => exact .declaration opens other read (ih second)

theorem readDeclarations_eq
    (reaches : Reaches followImport space last draft tokens passed after rest) (path name : Text) :
    readDeclarations followImport path space name last draft tokens =
      readDeclarations followImport path space name last after rest := by
  induction reaches with
  | here => rfl
  | import_ keyword read followed _ ih =>
    rw [readDeclarations, if_neg (not_isMark_of_isKeyword keyword _), if_pos keyword, read]
    dsimp only
    rw [followed]
    exact ih
  | declaration opens other read _ ih =>
    rw [readDeclarations, if_neg opens, if_neg other, read]
    exact ih

theorem again (reaches : Reaches followImport space last draft tokens passed after rest)
    {others left : List Token} (same : Same tokens rest others left)
    (behind : nextIsMark '=' left = true → nextIsMark '=' rest = true) (last' : Token) :
    Reaches followImport space last' draft others passed after left := by
  induction reaches generalizing others with
  | here =>
    obtain rfl := same.done
    exact .here
  | @import_ _ _ _ _ _ _ _ statement keyword read followed reaches ih =>
    obtain ⟨other, later, rfl, alike, same⟩ :=
      same.uncons (Nat.lt_of_le_of_lt reaches.suffix.length_le statement.later.shorter)
    obtain ⟨_, sameStatement, sameRest⟩ := same.split statement.suffix reaches.suffix
    obtain ⟨again, read, value, rfl⟩ := readImport_local.again read sameStatement last'
    rw [← value] at followed ⊢
    exact .import_ ((alike.isKeyword _).symm.trans keyword) read followed (ih sameRest behind)
  | @declaration _ _ _ _ _ _ declared opens other read reaches ih =>
    have shorter := Nat.lt_of_le_of_lt reaches.suffix.length_le declared.shorter
    obtain ⟨token, later, rfl, alike, _⟩ := same.uncons shorter
    obtain ⟨_, sameDeclared, sameRest⟩ := same.split declared.suffix reaches.suffix
    obtain ⟨again, read, value, rfl⟩ :=
      readDeclaration_again read sameDeclared ((Ahead.noMark '=').before sameRest behind) last'
    rw [alike.isMark] at opens
    rw [alike.isKeyword] at other
    refine .declaration opens other read ?_
    rw [value]
    exact ih sameRest behind

theorem known {importer : Importer Failure} {depth : Nat} (reaches : Reaches (follow (some
      importer) (readSource (some importer) depth) path) space last draft tokens passed after
      rest) :
    draft.session.imported ⊆ after.session.imported ∧
      ∀ kind reference document, (kind, reference) ∈ passed →
        importer.fetch kind reference path = .ok document →
        clean document.path ∈ after.session.imported := by
  induction reaches with
  | here => exact ⟨fun _ => id, fun _ _ _ member => absurd member not_mem_nil⟩
  | import_ _ _ followed _ ih =>
    obtain ⟨keeps, later⟩ := ih
    refine ⟨fun _ there => keeps (follow_keeps followed there), ?_⟩
    intro kind reference document member fetched
    rcases mem_cons.mp member with same | behind
    · rw [← same] at followed
      exact keeps (follow_known followed fetched)
    · exact later kind reference document behind fetched
  | declaration _ _ read _ ih =>
    obtain ⟨keeps, later⟩ := ih
    rw [readDeclaration_imported read] at keeps
    exact ⟨keeps, later⟩

end Reaches

theorem readDeclarations_alike {space name after tokens rest others}
    (read : readDeclarations followImport path space name last draft tokens = .ok (after, rest))
    (same : Same tokens [] others []) (last' : Token) :
    ∃ left, readDeclarations followImport path space name last' draft others = .ok (after, left) ∧
      Same rest [] left [] := by
  fun_induction readDeclarations followImport path space name last draft tokens
    generalizing others with
  | case1 | case3 | case4 | case6 => cases read
  | case2 draft token tokens closes =>
    cases read
    cases same with
    | cons alike follows =>
      rw [readDeclarations, if_pos ((alike.isMark _).symm.trans closes)]
      exact ⟨_, rfl, follows⟩
  | case5 draft token tokens opens keyword statement found next followed ih =>
    cases same with
    | cons alike follows =>
      obtain ⟨_, sameStatement, sameRest⟩ := follows.split statement.suffix nil_suffix
      obtain ⟨again, found, value, rfl⟩ := readImport_local.again found sameStatement last'
      rw [alike.isMark] at opens
      rw [alike.isKeyword] at keyword
      rw [← value] at followed
      rw [readDeclarations, if_neg opens, if_pos keyword, found]
      dsimp only
      rw [followed]
      exact ih read sameRest
  | case7 draft token tokens opens other declared found ih =>
    obtain ⟨_, sameDeclared, sameRest⟩ := same.split declared.suffix nil_suffix
    obtain ⟨again, found, value, rfl⟩ :=
      readDeclaration_again found sameDeclared ((Ahead.noMark '=').before sameRest id) last'
    cases same with
    | cons alike =>
      rw [alike.isMark] at opens
      rw [alike.isKeyword] at other
      rw [readDeclarations, if_neg opens, if_neg other, found]
      dsimp only
      rw [value]
      exact ih read sameRest

theorem IsImport.reaches (isImport : IsImport kind reference imports) {after : Draft}
    (followed : followImport draft kind reference = .ok after) (space : Text) (last : Token)
    (rest : List Token) :
    Reaches followImport space last draft (imports ++ rest) [(kind, reference)] after rest := by
  obtain @⟨keyword, word, string, mark, isKeyword, isWord, known, isString, rfl, closes⟩ := isImport
  let statement : Consumed (word :: string :: mark :: rest) (ImportKind × Text) :=
    (((Consumed.next word).andThen (Consumed.next string)).andThen (Consumed.next mark)).give
      (kind, string.text)
  have read : readImport last (word :: string :: mark :: rest) = .ok statement := by
    refine bind_ok.mpr ⟨.next word, if_pos (decide_eq_true isWord), ?_⟩
    simp only [Consumed.next, known]
    exact bind_ok.mpr ⟨.next string, if_pos (decide_eq_true isString),
      bind_ok.mpr ⟨.next mark, if_pos closes, rfl⟩⟩
  exact Reaches.import_ isKeyword read followed .here

private theorem readProtocol_insert {session front rest left head passed}
    (headed : readHead last (front ++ rest) = .ok head)
    (reaches : Reaches
      followImport head.value.name.space last ⟨session, []⟩ head.rest passed draft rest)
    (isImport : IsImport kind reference imports)
    (idle : followImport draft kind reference = .ok draft) (same : Same rest [] left [])
    (last' : Token) :
    (readProtocol followImport session path (front ++ (imports ++ left)) last').toOption =
      (readProtocol followImport session path (front ++ rest) last).toOption := by
  have isImported : nextIsMark '=' (imports ++ left) = false := by
    obtain @⟨keyword, word, string, mark, isKeyword, _, _, _, _, _⟩ := isImport
    exact Bool.eq_false_iff.mpr (not_isMark_of_isKeyword isKeyword '=')
  obtain ⟨_, sameHead, sameRest⟩ :=
    (Same.front front rest (imports ++ left)).split head.suffix reaches.suffix
  obtain ⟨head', headed', value, rfl⟩ := readHead_local.again headed sameHead last'
  have before := reaches.readDeclarations_eq path head.value.name.simple
  have after := ((reaches.again sameRest (fun sign => by rw [isImported] at sign; cases sign)
    last').trans (isImport.reaches idle _ last' left)).readDeclarations_eq path
      head.value.name.simple
  unfold readProtocol
  rw [headed, headed']
  dsimp only
  rw [value, before, after]
  cases here : readDeclarations followImport path head.value.name.space head.value.name.simple last
      draft rest with
  | error error =>
    cases there : readDeclarations followImport path head.value.name.space head.value.name.simple
        last' draft left with
    | error => rfl
    | ok result =>
      obtain ⟨_, read, _⟩ := readDeclarations_alike there same.symm last
      rw [here] at read
      cases read
  | ok result =>
    obtain ⟨after, behind⟩ := result
    obtain ⟨_, read, alike⟩ := readDeclarations_alike here same last'
    rw [read]
    -- the same tokens are left behind the closing brace, and there may be none
    cases alike with
    | nil | cons => rfl

end Declarations

/-! ## Cuts of a source -/

section Sources

variable {Failure : Type}

/-- A source can be cut where its reader stands between two declarations, past some imports. -/
inductive Cut (importer : Importer Failure) (path before back : Text)
    (passed : List (ImportKind × Text)) (draft : Draft) : Prop
  | mk {front rest last head} (lexes : Lexes .start before front)
      (lexed : lex (before ++ back) = .ok (front ++ rest, last))
      (headed : readHead last (front ++ rest) = .ok head)
      (reaches : Reaches (follow (some importer) (readSource (some importer) importer.limit) path)
        head.value.name.space last ⟨⟨.start [] [], [clean path]⟩, []⟩ head.rest passed draft
        rest)

private theorem follow_idle {importer : Importer Failure} {readSource}
    (fetched : importer.fetch kind reference path = .ok document)
    (known : clean document.path ∈ draft.session.imported) :
    follow (some importer) readSource path draft kind reference = .ok draft := by
  unfold follow
  dsimp only
  rw [fetched]
  exact if_pos known

private theorem toOption_bind {ε α β : Type} {first second : Except ε α}
    (same : first.toOption = second.toOption) (next : α → Except ε β) :
    (first >>= next).toOption = (second >>= next).toOption := by
  cases first with
  | error =>
    cases second with
    | error => rfl
    | ok => cases same
  | ok =>
    cases second with
    | error => cases same
    | ok =>
      cases same
      rfl

theorem Cut.insert {importer : Importer Failure} {before back statement : Text}
    {passed : List (ImportKind × Text)} (cut : Cut importer path before back passed draft)
    (lexes : Lexes (start.past before) statement imports)
    (isImport : IsImport kind reference imports)
    (fetched : importer.fetch kind reference path = .ok document)
    (known : clean document.path ∈ draft.session.imported) :
    (compile (some importer) path (before ++ statement ++ back)).toOption =
      (compile (some importer) path (before ++ back)).toOption := by
  obtain @⟨front, rest, last, head, lexesBefore, lexed, headed, reaches⟩ := cut
  have behind : readTokens (start.past before) [] back = .ok (rest, last) := by
    obtain ⟨⟨later, final⟩, read, same⟩ := map_ok.mp ((lexesBefore back).symm.trans lexed)
    obtain ⟨joined, rfl⟩ := Prod.mk.inj same
    rw [read, append_cancel_left joined]
  obtain ⟨left, last', behindImport, same⟩ :=
    readTokens_alike behind ((start.past before).past statement)
  have lexedInserted : lex (before ++ statement ++ back) =
      .ok (front ++ (imports ++ left), last') := by
    rw [append_assoc, lex, lexesBefore, lexes, behindImport]
    rfl
  have read : (readSource (some importer) (1 + importer.limit)
        ⟨.start [] [], [clean path]⟩ path (before ++ statement ++ back)).toOption =
      (readSource (some importer) (1 + importer.limit)
        ⟨.start [] [], [clean path]⟩ path (before ++ back)).toOption := by
    rw [Nat.add_comm, readSource, readSource, lexedInserted, lexed]
    exact readProtocol_insert headed reaches isImport (follow_idle fetched known) same last'
  exact toOption_bind read _

private theorem Importer.Finds.limited {importer : Importer Failure} {paths : List Text}
    (finds : importer.Finds paths) (limit : Nat) :
    Importer.Finds { importer with limit := limit } paths := finds

theorem imported_eq_parsed {importer : Importer Failure} {source : Text} {protocol : Protocol}
    {session : Session} (read : readSource (some importer) (1 + importer.limit) ⟨.start [] [],
      [clean path]⟩ path source = .ok (protocol, session)) :
    session.imported = (parsedPaths (compileLog importer path source)).reverse := by
  have noted := (readSource_notesFresh importer (1 + importer.limit)
    ⟨.start [] [], [clean path]⟩ path source).2 session (by rw [read]; rfl)
  rw [noted]
  exact (reverse_cons ..).symm

/-- Whatever the imports among a source and its documents, if an importer finds no more documents
than its limit says:

* compiling never fails for the depth, and a higher limit changes nothing;
* no document is parsed twice, and the source itself only once; in the end the parsed documents are
  those that are noted as imported;
* where the source is cut between declarations, the documents imported so far are known, and a
  further import of a known document may be put in there without any effect on the outcome. -/
theorem compile_imports_once {importer : Importer Failure} {paths : List Text}
    (finds : importer.Finds paths) (enough : paths.length ≤ importer.limit) (path source : Text) :
    (∀ error, compile (some importer) path source = .error error → error.exhausted = false) ∧
    (∀ limit, paths.length ≤ limit →
      compile (some { importer with limit := limit }) path source =
        compile (some importer) path source) ∧
    (parsedPaths (compileLog importer path source)).Nodup ∧
    (∀ protocol session, readSource (some importer) (1 + importer.limit)
        ⟨.start [] [], [clean path]⟩ path source = .ok (protocol, session) →
      session.imported = (parsedPaths (compileLog importer path source)).reverse) ∧
    ∀ before back passed draft, source = before ++ back →
      Cut importer path before back passed draft →
      (∀ kind reference document, (kind, reference) ∈ passed →
        importer.fetch kind reference path = .ok document →
        clean document.path ∈ draft.session.imported) ∧
      ∀ statement imports kind reference document,
        Lexes (start.past before) statement imports →
        IsImport kind reference imports →
        importer.fetch kind reference path = .ok document →
        clean document.path ∈ draft.session.imported →
        (compile (some importer) path (before ++ statement ++ back)).toOption =
          (compile (some importer) path source).toOption := by
  refine ⟨fun _ => compile_not_exhausted finds enough, fun limit more => ?_,
    compileLog_distinct importer path source, fun _ _ => imported_eq_parsed, ?_⟩
  · exact compile_agree (finds.limited limit) more finds enough fun _ _ _ _ => rfl
  · rintro before back passed draft rfl cut
    refine ⟨?_, fun _ _ _ _ _ => cut.insert⟩
    obtain ⟨_, _, _, reaches⟩ := cut
    exact reaches.known.2

/-- A source that imports a document, with a second import of it in another spelling put in. -/
theorem compile_imports_once_respelled :
    let importer : Importer Unit :=
      ⟨fun _ _ _ => .ok ⟨"a.avdl", "protocol A \x7b record R \x7b \x7d \x7d"⟩, 1⟩
    let before : Text := "protocol P \x7b import idl \"a.avdl\";"
    let statement : Text := " import idl \"./a.avdl\";"
    let back : Text := " fixed F(4); \x7d"
    (∃ draft, Cut importer "p.avdl" before back [(.idl, "a.avdl")] draft) ∧
      (compile (some importer) "p.avdl" (before ++ back)).toOption.isSome = true ∧
      (compile (some importer) "p.avdl" (before ++ statement ++ back)).toOption =
        (compile (some importer) "p.avdl" (before ++ back)).toOption := by
  intro importer before statement back
  let word (text : String) (column : Nat) : Token :=
    ⟨.identifier, text, text, [], false, ⟨1, column⟩⟩
  let mark (char : Char) (column : Nat) : Token :=
    ⟨.punctuation, [.scalar char], [.scalar char], [], false, ⟨1, column⟩⟩
  let string (text raw : String) (column : Nat) : Token :=
    ⟨.string, text, raw, [], false, ⟨1, column⟩⟩
  let imported := [word "import" 14, word "idl" 21, string "a.avdl" "\"a.avdl\"" 25, mark ';' 33]
  let front := [word "protocol" 1, word "P" 10, mark '\x7b' 12] ++ imported
  let size : Token := ⟨.number, "4", "4", [], false, ⟨1, 43⟩⟩
  let rest := [word "fixed" 35, word "F" 41, mark '(' 42, size, mark ')' 44, mark ';' 45,
    mark '\x7d' 47]
  let again := [word "import" 35, word "idl" 42, string "./a.avdl" "\"./a.avdl\"" 46, mark ';' 56]
  let last := endToken ⟨1, 48⟩ []
  have lexedFront : lex before = .ok (front.dropLast ++ [mark ';' 33], endToken ⟨1, 34⟩ []) :=
    ok_of_toOption (by decide +kernel)
  have lexedAgain : readTokens (start.past before) [] statement =
      .ok (again.dropLast ++ [mark ';' 56], endToken ⟨1, 57⟩ []) :=
    ok_of_toOption (by decide +kernel)
  have lexed : lex (before ++ back) = .ok (front ++ rest, last) :=
    ok_of_toOption (by decide +kernel)
  have isImport : IsImport .idl "a.avdl" imported :=
    .mk (by decide) rfl (by decide) rfl rfl (by decide)
  have isAgain : IsImport .idl "./a.avdl" again :=
    .mk (by decide) rfl (by decide) rfl rfl (by decide)
  obtain ⟨draft, cut⟩ : ∃ draft, Cut importer "p.avdl" before back [(.idl, "a.avdl")] draft := by
    have isHead : (readHead last (front ++ rest)).toOption.map
        (fun head => (head.value.name.space, head.rest)) = some ([], imported ++ rest) := by
      decide +kernel
    obtain ⟨head, headed, same⟩ := Option.map_eq_some_iff.mp isHead
    obtain ⟨space, behind⟩ := Prod.mk.inj same
    have follows : (follow (some importer) (readSource (some importer) importer.limit) "p.avdl"
        ⟨⟨.start [] [], [clean "p.avdl"]⟩, []⟩ .idl "a.avdl").toOption.isSome = true := by
      decide +kernel
    obtain ⟨draft, followed⟩ := Option.isSome_iff_exists.mp follows
    refine ⟨draft, .mk (lexes_of_mark lexedFront rfl (by decide +kernel)) lexed
      (ok_of_toOption headed) ?_⟩
    rw [behind]
    exact isImport.reaches (ok_of_toOption followed) _ last rest
  have finds : importer.Finds ["a.avdl"] := by
    rintro _ _ _ _ ⟨⟩
    decide +kernel
  obtain ⟨_, _, _, _, cuts⟩ :=
    compile_imports_once finds (Nat.le_refl _) "p.avdl" (before ++ back)
  obtain ⟨known, inserts⟩ := cuts before back _ draft rfl cut
  refine ⟨⟨draft, cut⟩, by decide +kernel, ?_⟩
  exact inserts statement again .idl "./a.avdl" _
    (lexes_of_mark lexedAgain rfl (by decide +kernel)) isAgain rfl
    (known .idl "a.avdl" _ (mem_singleton.mpr rfl) rfl)

end Sources

end Avro.Idl
