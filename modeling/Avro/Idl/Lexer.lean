import Avro.Idl.Fault

/-!
# Lexing

The tokens of a source, each with the documentation comment before it.
-/

set_option autoImplicit false

namespace Avro.Idl

/-!
## Documentation comments

A documentation comment loses the decoration of its lines: blanks around each line, one star at its
start and blanks after that.
-/

def cleanLine (line : Text) : Text :=
  let line := Text.trim line
  Text.trim (if Text.startsWith line "*" then line.drop 1 else line)

def cleanDoc (body : Text) : Text :=
  Text.trim (Text.join "\n" ((Text.splitOn '\n' body).map cleanLine))

/-!
## Reading tokens

Blanks and comments separate tokens. The last documentation comment before a token belongs to it.
Identifiers may hold dots and dashes, so qualified names are single tokens.
-/

def isIdentifierStart : Cell → Bool
  | .scalar char => char == '_' || Text.isLetter char
  | .stray _ => false

def isIdentifierPart : Cell → Bool
  | .scalar char =>
    char == '_' || char == '.' || char == '-' || Text.isLetter char || Text.isDigit char
  | .stray _ => false

def isNumberStart : Cell → Bool
  | .scalar char => char == '-' || char.isDigit
  | .stray _ => false

def marks : List Char :=
  ['\x7b', '\x7d', '(', ')', '[', ']', '<', '>', ',', ';', '=', '?', '@', ':']

def isMarkCell : Cell → Bool
  | .scalar char => marks.contains char
  | .stray _ => false

def commentWidth : Cell → Nat
  | .scalar char => (String.utf8EncodeChar char).length
  | .stray _ => 3

/-- Leaves out cells until they count for a length. A comment with stray bytes therefore ends
before its closing mark, and the rest of it is read as code. -/
def skipCounted : Nat → Position → Text → Position × Text
  | 0, position, text => (position, text)
  | _ + 1, position, [] => (position, [])
  | count + 1, position, cell :: rest =>
    skipCounted (count + 1 - commentWidth cell) (position.advance cell) rest

def hexValue? : Cell → Option Nat
  | .scalar char =>
    if char.isDigit then some (char.toNat - 48)
    else if 'a' ≤ char && char ≤ 'f' then some (char.toNat - 87)
    else if 'A' ≤ char && char ≤ 'F' then some (char.toNat - 55)
    else none
  | .stray _ => none

def readHex : Nat → Nat → Position → Text → Except Fault (Nat × Position × Text)
  | 0, value, position, text => .ok (value, position, text)
  | _ + 1, _, position, [] => .error ⟨position, .badUnicode⟩
  | count + 1, value, position, cell :: rest =>
    let position := position.advance cell
    match hexValue? cell with
    | some digit => readHex count (value * 16 + digit) position rest
    | none => .error ⟨position, .badUnicode⟩

def charOfCode (code : Nat) : Char := if Json.isSurrogate code then '�' else Char.ofNat code

theorem length_readHex {count value result : Nat} {position after : Position} {text rest : Text}
    (read : readHex count value position text = .ok (result, after, rest)) :
    rest.length ≤ text.length := by
  fun_induction readHex count value position text with
  | case1 => cases read; exact Nat.le_refl _
  | case2 => cases read
  | case3 count value position cell text next digit found ih =>
    have := ih read
    simp
    omega
  | case4 => cases read

/-- Reads a string after its opening quote, which stands at `opening`. It ends on its line. The
place of a faulty escape is behind it. -/
def readQuoted (opening position : Position) (text : Text) :
    Except Fault (Text × Position × Text) :=
  match text with
  | [] => .error ⟨opening, .openString⟩
  | cell :: rest =>
    let next := position.advance cell
    if cell.isChar '"' then .ok ([], next, rest)
    else if cell.isChar '\n' then .error ⟨opening, .openString⟩
    else if cell.isChar '\\' then
      match rest with
      | [] => .error ⟨opening, .openString⟩
      | letter :: after =>
        let next := next.advance letter
        if letter.isChar 'u' then
          if Text.byteLength after < 4 then .error ⟨next, .badUnicode⟩
          else
            match _read : readHex 4 0 next after with
            | .error fault => .error fault
            | .ok (code, next, left) =>
              (readQuoted opening next left).map fun (content, next, left) =>
                (.scalar (charOfCode code) :: content, next, left)
        else
          match Json.escaped? letter with
          | some char =>
            (readQuoted opening next after).map fun (content, next, left) =>
              (.scalar char :: content, next, left)
          | none => .error ⟨next, .badEscape letter⟩
    else
      (readQuoted opening next rest).map fun (content, next, left) =>
        (.scalar cell.shown :: content, next, left)
termination_by text.length
decreasing_by
  · have := length_readHex _read
    simp only [List.length_cons]
    omega
  · simp only [List.length_cons]
    omega
  · simp

structure Lexeme where
  kind : TokenKind
  text : Text
  length : Nat
  quoted : Bool
deriving DecidableEq, Repr

def readLexeme (position : Position) (first : Cell) (rest : Text) : Except Fault Lexeme :=
  if first.isChar '"' then
    (readQuoted position (position.advance first) rest).map fun (content, _, left) =>
      ⟨.string, content, 1 + rest.length - left.length, false⟩
  else if first.isChar '\x60' then
    match Text.splitFirst? '\x60' rest with
    | some (name, _) => .ok ⟨.identifier, name, name.length + 2, true⟩
    | none => .error ⟨position, .openName⟩
  else if isNumberStart first then
    let literal := first :: rest.takeWhile Json.isNumberCell
    if literal = "-" then .error ⟨position, .badCharacter first⟩
    else .ok ⟨.number, literal, literal.length, false⟩
  else if isIdentifierStart first then
    let name := first :: rest.takeWhile isIdentifierPart
    .ok ⟨.identifier, name, name.length, false⟩
  else if isMarkCell first then .ok ⟨.punctuation, [first], 1, false⟩
  else .error ⟨position, .badCharacter first⟩

def endToken (position : Position) (doc : Text) : Token :=
  { kind := .endOfFile, text := [], raw := [], doc := doc, quoted := false, position := position }

def docOfComment? : Text → Option Text
  | .scalar '*' :: body => some (cleanDoc body)
  | _ => none

theorem length_skipCounted (count : Nat) (position : Position) (text : Text) :
    (skipCounted count position text).2.length ≤ text.length := by
  fun_induction skipCounted count position text with
  | case1 => exact Nat.le_refl _
  | case2 => exact Nat.le_refl _
  | case3 count position cell rest ih =>
    simp
    omega

def readTokens (position : Position) (doc : Text) (text : Text) :
    Except Fault (List Token × Token) :=
  match text with
  | [] => .ok ([], endToken position doc)
  | first :: rest =>
    if first.isBlank then readTokens (position.advance first) doc rest
    else if Text.startsWith text "//" then
      let comment := rest.takeWhile fun cell => !cell.isChar '\n'
      readTokens ((position.advance first).past comment) doc (rest.drop comment.length)
    else if Text.startsWith text "/*" then
      match Text.splitAtText? "*/" (rest.drop 1) with
      | none => .error ⟨position, .openComment⟩
      | some (body, _) =>
        let doc := (docOfComment? body).getD doc
        let left := skipCounted (Text.byteLength body + 3) (position.advance first) rest
        readTokens left.1 doc left.2
    else
      match readLexeme position first rest with
      | .error fault => .error fault
      | .ok lexeme =>
        let raw := text.take lexeme.length
        let token : Token := {
          kind := lexeme.kind
          text := lexeme.text
          raw := raw
          doc := doc
          quoted := lexeme.quoted
          position := position }
        (readTokens (position.past raw) [] (rest.drop (lexeme.length - 1))).map
          fun (tokens, last) => (token :: tokens, last)
termination_by text.length
decreasing_by
  · simp
  · simp only [List.length_drop, List.length_cons]
    omega
  · have := length_skipCounted (Text.byteLength body + 3) (position.advance first) rest
    simp only [List.length_cons]
    omega
  · simp only [List.length_drop, List.length_cons]
    omega

def lex (source : Text) : Except Fault (List Token × Token) := readTokens .start [] source

end Avro.Idl
