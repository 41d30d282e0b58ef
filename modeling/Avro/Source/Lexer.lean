import Avro.Text.Character
import Avro.Number.Decimal

/-!
# Tokens of Go source

Tokens and comments have places, because layout keeps some of what the places say: which lines are
empty, and which parts stand on one line. Columns count bytes.
-/

set_option autoImplicit false

namespace Avro.Source

structure Place where
  offset : Nat
  line : Nat
  column : Nat
deriving DecidableEq, Repr, Inhabited

namespace Place

def start : Place := ⟨0, 1, 1⟩

def step (place : Place) (cell : Cell) : Place :=
  if cell.isChar '\n' then ⟨place.offset + 1, place.line + 1, 1⟩
  else ⟨place.offset + cell.width, place.line, place.column + cell.width⟩

def after (place : Place) (text : Text) : Place := text.foldl step place

end Place

def keywords : List String :=
  ["break", "case", "chan", "const", "continue", "default", "defer", "else", "fallthrough", "for",
    "func", "go", "goto", "if", "import", "interface", "map", "package", "range", "return",
    "select", "struct", "switch", "type", "var"]

def isNameStart : Cell → Bool
  | .scalar char => char == '_' || Text.isLetter char
  | .stray _ => false

def isNamePart : Cell → Bool
  | .scalar char => char == '_' || Text.isLetter char || Text.isDigit char
  | .stray _ => false

inductive TokenKind where
  | name
  | integer
  | float
  | imaginary
  | character
  | string
  | word (word : String)
  | mark (mark : String)
  | semicolon (written : Bool)
  | ending
deriving DecidableEq, Repr, Inhabited

/-- A token. `led` says that a comment ends on the line before it, and `trailed` that a comment
ends the line in front of it. -/
structure Token where
  kind : TokenKind
  text : Text
  place : Place
  led : Bool
  trailed : Bool
deriving Repr, Inhabited

structure Comment where
  text : Text
  place : Place
deriving Repr, Inhabited

namespace Comment

def isLine (comment : Comment) : Bool := comment.text.startsWith "//"

def lastLine (comment : Comment) : Nat :=
  comment.place.line + (comment.text.filter fun cell => cell.isChar '\n').length

end Comment

structure CommentGroup where
  first : Comment
  more : List Comment
deriving Repr, Inhabited

namespace CommentGroup

def comments (group : CommentGroup) : List Comment := group.first :: group.more

def last (group : CommentGroup) : Comment := group.more.getLastD group.first

def breaksLine (group : CommentGroup) : Bool :=
  group.comments.any fun comment =>
    comment.place.line != group.first.place.line || comment.isLine || comment.text.hasChar '\n'

end CommentGroup

/-!
## Lexing Go source

The end of a line implies a semicolon after a token that may end a statement. A comment in front of
that end comes first.
-/

def isAllowed : Cell → Bool
  | .scalar char => char != '\x00' && char != '\uFEFF'
  | .stray _ => false

def marks : List String :=
  ["<<=", ">>=", "&^=", "...", "&&", "||", "<-", "++", "--", "==", "!=", "<=", ">=", ":=", "+=",
    "-=", "*=", "/=", "%=", "&=", "|=", "^=", "<<", ">>", "&^", "+", "-", "*", "/", "%", "&", "|",
    "^", "<", ">", "=", "!", "(", ")", "[", "]", "\x7b", "\x7d", ",", ".", ":", "~"]

def endsStatement : TokenKind → Bool
  | .name => true
  | .integer => true
  | .float => true
  | .imaginary => true
  | .character => true
  | .string => true
  | .word word => ["break", "continue", "fallthrough", "return"].contains word
  | .mark mark => ["++", "--", ")", "]", "\x7d"].contains mark
  | .semicolon _ => false
  | .ending => false

def isDecimal (cell : Cell) : Bool := cell.shown.isDigit

def isHex (cell : Cell) : Bool :=
  let char := cell.shown
  char.isDigit || ('a' ≤ char && char ≤ 'f') || ('A' ≤ char && char ≤ 'F')

def hexValue (cell : Cell) : Nat :=
  let char := cell.shown
  if char.isDigit then char.toNat - '0'.toNat
  else char.toLower.toNat - 'a'.toNat + 10

inductive Radix where
  | decimal
  | leadingZero
  | binary
  | octal
  | hex
deriving DecidableEq, Repr, Inhabited

def radixOf (text : Text) : Radix × Text :=
  match text with
  | .scalar '0' :: second :: _ =>
    match second.shown.toLower with
    | 'x' => (.hex, text.take 2)
    | 'o' => (.octal, text.take 2)
    | 'b' => (.binary, text.take 2)
    | _ => (.leadingZero, text.take 1)
  | .scalar '0' :: [] => (.leadingZero, text.take 1)
  | _ => (.decimal, [])

def digitsFit (radix : Radix) (digits : Text) : Bool :=
  match radix with
  | .leadingZero => digits.all fun cell => cell.shown < '8' || cell.isChar '_'
  | .octal => digits.all fun cell => cell.shown < '8' || cell.isChar '_'
  | .binary => digits.all fun cell => cell.shown < '2' || cell.isChar '_'
  | _ => true

def separatorsFit (isDigit : Cell → Bool) (afterDigit : Bool) : Text → Bool
  | [] => true
  | cell :: rest =>
    if cell.isChar '_' then
      afterDigit && (rest.head?.map isDigit).getD false && separatorsFit isDigit false rest
    else separatorsFit isDigit (isDigit cell) rest

def exponent? (radix : Radix) (text : Text) : Option Text :=
  match text with
  | letter :: rest =>
    let isE := letter.isChar 'e' || letter.isChar 'E'
    let isP := letter.isChar 'p' || letter.isChar 'P'
    if isE || isP then
      if (isE && (radix == .decimal || radix == .leadingZero)) || (isP && radix == .hex) then
        let sign := match rest with
          | .scalar '+' :: _ => rest.take 1
          | .scalar '-' :: _ => rest.take 1
          | _ => []
        let digits := (rest.drop sign.length).takeWhile fun cell =>
          isDecimal cell || cell.isChar '_'
        if digits.any isDecimal then some (letter :: (sign ++ digits)) else none
      else none
    else some []
  | [] => some []

def number? (text : Text) : Option (TokenKind × Text) :=
  let (radix, start) := radixOf text
  let isDigit := if radix == .hex then isHex else isDecimal
  let isBody := fun cell => isDigit cell || cell.isChar '_'
  let body := text.drop start.length
  let whole := body.takeWhile isBody
  let afterWhole := body.drop whole.length
  let fraction := match afterWhole with
    | .scalar '.' :: more => .scalar '.' :: more.takeWhile isBody
    | _ => ([] : Text)
  let hasPoint := !fraction.isEmpty
  match exponent? radix (afterWhole.drop fraction.length) with
  | none => none
  | some exponent =>
    let literal := start ++ whole ++ fraction ++ exponent
    let isImaginary := ((text.drop literal.length).head?.map fun cell => cell.isChar 'i').getD false
    let isFloat := hasPoint || !exponent.isEmpty
    if hasPoint && (radix == .octal || radix == .binary) then none
    else if radix != .leadingZero && !(whole ++ fraction).any isDigit then none
    else if radix == .hex && hasPoint && exponent.isEmpty then none
    else if !isFloat && !isImaginary && !digitsFit radix (start.drop 2 ++ whole) then none
    else if !separatorsFit isDigit (radix == .hex || radix == .octal || radix == .binary)
        (literal.drop (if radix == .leadingZero then 0 else start.length)) then none
    else if isImaginary then some (.imaginary, literal ++ [.scalar 'i'])
    else some (if isFloat then .float else .integer, literal)

def escapeDigits? (length limit : Nat) (text : Text) : Option Text :=
  let digits := text.take length
  let value := digits.foldl (fun value cell => value * 16 + hexValue cell) 0
  if digits.length = length && digits.all isHex && value ≤ limit &&
      !(limit = 0x10FFFF && 0xD800 ≤ value && value < 0xE000) then
    some (text.drop length)
  else none

def afterEscape? (mark : Char) (text : Text) : Option Text :=
  match text with
  | [] => none
  | cell :: rest =>
    let char := cell.shown
    if char = mark || "abfnrtv\\".toList.contains char then some rest
    else if char = 'x' then escapeDigits? 2 255 rest
    else if char = 'u' then escapeDigits? 4 0x10FFFF rest
    else if char = 'U' then escapeDigits? 8 0x10FFFF rest
    else
      let digits := text.take 3
      let value := digits.foldl (fun value cell => value * 8 + (cell.shown.toNat - '0'.toNat)) 0
      if digits.length = 3 && digits.all (fun cell => '0' ≤ cell.shown && cell.shown ≤ '7') &&
          value ≤ 255 then some (text.drop 3)
      else none

def afterQuoted? (mark : Char) : Nat → Nat → Text → Option (Nat × Text)
  | 0, _, _ => none
  | _, _, [] => none
  | fuel + 1, count, cell :: rest =>
    if cell.isChar mark then some (count, rest)
    else if cell.isChar '\n' then none
    else if cell.isChar '\\' then (afterEscape? mark rest).bind (afterQuoted? mark fuel (count + 1))
    else afterQuoted? mark fuel (count + 1) rest

def quoted? (mark : Char) (rest : Text) : Option (TokenKind × Text) :=
  match afterQuoted? mark (rest.length + 1) 0 rest with
  | none => none
  | some (count, after) =>
    let literal := .scalar mark :: rest.take (rest.length - after.length)
    if mark = '"' then some (.string, literal)
    else if count = 1 then some (.character, literal)
    else none

def raw? (rest : Text) : Option (TokenKind × Text) :=
  let body := rest.takeWhile fun cell => !cell.isChar '\x60'
  if body.length < rest.length then
    some (.string, .scalar '\x60' :: (body ++ [.scalar '\x60']))
  else none

def token? (text : Text) : Option (TokenKind × Text) :=
  match text with
  | [] => none
  | cell :: rest =>
    if isNameStart cell then
      let name := text.takeWhile isNamePart
      let shown := Text.shown name
      some (if keywords.contains shown then .word shown else .name, name)
    else if isDecimal cell ||
        (cell.isChar '.' && (rest.head?.map isDecimal).getD false) then number? text
    else if cell.isChar '"' then quoted? '"' rest
    else if cell.isChar '\'' then quoted? '\'' rest
    else if cell.isChar '\x60' then raw? rest
    else
      (marks.find? fun mark => text.startsWith (Text.ofString mark)).map fun mark =>
        (.mark mark, Text.ofString mark)

def comment? : Text → Option Text
  | .scalar '/' :: .scalar '*' :: rest =>
    (Text.splitAtText? "*/" rest).map fun (body, _) =>
      .scalar '/' :: .scalar '*' :: (body ++ [.scalar '*', .scalar '/'])
  | text => some (text.takeWhile fun cell => !cell.isChar '\n')

def lastNumber? (text : Text) : Option (Text × Option Nat) :=
  (Text.splitLast? ':' text).map fun (before, digits) =>
    (before, (Number.digits? digits).filter fun number => number < Nat.pow 2 64)

def isLineNumber (number : Nat) : Bool := 0 < number && number ≤ Nat.pow 2 30

/-- Whether the text of a directive for line numbers has a wrong number at its end. -/
def isMisnumbered (text : Text) : Bool :=
  match lastNumber? text with
  | none => false
  | some (_, none) => true
  | some (before, some number) =>
    match lastNumber? before with
    | some (_, some line) => !isLineNumber number || !isLineNumber line
    | _ => !isLineNumber number

def isWrongDirective (place : Place) (comment : Text) : Bool :=
  if comment.startsWith "//line " then
    place.column = 1 && isMisnumbered (Text.dropEnding (comment.drop 7) "\r")
  else
    comment.startsWith "/*line " && isMisnumbered (Text.dropEnding (comment.drop 7) "*/")

def withoutReturns (text : Text) : Text :=
  let isBlock := text.startsWith "/*"
  let rec clean : Text → Text
    | [] => []
    | .scalar '*' :: .scalar '\r' :: rest =>
      if isBlock && (rest.dropWhile fun cell => cell.isChar '\r').head? == some (.scalar '/') then
        .scalar '*' :: .scalar '\r' :: clean rest
      else .scalar '*' :: clean rest
    | cell :: rest => if cell.isChar '\r' then clean rest else cell :: clean rest
  clean text

def literalText (literal : Text) : Text :=
  if literal.startsWith "\x60" then literal.filter fun cell => !cell.isChar '\r' else literal

inductive Lexeme where
  | token (token : Token)
  | comment (comment : Comment)
deriving Repr, Inhabited

def bareToken (kind : TokenKind) (text : Text) (place : Place) : Lexeme :=
  .token ⟨kind, text, place, false, false⟩

def firstBreak? (place : Place) : Text → Option Place
  | [] => none
  | cell :: rest => if cell.isChar '\n' then some place else firstBreak? (place.step cell) rest

def lexemes? : Nat → Bool → Place → Text → Option (List Lexeme)
  | 0, _, _, _ => none
  | _, ends, place, [] =>
    some ((if ends then [bareToken (.semicolon false) "\n" place] else []) ++
      [bareToken .ending [] place])
  | fuel + 1, ends, place, cell :: rest =>
    let text : Text := cell :: rest
    if cell.isChar '\n' && ends then
      (lexemes? fuel false (place.step cell) rest).map fun more =>
        bareToken (.semicolon false) "\n" place :: more
    else if cell.isChar ' ' || cell.isChar '\t' || cell.isChar '\n' || cell.isChar '\r' then
      lexemes? fuel ends (place.step cell) rest
    else if text.startsWith "//" || text.startsWith "/*" then
      match (comment? text).filter fun comment => !isWrongDirective place comment with
      | none => none
      | some comment =>
        let lexeme := Lexeme.comment ⟨withoutReturns comment, place⟩
        let after := place.after comment
        let rest := text.drop comment.length
        match firstBreak? place comment with
        | some broken =>
          if ends then
            (lexemes? fuel false after rest).map fun more =>
              lexeme :: bareToken (.semicolon false) "\n" broken :: more
          else (lexemes? fuel false after rest).map fun more => lexeme :: more
        | none => (lexemes? fuel ends after rest).map fun more => lexeme :: more
    else if cell.isChar ';' then
      (lexemes? fuel false (place.step cell) rest).map fun more =>
        bareToken (.semicolon true) ";" place :: more
    else
      match token? text with
      | none => none
      | some (kind, literal) =>
        (lexemes? fuel (endsStatement kind) (place.after literal) (text.drop literal.length)).map
          fun more => bareToken kind (literalText literal) place :: more

def joined (gap : Nat) (line : Nat) : List Comment → List Comment × List Comment
  | [] => ([], [])
  | comment :: rest =>
    if comment.place.line ≤ line + gap then
      let (inside, outside) := joined gap comment.lastLine rest
      (comment :: inside, outside)
    else ([], comment :: rest)

def grouped : Nat → List Comment → List CommentGroup
  | 0, _ => []
  | _, [] => []
  | fuel + 1, comment :: rest =>
    let (inside, outside) := joined 1 comment.lastLine rest
    ⟨comment, inside⟩ :: grouped fuel outside

/-- The comments in front of a token, in groups, and the token with what they say about it. A
comment on the line of the token before is a group apart. -/
def settle (line : Nat) (comments : List Comment) (token : Token) :
    List CommentGroup × Token :=
  match comments with
  | [] => ([], token)
  | first :: rest =>
    let (beside, others) :=
      if first.place.line = line then
        let (inside, outside) := joined 0 first.lastLine rest
        ([(⟨first, inside⟩ : CommentGroup)], outside)
      else ([], first :: rest)
    let nextLine := (others.head?.map fun comment => comment.place.line).getD token.place.line
    let endsLine := match token.kind with
      | .semicolon _ => others.isEmpty
      | .ending => others.isEmpty
      | _ => false
    let groups := grouped others.length others
    let led := (groups.getLast?.map fun group =>
      group.last.lastLine + 1 == token.place.line).getD false
    let trailed := (beside.head?.map fun group =>
      nextLine != group.last.lastLine || endsLine).getD false
    (beside ++ groups, { token with led, trailed })

def arrange (line : Nat) (comments : List Comment) :
    List Lexeme → List Token × List CommentGroup
  | [] => ([], [])
  | .comment comment :: rest => arrange line (comments ++ [comment]) rest
  | .token token :: rest =>
    let (groups, token) := settle line comments token
    let (tokens, more) := arrange token.place.line [] rest
    (token :: tokens, groups ++ more)

def lex? (text : Text) : Option (List Token × List CommentGroup) :=
  if text.all isAllowed then
    (lexemes? (text.length + 1) false .start text).map (arrange 0 [])
  else none

end Avro.Source
