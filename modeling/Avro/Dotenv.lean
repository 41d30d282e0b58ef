import Avro.Text.Quoted

/-!
# Variables

Environment variables, and files that set more of them.
-/

set_option autoImplicit false

namespace Avro

/-!
## Environment variables

Variables by name, and references to them in a text: a dollar sign with a name, which may stand in
braces.
-/

abbrev Environment := List (Text × Text)

namespace Environment

def value (environment : Environment) (name : Text) : Text := (environment.lookup name).getD []

def set (environment : Environment) (name value : Text) : Environment :=
  (name, value) :: environment.filter fun (other, _) => other ≠ name

def isSettable (name value : Text) : Bool := !name.isEmpty && !value.hasChar '\x00'

def extend (environment more : Environment) : Environment :=
  environment ++ more.filter fun (name, value) =>
    isSettable name value && (environment.lookup name).isNone

inductive Reference where
  | variable (name : Text) (length : Nat)
  | malformed (length : Nat)
  | nothing
deriving DecidableEq, Repr, Inhabited

def isNameCell : Cell → Bool
  | .scalar char => char.isAlphanum || char = '_'
  | .stray _ => false

def isSpecial : Cell → Bool
  | .scalar char => char.isDigit || char ∈ ['*', '#', '$', '@', '!', '?', '-']
  | .stray _ => false

def reference : Text → Reference
  | [] => .nothing
  | first :: rest =>
    if first.isChar '\x7b' then
      match Text.splitFirst? '\x7d' rest with
      | none => .malformed 1
      | some (name, _) =>
        if name.isEmpty then .malformed 2 else .variable name (name.length + 2)
    else if isSpecial first then .variable [first] 1
    else
      let name := (first :: rest).takeWhile isNameCell
      if name.isEmpty then .nothing else .variable name name.length

/-- Replaces the references in a text. A reference to nothing is dropped, and a dollar sign that
starts no reference stays. -/
def expand (environment : Environment) (text : Text) : Text :=
  match text with
  | [] => []
  | cell :: rest =>
    if cell.isChar '$' then
      match reference rest with
      | .variable name length => environment.value name ++ expand environment (rest.drop length)
      | .malformed length => expand environment (rest.drop length)
      | .nothing => cell :: expand environment rest
    else cell :: expand environment rest
termination_by text.length
decreasing_by all_goals simp_wf; try omega

def references (text : Text) : List Text :=
  match text with
  | [] => []
  | cell :: rest =>
    if cell.isChar '$' then
      match reference rest with
      | .variable name length => name :: references (rest.drop length)
      | .malformed length => references (rest.drop length)
      | .nothing => references rest
    else references rest
termination_by text.length
decreasing_by all_goals simp_wf; try omega

end Environment

/-!
## Files of variables

A file of variables has one assignment per line, with an equals sign or a colon. A value may be
quoted and then span lines. A value that is not in single quotes may refer to variables of earlier
lines.
-/

namespace Dotenv

inductive Fault where
  | unexpectedCharacter (cell : Cell)
  | unclosedQuote
  | noAssignment
deriving DecidableEq, Repr, Inhabited

def Fault.message : Fault → Text
  | .unexpectedCharacter cell => "unexpected character " ++ Text.quote [cell] ++ " in variable name"
  | .unclosedQuote => "unterminated quoted value"
  | .noAssignment => "zero length string"

def isInlineBlank (char : Char) : Bool :=
  char ∈ ['\t', '\x0b', '\x0c', '\x0d', ' ', '\u0085', '\u00a0']

def isInlineBlankCell : Cell → Bool
  | .scalar char => isInlineBlank char
  | .stray _ => false

def trimStart (text : Text) : Text := text.dropWhile isInlineBlankCell

def trimEnd (text : Text) : Text := (text.reverse.dropWhile isInlineBlankCell).reverse

def isNameByte (byte : UInt8) : Bool :=
  let char := Char.ofNat byte.toNat
  isInlineBlank char || char = '_' || char = '.' || char.isDigit || Text.isLetter char ||
    char ∈ ['²', '³', '¹', '¼', '½', '¾']

def splitName (name : Text) : Text → Except Fault (Option (Text × Text))
  | [] => .ok none
  | cell :: rest =>
    if cell.isChar '=' || cell.isChar ':' then .ok (some (name.reverse, rest))
    else if cell.bytes.all isNameByte then splitName (cell :: name) rest
    else .error (.unexpectedCharacter cell)

def afterExport (text : Text) : Text :=
  let rest := text.drop 6
  let isWord := (rest.head?.map isInlineBlankCell).getD false
  if Text.startsWith text "export" && isWord then trimStart rest else text

def readName (text : Text) : Except Fault (Text × Text) :=
  let text := afterExport (trimStart text)
  match splitName [] text with
  | .error fault => .error fault
  | .ok none => if text.isEmpty then .error .noAssignment else .ok ([], trimStart text)
  | .ok (some (name, rest)) => .ok (Text.trimEnd name, trimStart rest)

def isReferenceCell : Cell → Bool
  | .scalar char => char.isUpper || char.isDigit || char = '_'
  | .stray _ => false

def dropChar (char : Char) : Text → Text
  | [] => []
  | cell :: rest => if cell.isChar char then rest else cell :: rest

def reference (text : Text) : Text × Text :=
  let start := dropChar '\x7b' (dropChar '(' text)
  (start.takeWhile isReferenceCell, dropChar '\x7d' (start.dropWhile isReferenceCell))

theorem length_dropChar (char : Char) (text : Text) :
    (dropChar char text).length ≤ text.length := by
  cases text with
  | nil => simp [dropChar]
  | cons cell rest => simp only [dropChar]; split <;> simp

theorem length_reference (text : Text) : (reference text).2.length ≤ text.length := by
  have outer := length_dropChar '(' text
  have inner := length_dropChar '\x7b' (dropChar '(' text)
  have dropped : ∀ rest : Text, (rest.dropWhile isReferenceCell).length ≤ rest.length :=
    fun rest => (List.dropWhile_sublist _).length_le
  have last := length_dropChar '\x7d'
    ((dropChar '\x7b' (dropChar '(' text)).dropWhile isReferenceCell)
  have middle := dropped (dropChar '\x7b' (dropChar '(' text))
  simp only [reference]
  omega

/-- Replaces references to variables. A backslash in front of one is dropped and leaves it as it
is, and so is a reference without a name. -/
def expand (earlier : Environment) (text : Text) : Text :=
  match text with
  | [] => []
  | cell :: rest =>
    if cell.isChar '$' then
      let found := reference rest
      let written := cell :: rest.take (rest.length - found.2.length)
      (if found.1.isEmpty then written else earlier.value found.1) ++ expand earlier found.2
    else if cell.isChar '\\' then
      match rest with
      | .scalar '$' :: after =>
        let found := reference after
        .scalar '$' :: after.take (after.length - found.2.length) ++ expand earlier found.2
      | rest => cell :: expand earlier rest
    else cell :: expand earlier rest
termination_by text.length
decreasing_by
  · have := length_reference rest
    simp_wf
    omega
  · have := length_reference after
    simp_wf
    omega
  · simp_wf
  · simp_wf

def unescape : Text → Text
  | .scalar '\\' :: .scalar '\\' :: rest => .scalar '\\' :: unescape rest
  | .scalar '\\' :: .scalar 'n' :: rest => .scalar '\n' :: unescape rest
  | .scalar '\\' :: .scalar 'r' :: rest => .scalar '\x0d' :: unescape rest
  | .scalar '\\' :: .scalar '$' :: rest => .scalar '\\' :: .scalar '$' :: unescape rest
  | .scalar '\\' :: cell :: rest => cell :: unescape rest
  | cell :: rest => cell :: unescape rest
  | [] => []

def splitQuote (quote : Char) (before : Text) : Text → Option (Text × Text)
  | [] => none
  | cell :: rest =>
    if cell.isChar quote && !((before.head?.map (·.isChar '\\')).getD false) then
      some (before.reverse, rest)
    else splitQuote quote (cell :: before) rest

def quotedValue (earlier : Environment) (quote : Char) (body : Text) : Text :=
  let body := (body.reverse.dropWhile (·.isChar quote)).reverse.dropWhile (·.isChar quote)
  if quote = '"' then expand earlier (unescape body) else body

def beforeComment (line : Text) : Text :=
  let ends := (List.range line.length).filter fun place =>
    match line.drop place with
    | blank :: sign :: _ => isInlineBlankCell blank && sign.isChar '#'
    | _ => false
  match ends.getLast? with
  | some place => line.take (place + 1)
  | none => line

def endsLine (cell : Cell) : Bool := cell.isChar '\n' || cell.isChar '\x0d'

/-- The value at the start of a text, and what follows. Without quotes it is read character by
character, so that a stray byte becomes a replacement character. -/
def readValue (earlier : Environment) (text : Text) : Except Fault (Text × Text) :=
  match text with
  | .scalar '"' :: rest => quoted '"' rest
  | .scalar '\'' :: rest => quoted '\'' rest
  | text =>
    let line := beforeComment (Text.sanitize (text.takeWhile fun cell => !endsLine cell))
    .ok (expand earlier (trimEnd (trimStart line)), text.dropWhile fun cell => !endsLine cell)
where
  quoted (quote : Char) (rest : Text) : Except Fault (Text × Text) :=
    match splitQuote quote [] rest with
    | some (body, rest) => .ok (quotedValue earlier quote body, rest)
    | none => .error .unclosedQuote

def skipBlank (comment : Bool) : Text → Text
  | [] => []
  | cell :: rest =>
    if comment then skipBlank (!cell.isChar '\n') rest
    else if cell.isChar '#' then skipBlank true rest
    else if cell.isBlank then skipBlank false rest
    else cell :: rest

/-- Reads assignments one after another. Each takes at least one cell, so as many rounds as cells
are enough. -/
def readAll : Nat → Environment → Text → Except Fault Environment
  | 0, earlier, _ => .ok earlier
  | rounds + 1, earlier, text =>
    match skipBlank false text with
    | [] => .ok earlier
    | text =>
      match readName text with
      | .error fault => .error fault
      | .ok (name, rest) =>
        match readValue earlier rest with
        | .error fault => .error fault
        | .ok (value, rest) => readAll rounds (earlier.set name value) rest

def unifyLines : Text → Text
  | .scalar '\x0d' :: .scalar '\n' :: rest => .scalar '\n' :: unifyLines rest
  | cell :: rest => cell :: unifyLines rest
  | [] => []

def read (text : Text) : Except Fault Environment :=
  let text := unifyLines text
  readAll text.length [] text

end Dotenv

end Avro
