import Avro.Idl.Lexer
import Avro.Yaml.Scanner

/-!
# Scalars and properties

Scalars in their three forms, and what may stand in front of a node.
-/

set_option autoImplicit false

namespace Avro.Yaml

/-!
## Plain and quoted scalars

A scalar consists of words with gaps between them. A gap inside a line stands as it is; a gap with a
line end folds into a blank, and with several into the further ones.
-/

/-- What stands between two words of a scalar: blanks of one line, or line ends. The first line end
is missing if it was escaped. -/
inductive Gap where
  | blanks (text : List Char)
  | lines (first further : List Char)
deriving DecidableEq, Repr, Inhabited

namespace Gap

def pushBlank (char : Char) : Gap → Gap
  | .blanks text => .blanks (text ++ [char])
  | .lines first further => .lines first further

def pushBreak (text : List Char) : Gap → Gap
  | .blanks _ => .lines text []
  | .lines first further => .lines first (further ++ text)

def text : Gap → List Char
  | .blanks text => text
  | .lines ['\n'] [] => [' ']
  | .lines ['\n'] further => further
  | .lines first further => first ++ further

def hasBreak : Gap → Bool
  | .blanks _ => false
  | .lines _ _ => true

end Gap

def readGap (column : Option Int) (gap : Gap) : Nat → Scan Gap
  | 0 => return gap
  | rounds + 1 => do
    need 1
    match ← charAt 0 with
    | none => return gap
    | some char =>
      if isBlank char then
        let here : Int := (← get).mark.column
        let isOutside := (column.map fun column => decide (here < column)).getD false
        if gap.hasBreak && char = '\t' && isOutside then
          throw .tabIndentation
        skip 1
        readGap column (gap.pushBlank char) rounds
      else if isBreak char then
        need 2
        let text ← readBreak
        readGap column (gap.pushBreak text) rounds
      else return gap

def flowPunctuation : List Char := [',', '?', '[', ']', '\x7b', '\x7d']

def readWord (word : List Char) : Nat → Scan (List Char)
  | 0 => return word
  | rounds + 1 => do
    match ← charAt 0 with
    | none => return word
    | some char =>
      if isSpacing char || (char = ':' && (← endsAt 1 isSpacing)) ||
          ((← get).inFlow && char ∈ flowPunctuation) then
        return word
      else
        skip 1
        need 2
        readWord (char :: word) rounds

def readPlain (column : Int) (text : List Char) (gap : Gap) : Nat → Scan (List Char × Gap)
  | 0 => return (text, gap)
  | rounds + 1 => do
    need 4
    if ← atMarker then return (text, gap)
    if ← nextIs '#' then return (text, gap)
    let word ← readWord [] (← get).rounds
    let (text, gap) :=
      if word.isEmpty then (text, gap) else (word ++ gap.text.reverse ++ text, .blanks [])
    if ((← charAt 0).map isSpacing).getD false then
      let gap ← readGap (some column) gap (← get).rounds
      let scanner ← get
      if !scanner.inFlow && scanner.mark.column < column then return (text, gap)
      readPlain column text gap rounds
    else return (text, gap)

def escape? (code : Char) : Option Char :=
  [('0', '\x00'), ('a', '\x07'), ('b', '\x08'), ('t', '\t'), ('\t', '\t'), ('n', '\n'),
    ('v', '\x0b'), ('f', '\x0c'), ('r', '\x0d'), ('e', '\x1b'), (' ', ' '), ('"', '"'),
    ('\'', '\''), ('\\', '\\'), ('N', '\u0085'), ('_', '\u00a0'), ('L', '\u2028'),
    ('P', '\u2029')].lookup code

def hexCount (code : Char) : Nat :=
  if code = 'x' then 2 else if code = 'u' then 4 else if code = 'U' then 8 else 0

def hexChar? (count : Nat) (text : List Char) : Option Char :=
  let digits := text.take count
  if digits.length < count then none
  else
    match digits.mapM fun char => Idl.hexValue? (.scalar char) with
    | none => none
    | some values =>
      let code := values.foldl (fun total digit => total * 16 + digit) 0
      if code.isValidChar then some (Char.ofNat code) else none

def readEscape : Scan Char := do
  match ← charAt 1 with
  | none => throw .unknownEscape
  | some code =>
    match escape? code, hexCount code with
    | some char, _ =>
      skip 2
      return char
    | none, 0 => throw .unknownEscape
    | none, count =>
      skip 2
      need count
      match hexChar? count (← get).ahead with
      | none => throw .unknownEscape
      | some char =>
        skip count
        return char

def readQuotedWord (double : Bool) (word : List Char) : Nat → Scan (List Char × Bool)
  | 0 => return (word, false)
  | rounds + 1 => do
    match ← charAt 0 with
    | none => return (word, false)
    | some char =>
      if isSpacing char then return (word, false)
      else if !double && char = '\'' then
        if (← charAt 1) = some '\'' then
          skip 2
          need 2
          readQuotedWord double (char :: word) rounds
        else return (word, false)
      else if double && char = '"' then return (word, false)
      else if double && char = '\\' then
        if ((← charAt 1).map isBreak).getD false then
          need 3
          skip 1
          skipBreak
          return (word, true)
        else
          let escaped ← readEscape
          need 2
          readQuotedWord double (escaped :: word) rounds
      else
        skip 1
        need 2
        readQuotedWord double (char :: word) rounds

def readQuoted (double : Bool) (text : List Char) : Nat → Scan (List Char)
  | 0 => throw .unclosedQuote
  | rounds + 1 => do
    need 4
    if ← atMarker then throw .unclosedQuote
    if (← charAt 0).isNone then throw .unclosedQuote
    let (word, escaped) ← readQuotedWord double [] (← get).rounds
    need 1
    if ← nextIs (if double then '"' else '\'') then
      skip 1
      return word ++ text
    else
      let gap ← readGap none (if escaped then .lines [] [] else .blanks []) (← get).rounds
      readQuoted double (gap.text.reverse ++ word ++ text) rounds

/-!
## Block scalars

A block scalar stands in lines below its header. The header may say how far the lines are indented,
if the first line that is not empty does not tell, and whether line ends at the end are kept.
-/

inductive Chomping where
  | strip
  | clip
  | keep
deriving DecidableEq, Repr, Inhabited

def readIncrement : Scan Nat := do
  match ← charAt 0 with
  | some char =>
    if char = '0' then throw .badBlockScalar
    else if char.isDigit then
      skip 1
      return char.toNat - 48
    else return 0
  | none => return 0

def readChomping : Scan Chomping := do
  if ← nextIs '+' then
    skip 1
    return .keep
  else if ← nextIs '-' then
    skip 1
    return .strip
  else return .clip

def readHeader : Scan (Nat × Chomping) := do
  need 1
  let first ← readChomping
  need 1
  let increment ← readIncrement
  need 1
  let chomping ← if first = .clip && 0 < increment then readChomping else pure first
  skipBlanks
  if ← nextIs '#' then skipToBreak
  match ← charAt 0 with
  | none => return (increment, chomping)
  | some char =>
    if isBreak char then
      need 2
      skipBreak
      return (increment, chomping)
    else throw .badBlockScalar

def readIndentation (column : Nat) (breaks : List Char) (largest : Nat) :
    Nat → Scan (List Char × Nat)
  | 0 => return (breaks, largest)
  | rounds + 1 => do
    need 1
    let here := (← get).mark.column
    if (column = 0 || here < column) && (← nextIs ' ') then
      skip 1
      readIndentation column breaks largest rounds
    else
      let largest := max largest here
      if (column = 0 || here < column) && (← nextIs '\t') then throw .tabIndentation
      if ((← charAt 0).map isBreak).getD false then
        need 2
        let text ← readBreak
        readIndentation column (breaks ++ text) largest rounds
      else return (breaks, largest)

def readBreaks (column : Nat) : Scan (List Char × Nat) := do
  let scanner ← get
  let (breaks, largest) ← readIndentation column [] 0 (2 * scanner.rounds)
  let least := (scanner.indent + 1).toNat
  return (breaks, if column = 0 then max (max largest least) 1 else column)

def readLine (line : List Char) : Nat → Scan (List Char)
  | 0 => return line
  | rounds + 1 => do
    need 1
    match ← charAt 0 with
    | none => return line
    | some char =>
      if isBreak char then return line
      else
        skip 1
        readLine (char :: line) rounds

/-- The state between two lines of a block scalar: the text so far in reverse, the end of the last
line, the line ends after it, and whether the last line started with a blank. -/
structure BlockText where
  text : List Char
  ending : List Char
  breaks : List Char
  startedBlank : Bool
deriving DecidableEq, Repr, Inhabited

def BlockText.joined (block : BlockText) (literal startsBlank : Bool) : List Char :=
  let ending : List Char :=
    if !literal && !block.startedBlank && !startsBlank && block.ending = ['\n'] then
      if block.breaks.isEmpty then [' '] else []
    else block.ending
  block.breaks.reverse ++ ending.reverse ++ block.text

def readLines (literal : Bool) (column : Nat) (block : BlockText) : Nat → Scan BlockText
  | 0 => return block
  | rounds + 1 => do
    need 1
    let scanner ← get
    match scanner.ahead with
    | [] => return block
    | char :: _ =>
      if scanner.mark.column ≠ column then return block
      else
        let line ← readLine [] scanner.rounds
        need 2
        let ending ← readBreak
        let (breaks, _) ← readBreaks column
        let text := line ++ block.joined literal (isBlank char)
        readLines literal column ⟨text, ending, breaks, isBlank char⟩ rounds

def readBlock (literal : Bool) : Scan (List Char) := do
  let (increment, chomping) ← readHeader
  let scanner ← get
  let given := if increment = 0 then 0 else (max scanner.indent 0).toNat + increment
  let (breaks, column) ← readBreaks given
  let block ← readLines literal column ⟨[], [], breaks, false⟩ scanner.rounds
  let ending := if chomping = .strip then [] else block.ending
  let breaks := if chomping = .keep then block.breaks else []
  return block.text.reverse ++ ending ++ breaks

/-!
## Anchors, tags and directives

A node may have a name by which others refer to it, and a tag that says what it stands for. A tag
is written out, or shortened by a handle that a directive in front of the document may set.
-/

def textOf (chars : List Char) : Text := chars.map .scalar

def isNameChar (char : Char) : Bool :=
  char.isAlphanum || char = '_' || char = '-'

def readWhile (kind : Char → Bool) (text : List Char) : Nat → Scan (List Char)
  | 0 => return text
  | rounds + 1 => do
    need 1
    match ← charAt 0 with
    | some char =>
      if kind char then
        skip 1
        readWhile kind (char :: text) rounds
      else return text
    | none => return text

def readName : Scan Text := do
  return textOf (← readWhile isNameChar [] (← get).rounds).reverse

def namePunctuation : List Char := ['?', ':', ',', ']', '\x7d', '%', '@', '\x60']

def readAnchor : Scan Text := do
  skip 1
  let name ← readName
  if name.isEmpty then throw .badAnchor
  if ← endsAt 0 fun char => isSpacing char || char ∈ namePunctuation then return name
  else throw .badAnchor

def isTagChar (char : Char) : Bool :=
  isNameChar char || char ∈ [';', '/', '?', ':', '@', '&', '=', '+', '$', ',', '.', '!', '~', '*',
    '\'', '(', ')', '[', ']']

def escapedByte? : List Char → Option UInt8
  | '%' :: high :: low :: _ =>
    match Idl.hexValue? (.scalar high), Idl.hexValue? (.scalar low) with
    | some high, some low => some (UInt8.ofNat (high * 16 + low))
    | _, _ => none
  | _ => none

def readEscapedBytes (bytes : List UInt8) : Nat → Scan (List UInt8)
  | 0 => return bytes
  | count + 1 => do
    need 3
    match escapedByte? (← get).ahead with
    | some byte =>
      if 0x80 ≤ byte && byte < 0xC0 then
        skip 3
        readEscapedBytes (byte :: bytes) count
      else throw .badTag
    | none => throw .badTag

def readTagBytes (bytes : List UInt8) : Nat → Scan (List UInt8)
  | 0 => return bytes
  | rounds + 1 => do
    need 1
    match ← charAt 0 with
    | none => return bytes
    | some char =>
      if char = '%' then
        need 3
        match (escapedByte? (← get).ahead).map fun byte => (byte, announced? byte) with
        | some (byte, some width) =>
          skip 3
          let bytes ← readEscapedBytes (byte :: bytes) (width - 1)
          readTagBytes bytes rounds
        | _ => throw .badTag
      else if isTagChar char then
        skip 1
        readTagBytes (UInt8.ofNat char.toNat :: bytes) rounds
      else return bytes

def readTagRest (head : Text) : Scan Text := do
  let bytes ← readTagBytes [] (← get).rounds
  return head ++ Text.ofBytes bytes.reverse

def readHandle : Scan Text := do
  unless ← nextIs '!' do throw .badTag
  skip 1
  let name ← readName
  if ← nextIs '!' then
    skip 1
    return "!" ++ name ++ "!"
  else return "!" ++ name

def readTag : Scan (Text × Text) := do
  need 2
  let tag ←
    if (← charAt 1) = some '<' then do
      skip 2
      let rest ← readTagRest []
      if rest.isEmpty then throw .badTag
      unless ← nextIs '>' do throw .badTag
      skip 1
      pure (([] : Text), rest)
    else do
      let handle ← readHandle
      if 1 < handle.length && Text.endsWith handle "!" then
        let rest ← readTagRest []
        if rest.isEmpty then throw .badTag
        pure (handle, rest)
      else
        let rest ← readTagRest (handle.drop 1)
        pure (if rest.isEmpty then (([] : Text), ("!" : Text)) else (("!" : Text), rest))
  need 1
  if ← endsAt 0 isSpacing then return tag else throw .badTag

def readVersionNumber : Scan Nat := do
  let digits ← readWhile Char.isDigit [] (← get).rounds
  if digits.isEmpty || 2 < digits.length then throw .badDirective
  return digits.reverse.foldl (fun number digit => number * 10 + (digit.toNat - 48)) 0

def readVersion : Scan Token := do
  skipBlanks
  let major ← readVersionNumber
  unless ← nextIs '.' do throw .badDirective
  skip 1
  let minor ← readVersionNumber
  return .version major minor

def readHandleDirective : Scan Token := do
  skipBlanks
  let handle ← readHandle
  unless handle = "!" || (1 < handle.length && Text.endsWith handle "!") do throw .badDirective
  unless ((← charAt 0).map isBlank).getD false do throw .badDirective
  skipBlanks
  let stem ← readTagRest []
  if stem.isEmpty then throw .badDirective
  unless ← endsAt 0 isSpacing do throw .badDirective
  return .tagHandle handle stem

def readDirective : Scan Token := do
  skip 1
  let name ← readName
  if name.isEmpty then throw .badDirective
  unless ← endsAt 0 isSpacing do throw .badDirective
  let token ←
    if name = "YAML" then readVersion
    else if name = "TAG" then readHandleDirective
    else throw .badDirective
  skipBlanks
  if ← nextIs '#' then skipToBreak
  match ← charAt 0 with
  | none => return token
  | some char =>
    if isBreak char then
      need 2
      skipBreak
      return token
    else throw .badDirective

end Avro.Yaml
