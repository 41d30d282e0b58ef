import Avro.Text.Quoted
import Avro.Text.Utf8

/-!
# Tokens of settings files

Settings are written in YAML. A block collection has its start and its end marked by indentation;
the scanner makes tokens of these marks, so that tokens alone tell the structure.
-/

set_option autoImplicit false

namespace Avro.Yaml

inductive Fault where
  | illegalCharacter
  | unexpectedCharacter
  | tabIndentation
  | unclosedQuote
  | unknownEscape
  | badDirective
  | badAnchor
  | badTag
  | badBlockScalar
  | missingColon
  | misplacedKey
  | misplacedValue
  | misplacedEntry
  | tooDeep
  | unexpectedToken
  | unknownAnchor (name : Text)
  | cyclicAnchor
  | badMerge
  | repeatedKey (key : Text)
  | mismatch (expected : Text)
deriving DecidableEq, Repr, Inhabited

def Fault.message : Fault → Text
  | .illegalCharacter => "control characters are not allowed"
  | .unexpectedCharacter => "found character that cannot start any token"
  | .tabIndentation => "found a tab character that violates indentation"
  | .unclosedQuote => "found unexpected end of stream"
  | .unknownEscape => "found unknown escape character"
  | .badDirective => "found unknown directive name"
  | .badAnchor => "did not find expected alphabetic or numeric character"
  | .badTag => "did not find expected tag URI"
  | .badBlockScalar => "did not find expected comment or line break"
  | .missingColon => "could not find expected ':'"
  | .misplacedKey => "mapping keys are not allowed in this context"
  | .misplacedValue => "mapping values are not allowed in this context"
  | .misplacedEntry => "block sequence entries are not allowed in this context"
  | .tooDeep => "exceeded max depth of 10000"
  | .unexpectedToken => "did not find expected node content"
  | .unknownAnchor name => "unknown anchor '" ++ name ++ "' referenced"
  | .cyclicAnchor => "anchor value contains itself"
  | .badMerge => "map merge requires map or sequence of maps as the value"
  | .repeatedKey key => "mapping key " ++ Text.quote key ++ " already defined"
  | .mismatch expected => "cannot unmarshal into " ++ expected

inductive Token where
  | streamStart
  | streamEnd
  | version (major minor : Nat)
  | tagHandle (handle stem : Text)
  | documentStart
  | documentEnd
  | blockSequenceStart
  | blockMappingStart
  | blockEnd
  | flowSequenceStart
  | flowSequenceEnd
  | flowMappingStart
  | flowMappingEnd
  | blockEntry
  | flowEntry
  | key
  | value
  | alias (name : Text)
  | anchor (name : Text)
  | tag (handle rest : Text)
  | scalar (plain : Bool) (text : Text)
deriving DecidableEq, Repr, Inhabited

/-!
## Characters of settings files

A settings file is in UTF-8, or in UTF-16 if its byte order mark says so, and has no control
characters but tabs and line ends. Its bytes are decoded in blocks of 512, each as a whole and only
when one of its characters is asked for. So a fault does not matter if the settings end before the
block it is in.
-/

inductive Encoding where
  | utf8
  | utf16 (bigEndian : Bool)
deriving DecidableEq, Repr, Inhabited

inductive Decoding where
  | char (char : Char) (width : Nat)
  | cutOff
  | illegal
deriving DecidableEq, Repr, Inhabited

structure Source where
  chars : List Char
  isBroken : Bool
deriving DecidableEq, Repr, Inhabited

def isLegal (char : Char) : Bool :=
  let code := char.toNat
  code = 0x9 || code = 0xA || code = 0xD || (0x20 ≤ code && code ≤ 0x7E) || code = 0x85 ||
    (0xA0 ≤ code && code ≠ 0xFFFE && code ≠ 0xFFFF)

def Decoding.ofChar (width : Nat) (char : Option Char) : Decoding :=
  match char with
  | some char => if isLegal char then .char char width else .illegal
  | none => .illegal

def announced? (byte : UInt8) : Option Nat :=
  if byte < 0x80 then some 1
  else if byte < 0xC0 then none
  else if byte < 0xE0 then some 2
  else if byte < 0xF0 then some 3
  else if byte < 0xF8 then some 4
  else none

def decodeUtf8 : List UInt8 → Decoding
  | [] => .cutOff
  | first :: rest =>
    match announced? first with
    | none => .illegal
    | some width =>
      if rest.length + 1 < width then .cutOff
      else .ofChar width (Text.scalar? ((first :: rest).take width))

def decodeUtf16 (bigEndian : Bool) : List UInt8 → Decoding
  | first :: second :: rest =>
    let unit := word first second
    if 0xDC00 ≤ unit && unit < 0xE000 then .illegal
    else if 0xD800 ≤ unit && unit < 0xDC00 then
      match rest with
      | third :: fourth :: _ =>
        let low := word third fourth
        if 0xDC00 ≤ low && low < 0xE000 then
          .ofChar 4 (some (Char.ofNat (0x10000 + (unit - 0xD800) * 1024 + (low - 0xDC00))))
        else .illegal
      | _ => .cutOff
    else .ofChar 2 (some (Char.ofNat unit))
  | _ => .cutOff
where
  word (first second : UInt8) : Nat :=
    if bigEndian then first.toNat * 256 + second.toNat else second.toNat * 256 + first.toNat

def Encoding.decode : Encoding → List UInt8 → Decoding
  | .utf8 => decodeUtf8
  | .utf16 bigEndian => decodeUtf16 bigEndian

/-- Decodes a block: its characters, and the bytes at its end that belong to a character of which
more is to come. The first argument bounds the number of characters. -/
def decodeBlock (encoding : Encoding) : Nat → List UInt8 → Option (List Char × List UInt8)
  | 0, bytes => some ([], bytes)
  | _ + 1, [] => some ([], [])
  | rounds + 1, bytes =>
    match encoding.decode bytes with
    | .illegal => none
    | .cutOff => some ([], bytes)
    | .char char width =>
      (decodeBlock encoding rounds (bytes.drop width)).map fun (chars, left) =>
        (char :: chars, left)

def blockSize : Nat := 512

def decodeBlocks (encoding : Encoding) : Nat → Nat → List UInt8 → Source
  | 0, _, _ => ⟨[], false⟩
  | rounds + 1, size, bytes =>
    match decodeBlock encoding size (bytes.take size) with
    | none => ⟨[], true⟩
    | some (chars, left) =>
      let rest := bytes.drop size
      if rest.isEmpty then ⟨chars, !left.isEmpty⟩
      else
        let further := decodeBlocks encoding rounds blockSize (left ++ rest)
        ⟨chars ++ further.chars, further.isBroken⟩

def detect : List UInt8 → Encoding × Nat
  | 0xFF :: 0xFE :: _ => (.utf16 false, 2)
  | 0xFE :: 0xFF :: _ => (.utf16 true, 2)
  | 0xEF :: 0xBB :: 0xBF :: _ => (.utf8, 3)
  | _ => (.utf8, 0)

def Source.ofText (text : Text) : Source :=
  let bytes := text.toBytes
  if bytes.isEmpty then ⟨['\n'], false⟩
  else
    let (encoding, mark) := detect bytes
    decodeBlocks encoding bytes.length (blockSize - mark) (bytes.drop mark)

/-!
## The scanner of settings files

The scanner holds what is left to read and the tokens that were made but not taken yet. What stands
before a colon becomes a key only when the colon comes, so the scanner remembers where a key may
have started, one for the block and one for each open flow collection.
-/

structure Mark where
  line : Nat
  column : Nat
  offset : Nat
deriving DecidableEq, Repr, Inhabited

structure KeyStart where
  position : Nat
  required : Bool
  mark : Mark
  possible : Bool
deriving DecidableEq, Repr, Inhabited

/-- The state of a scanner. `breaks` counts the line ends since the last visible character, `taken`
the tokens that have left the queue. Indentations and keys are listed innermost first; `awaited`
lists tokens that may turn out to start a key, with the level of the key. -/
structure Scanner where
  ahead : List Char
  isBroken : Bool
  mark : Mark
  breaks : Nat
  tokens : List Token
  taken : Nat
  indents : List Nat
  keys : List KeyStart
  awaited : List (Nat × Nat)
  keyAllowed : Bool
deriving Repr, Inhabited

abbrev Scan := StateT Scanner (Except Fault)

def isBlank (char : Char) : Bool := char = ' ' || char = '\t'

def isBreak (char : Char) : Bool :=
  char ∈ ['\n', '\x0d', '\u0085', '\u2028', '\u2029']

def isSpacing (char : Char) : Bool := isBlank char || isBreak char

namespace Scanner

def start (source : Source) : Scanner where
  ahead := source.chars
  isBroken := source.isBroken
  mark := ⟨0, 0, 0⟩
  breaks := 0
  tokens := [.streamStart]
  taken := 0
  indents := []
  keys := [⟨0, false, ⟨0, 0, 0⟩, false⟩]
  awaited := []
  keyAllowed := true

def inFlow (scanner : Scanner) : Bool := 2 ≤ scanner.keys.length

def indent (scanner : Scanner) : Int := (scanner.indents.head?.map Int.ofNat).getD (-1)

def nextPosition (scanner : Scanner) : Nat := scanner.taken + scanner.tokens.length

def rounds (scanner : Scanner) : Nat := scanner.ahead.length + 1

def pass (scanner : Scanner) : Scanner :=
  match scanner.ahead with
  | [] => scanner
  | char :: rest =>
    { scanner with
      ahead := rest
      mark := ⟨scanner.mark.line, scanner.mark.column + 1, scanner.mark.offset + 1⟩
      breaks := if isBlank char then scanner.breaks else 0 }

def passBreak (scanner : Scanner) : List Char × Scanner :=
  let after (width : Nat) : Scanner :=
    { scanner with
      ahead := scanner.ahead.drop width
      mark := ⟨scanner.mark.line + 1, 0, scanner.mark.offset + width⟩
      breaks := scanner.breaks + 1 }
  match scanner.ahead with
  | '\x0d' :: '\n' :: _ => (['\n'], after 2)
  | char :: _ =>
    if char = '\u2028' || char = '\u2029' then ([char], after 1)
    else if isBreak char then (['\n'], after 1)
    else ([], { scanner with breaks := scanner.breaks + 1 })
  | [] => ([], { scanner with breaks := scanner.breaks + 1 })

def emit (scanner : Scanner) (token : Token) : Scanner :=
  { scanner with tokens := scanner.tokens ++ [token] }

def insert (scanner : Scanner) (position : Nat) (token : Token) : Scanner :=
  if position < scanner.taken then scanner.emit token
  else
    let index := position - scanner.taken
    { scanner with
      tokens := scanner.tokens.take index ++ token :: scanner.tokens.drop index }

end Scanner

/-- Makes sure that so many characters can be looked at. Behind the end of a file there is nothing,
but behind bytes that cannot be decoded nothing can be said. -/
def need (count : Nat) : Scan Unit := do
  let scanner ← get
  if scanner.isBroken && (scanner.ahead.drop (count - 1)).isEmpty then throw .illegalCharacter

def charAt (distance : Nat) : Scan (Option Char) := do
  return (← get).ahead[distance]?

def nextIs (char : Char) : Scan Bool := do
  return (← charAt 0) = some char

def endsAt (distance : Nat) (kind : Char → Bool) : Scan Bool := do
  return ((← charAt distance).map kind).getD true

def skip (count : Nat) : Scan Unit := modify (Nat.repeat Scanner.pass count)

def skipBreak : Scan Unit := modify fun scanner => scanner.passBreak.2

def readBreak : Scan (List Char) := modifyGet Scanner.passBreak

def skipWhile (kind : Char → Bool) : Nat → Scan Unit
  | 0 => return
  | rounds + 1 => do
    need 1
    if ((← charAt 0).map kind).getD false then
      skip 1
      skipWhile kind rounds

def skipBlanks : Scan Unit := do skipWhile isBlank (← get).rounds

def skipToBreak : Scan Unit := do skipWhile (fun char => !isBreak char) (← get).rounds

def atMarker : Scan Bool := do
  let scanner ← get
  let isMarker := scanner.mark.column = 0 &&
    (['-', '-', '-'].isPrefixOf scanner.ahead || ['.', '.', '.'].isPrefixOf scanner.ahead)
  return isMarker && (← endsAt 3 isSpacing)

def skipTo (offset : Nat) : Nat → Scan Unit
  | 0 => return
  | rounds + 1 => do
    let scanner ← get
    if scanner.mark.offset < offset then
      if (scanner.ahead.head?.map isBreak).getD true then skipBreak else skip 1
      skipTo offset rounds

def commentReach : Nat := 512

def commentInLine? (distance : Nat) : Nat → Scan (Option Nat)
  | 0 => return none
  | rounds + 1 => do
    need (distance + 1)
    match ← charAt distance with
    | some char =>
      if isBlank char then commentInLine? (distance + 1) rounds
      else return if char = '#' then some distance else none
    | none => return none

def skipLineComment : Scan Unit := do
  if (← get).breaks = 0 then
    if let some distance ← commentInLine? 0 commentReach then
      skip distance
      skipToBreak

/-- The distance of the next comment behind blanks and empty lines, from a distance on. -/
def commentBelow? (distance : Nat) : Nat → Scan (Option Nat)
  | 0 => return none
  | rounds + 1 => do
    need (distance + 1)
    match ← charAt distance with
    | some char =>
      if isBlank char || char = '\n' || char = '\x0d' then commentBelow? (distance + 1) rounds
      else
        if isBreak char && 0 < rounds then need (distance + 2)
        return if char = '#' then some distance else none
    | none => return none

def skipComments (distance : Nat) : Nat → Scan Unit
  | 0 => return
  | rounds + 1 => do
    if let some found ← commentBelow? distance (commentReach - distance) then
      let scanner ← get
      skipTo (scanner.mark.offset + found) scanner.rounds
      skipToBreak
      need 2
      if ((← charAt 0).map fun char => char = '\n' || char = '\x0d').getD false then
        skipComments 1 rounds

/-- Passes blanks, comments and line ends in front of a token. Tabs do not count as blanks where
indentation is measured; after a line end in a block a key may start. -/
def skipGap : Nat → Scan Unit
  | 0 => return
  | rounds + 1 => do
    need 1
    if (← get).mark.column = 0 && (← nextIs '\ufeff') then skip 1
    let tabs := (← get).inFlow || !(← get).keyAllowed
    skipWhile (fun char => char = ' ' || (tabs && char = '\t')) (← get).rounds
    if ← nextIs '#' then skipComments 0 (← get).rounds
    if ((← charAt 0).map isBreak).getD false then
      need 2
      skipBreak
      modify fun scanner => { scanner with keyAllowed := scanner.keyAllowed || !scanner.inFlow }
      skipGap rounds

end Avro.Yaml
