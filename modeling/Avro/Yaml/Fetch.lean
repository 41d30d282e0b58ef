import Avro.Yaml.Scalar

/-!
# Making tokens

Block collections open when a key or an entry stands further right than the collection around it,
and close when something stands further left.
-/

set_option autoImplicit false

namespace Avro.Yaml

def depthLimit : Nat := 10000

/-- The largest distance between a key and its colon. -/
def keyReach : Nat := 1024

def Scanner.setKey (scanner : Scanner) (level : Nat) (key : KeyStart) : Scanner :=
  { scanner with keys := scanner.keys.set (scanner.keys.length - 1 - level) key }

def Scanner.key? (scanner : Scanner) (level : Nat) : Option KeyStart :=
  if level < scanner.keys.length then scanner.keys[scanner.keys.length - 1 - level]? else none

def Scanner.level (scanner : Scanner) : Nat := scanner.keys.length - 1

def Scanner.unlist (scanner : Scanner) (key : KeyStart) : Scanner :=
  { scanner with awaited := scanner.awaited.filter fun (position, _) => position ≠ key.position }

def dropKey : Scan Unit := do
  let scanner ← get
  if let some key := scanner.key? scanner.level then
    if key.possible then
      if key.required then throw .missingColon
      set ((scanner.setKey scanner.level { key with possible := false }).unlist key)

def isKeyOpen (level : Nat) : Scan Bool := do
  let scanner ← get
  match scanner.key? level with
  | none => return false
  | some key =>
    if !key.possible then return false
    else if key.mark.line < scanner.mark.line ||
        key.mark.offset + keyReach < scanner.mark.offset then
      if key.required then throw .missingColon
      set (scanner.setKey level { key with possible := false })
      return false
    else return true

def saveKey : Scan Unit := do
  let scanner ← get
  if scanner.keyAllowed then
    let required := !scanner.inFlow && scanner.indent = scanner.mark.column
    let key : KeyStart := ⟨scanner.nextPosition, required, scanner.mark, true⟩
    dropKey
    modify fun scanner =>
      { scanner.setKey scanner.level key with
        awaited := (key.position, scanner.level) :: scanner.awaited.filter fun (position, _) =>
          position ≠ key.position }

def unroll (column : Int) : List Nat → Nat × List Nat
  | [] => (0, [])
  | indent :: outer =>
    if column < indent then
      let (count, outer) := unroll column outer
      (count + 1, outer)
    else (0, indent :: outer)

def closeTo (column : Int) : Scan Unit :=
  modify fun scanner =>
    if scanner.inFlow then scanner
    else
      let (count, indents) := unroll column scanner.indents
      { scanner with
        tokens := scanner.tokens ++ List.replicate count .blockEnd, indents := indents }

def openAt (column : Nat) (position : Option Nat) (token : Token) : Scan Unit := do
  let scanner ← get
  if !scanner.inFlow && scanner.indent < column then
    if depthLimit ≤ scanner.indents.length then throw .tooDeep
    let position := position.getD scanner.nextPosition
    set { scanner.insert position token with indents := column :: scanner.indents }

def allowKey (allowed : Bool) : Scan Unit :=
  modify fun scanner => { scanner with keyAllowed := allowed }

def emit (token : Token) : Scan Unit := modify fun scanner => scanner.emit token

def endBlocks : Scan Unit := do
  closeTo (-1)
  dropKey
  allowKey false

def fetchStreamEnd : Scan Unit := do
  modify fun scanner =>
    if scanner.mark.column = 0 then scanner
    else { scanner with mark := ⟨scanner.mark.line + 1, 0, scanner.mark.offset⟩ }
  endBlocks
  emit .streamEnd

def fetchOpening (token : Token) : Scan Unit := do
  saveKey
  let scanner ← get
  if depthLimit ≤ scanner.level then throw .tooDeep
  set { scanner with keys := ⟨scanner.nextPosition, false, scanner.mark, false⟩ :: scanner.keys }
  allowKey true
  skip 1
  emit token

def fetchClosing (token : Token) : Scan Unit := do
  dropKey
  modify fun scanner =>
    match scanner.inFlow, scanner.keys with
    | true, key :: keys => { scanner.unlist key with keys := keys }
    | _, _ => scanner
  allowKey false
  skip 1
  emit token

def fetchComma : Scan Unit := do
  dropKey
  allowKey true
  skip 1
  emit .flowEntry

def fetchEntry : Scan Unit := do
  let scanner ← get
  if !scanner.inFlow && !scanner.keyAllowed then throw .misplacedEntry
  openAt scanner.mark.column none .blockSequenceStart
  dropKey
  allowKey true
  skip 1
  emit .blockEntry

def fetchKey : Scan Unit := do
  let scanner ← get
  if !scanner.inFlow && !scanner.keyAllowed then throw .misplacedKey
  openAt scanner.mark.column none .blockMappingStart
  dropKey
  allowKey !scanner.inFlow
  skip 1
  emit .key

def fetchValue : Scan Unit := do
  let level := (← get).level
  let isKey ← isKeyOpen level
  let scanner ← get
  match isKey, scanner.key? level with
  | true, some key =>
    set (scanner.insert key.position .key)
    openAt key.mark.column (some key.position) .blockMappingStart
    modify fun scanner => (scanner.setKey level { key with possible := false }).unlist key
    allowKey false
  | _, _ =>
    if !scanner.inFlow && !scanner.keyAllowed then throw .misplacedValue
    openAt scanner.mark.column none .blockMappingStart
    allowKey !scanner.inFlow
  skip 1
  emit .value

def fetchContent (read : Scan Token) : Scan Unit := do
  saveKey
  allowKey false
  emit (← read)

def fetchBlock (literal : Bool) : Scan Unit := do
  dropKey
  allowKey true
  skip 1
  let text ← readBlock literal
  emit (.scalar false (textOf text))

def quotedToken (double : Bool) : Scan Token := do
  skip 1
  let text ← readQuoted double [] (← get).rounds
  return .scalar false (textOf text.reverse)

def plainToken : Scan Token := do
  let scanner ← get
  let (text, gap) ← readPlain (scanner.indent + 1) [] (.blanks []) scanner.rounds
  if gap.hasBreak then allowKey true
  return .scalar true (textOf text.reverse)

def reserved : List Char :=
  [',', '[', ']', '\x7b', '\x7d', '#', '&', '*', '!', '|', '>', '\'', '"', '%', '@', '\x60']

def fetchAt (first : Char) : Scan Unit := do
  let scanner ← get
  let ends ← endsAt 1 isSpacing
  if first = '[' then fetchOpening .flowSequenceStart
  else if first = '\x7b' then fetchOpening .flowMappingStart
  else if first = ']' then fetchClosing .flowSequenceEnd
  else if first = '\x7d' then fetchClosing .flowMappingEnd
  else if first = ',' then fetchComma
  else if first = '-' && ends then fetchEntry
  else if first = '?' && (scanner.inFlow || ends) then fetchKey
  else if first = ':' && (scanner.inFlow || ends) then fetchValue
  else if first = '*' then fetchContent (return .alias (← readAnchor))
  else if first = '&' then fetchContent (return .anchor (← readAnchor))
  else if first = '!' then fetchContent do
    let (handle, rest) ← readTag
    return .tag handle rest
  else if first = '|' && !scanner.inFlow then fetchBlock true
  else if first = '>' && !scanner.inFlow then fetchBlock false
  else if first = '\'' then fetchContent (quotedToken false)
  else if first = '"' then fetchContent (quotedToken true)
  else if first ∈ reserved || isSpacing first then throw .unexpectedCharacter
  else fetchContent plainToken

def fetch : Scan Unit := do
  need 1
  skipGap (← get).rounds
  closeTo (← get).mark.column
  need 4
  match ← charAt 0 with
  | none => fetchStreamEnd
  | some first =>
    if (← get).mark.column = 0 && first = '%' then
      endBlocks
      emit (← readDirective)
    else if ← atMarker then
      endBlocks
      skip 3
      emit (if first = '-' then .documentStart else .documentEnd)
    else
      fetchAt first
      if (← get).tokens.getLast? ≠ some .blockEntry then skipLineComment

def fetchMore : Nat → Scan Unit
  | 0 => return
  | rounds + 1 => do
    let scanner ← get
    let isEnough ←
      if scanner.tokens.length < 3 then pure false
      else
        match scanner.awaited.lookup scanner.taken with
        | none => pure true
        | some level => do pure !(← isKeyOpen level)
    unless isEnough do
      fetch
      fetchMore rounds

def peekToken : Scan Token := do
  fetchMore ((← get).rounds + 3)
  return (← get).tokens.headD .streamEnd

def takeToken : Scan Unit :=
  modify fun scanner => { scanner with tokens := scanner.tokens.tail, taken := scanner.taken + 1 }

end Avro.Yaml
