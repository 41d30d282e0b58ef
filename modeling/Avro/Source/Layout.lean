import Avro.Source.Reader
import Avro.Source.Writer

/-!
# Laying out Go source

Layout decides on the space between tokens. It keeps the line ends of the source within lists, at
most one empty line between parts, and structures and functions that stand on one line and are
short. The fuel bounds the nesting.
-/

set_option autoImplicit false

namespace Avro.Source

abbrev Layout := StateM Writer

def ask (space : Space) : Layout Unit := modify fun writer => writer.ask space

def goTo (place : Place) : Layout Unit := modify fun writer => { writer with place }

def layMark (mark : String) : Layout Unit :=
  modify fun writer => writer.put (.mark mark) (Text.ofString mark)

def layWord (word : String) : Layout Unit :=
  modify fun writer => writer.put (.word word) (Text.ofString word)

def laySemicolon : Layout Unit := modify fun writer => writer.put (.semicolon true) ";"

def layMarkAt (place : Place) (mark : String) : Layout Unit := do
  goTo place
  layMark mark

def layName (ident : Ident) : Layout Unit := do
  goTo ident.place
  modify fun writer => writer.put .name ident.text

/-- The text of a number with small letters for its radix and exponent, and without zeros in front
of an imaginary whole number. -/
def numberText (text : Text) : Text :=
  let lowered (letter : Char) (text : Text) : Text :=
    match Text.splitLast? letter text with
    | some (before, after) => before ++ [.scalar letter.toLower] ++ after
    | none => text
  match text with
  | .scalar '0' :: .scalar 'X' :: rest => "0x" ++ lowered 'P' rest
  | .scalar '0' :: .scalar 'x' :: rest => "0x" ++ lowered 'P' rest
  | .scalar '0' :: .scalar 'O' :: rest => "0o" ++ rest
  | .scalar '0' :: .scalar 'o' :: rest => "0o" ++ rest
  | .scalar '0' :: .scalar 'B' :: rest => "0b" ++ rest
  | .scalar '0' :: .scalar 'b' :: rest => "0b" ++ rest
  | text =>
    if text.length < 2 then text
    else if text.hasChar 'E' then lowered 'E' text
    else if text.endsWith "i" && !text.hasChar '.' && !text.hasChar 'e' then
      let rest := text.dropWhile fun cell => cell.isChar '0' || cell.isChar '_'
      if rest == "i" then "0i" else rest
    else text

def layLiteral (literal : Literal) : Layout Unit := do
  goTo literal.place
  let text := match literal.kind with
    | .integer => numberText literal.text
    | .float => numberText literal.text
    | .imaginary => numberText literal.text
    | _ => literal.text
  modify fun writer => writer.put literal.kind text

def lineBreak (line least : Nat) (space : Space) (isSection : Bool) : Layout Nat := do
  let count := max (min (line - (← get).place.line) 2) least
  if count = 0 then return 0
  else
    ask space
    if isSection then ask .sectionBreak
    let newlines := if isSection then count - 1 else count
    (List.replicate newlines Space.newline).forM ask
    return if isSection then count + 1 else count

def withLine (layout : Layout Unit) : Layout Nat := do
  modify fun writer => { writer with asked := true, found := 0 :: writer.found }
  layout
  let found := (← get).found
  modify fun writer => { writer with found := writer.found.tail }
  return found.headD 0

def hasGrown (line : Nat) : Layout Bool := return line < (← get).line

def toggle (tight unbroken : Bool) : Layout Unit :=
  modify fun writer =>
    { writer with tight := writer.tight != tight, unbroken := writer.unbroken != unbroken }

def endless : Nat := Nat.pow 2 30

def sizeOnLine (layout : Layout Unit) (most : Nat) : Nat :=
  match lineSize? (layout.run (.start [])).2.finish.page.reverse with
  | some size => if size ≤ most then size else most + 1
  | none => most + 1

def tightness (sign : Sign) : Nat := (precedence? (.mark sign.text)).getD 0

def hasTightness (test : Nat → Bool) : Expr → Bool
  | .binary _ sign _ => test (tightness sign)
  | _ => false

/-- How the operators of an expression mix: whether there are sums and products, and how tightly an
operator has to bind because of a sign right behind it. -/
structure Mixture where
  sums : Bool
  products : Bool
  trouble : Nat

def Mixture.none : Mixture := ⟨false, false, 0⟩

def Mixture.both (left right : Mixture) : Mixture :=
  ⟨left.sums || right.sums, left.products || right.products, max left.trouble right.trouble⟩

def mixture : Expr → Mixture
  | .binary left sign right =>
    let own : Mixture := ⟨tightness sign == 4, tightness sign == 5, 0⟩
    let mixtureLeft :=
      if hasTightness (tightness sign ≤ ·) left then mixture left else .none
    let trouble := match right with
      | .star _ _ => if sign.text = "/" then 5 else 0
      | .unary inner _ =>
        let joined := sign.text ++ inner.text
        if joined = "&&" || joined = "&^" then 5
        else if joined = "++" || joined = "--" then 4
        else 0
      | _ => 0
    let mixtureRight :=
      if hasTightness (tightness sign < ·) right then mixture right else .none
    own.both ((mixtureLeft.both mixtureRight).both ⟨false, false, trouble⟩)
  | _ => .none

def blankLimit (expr : Expr) (depth : Nat) : Nat :=
  let mixture := mixture expr
  if 0 < mixture.trouble then mixture.trouble + 1
  else if mixture.sums && mixture.products then if depth = 1 then 5 else 4
  else if depth = 1 then 6
  else 4

def isBinary : Expr → Bool
  | .binary _ _ _ => true
  | _ => false

def isLooseCallee : Expr → Bool
  | .signature _ _ => true
  | .channel _ .receive _ => true
  | _ => false

def isSpread (line tall : Nat) : List Expr → Bool
  | [] => 1 < tall
  | expr :: exprs =>
    line < expr.place.line ||
      isSpread expr.lastLine (if expr.place.line < expr.lastLine then tall + 1 else tall) exprs

/-- How a list is laid out: whether a comma ends its last line, and whether the list keeps the
indentation it has. -/
structure ListMode where
  endsInComma : Bool
  keepsIndent : Bool

structure Sizes where
  product : Nat
  count : Nat

def Sizes.isFar (sizes : Sizes) (size : Nat) : Bool :=
  Nat.pow (5 * size) sizes.count ≤ Nat.pow 2 sizes.count * sizes.product ||
    Nat.pow 5 sizes.count * sizes.product ≤ Nat.pow (2 * size) sizes.count

def columnBefore (word : String) : Layout Int := return (← get).column - word.length

def distanceFrom (place : Place) (column : Int) : Layout Nat := do
  let writer ← get
  if place.line = writer.place.line then return (writer.column - column).toNat else return endless

/-- Which constants of a group keep a column for types: those of a run with values one of which has
a type. -/
def keepTypes : List Spec → List Bool
  | specs =>
    let hasValues : Spec → Bool
      | .value _ _ values _ => !values.isEmpty
      | _ => false
    let hasType : Spec → Bool
      | .value _ type _ _ => type.isSome
      | _ => false
    (specs.splitBy fun above below => hasValues above == hasValues below).flatMap fun run =>
      run.map fun spec => hasValues spec && run.any hasType

def combinesWithName : Expr → Bool
  | .star _ inner => !isTypeElement inner
  | .binary left _ right => combinesWithName left && !isTypeElement right
  | _ => false

structure StatementMode where
  indents : Bool
  closes : Bool

mutual

def layExpr : Nat → Expr → Nat → Layout Unit
  | 0, _, _ => return
  | fuel + 1, expr, depth => do
    goTo expr.place
    match expr with
    | .name ident => layName ident
    | .literal literal => layLiteral literal
    | .function start signature body =>
      layWord "func"
      let column ← columnBefore "func"
      laySignature fuel signature
      layBody fuel (← distanceFrom start column) .blank body
    | .composite type opening elements closing =>
      match type with
      | some type => layExpr fuel type depth
      | none => pure ()
      modify fun writer => { writer with level := writer.level + 1 }
      layMarkAt opening "\x7b"
      layList fuel (some opening) elements 1 ⟨true, false⟩ (some closing)
      ask .indent
      ask .unindent
      toggle (!elements.isEmpty) true
      layMarkAt closing "\x7d"
      toggle (!elements.isEmpty) true
      modify fun writer => { writer with level := writer.level - 1 }
    | .paren _ inner closing =>
      if isParenthesized inner then layExpr fuel inner depth
      else
        layMark "("
        layExpr fuel inner (max (depth - 1) 1)
        layMarkAt closing ")"
    | .selector base member =>
      let _ ← laySelector fuel base member depth false
    | .index base opening indices closing =>
      layExpr fuel base 1
      layMarkAt opening "["
      match indices with
      | [index] => layExpr fuel index (depth + 1)
      | indices => layList fuel (some opening) indices (depth + 1) ⟨true, false⟩ (some closing)
      layMarkAt closing "]"
    | .slice base opening bounds closing =>
      layExpr fuel base 1
      layMarkAt opening "["
      let present := bounds.filterMap id
      let isWide := depth ≤ 1 && 1 < present.length && present.any isBinary
      layBounds fuel isWide (depth + 1) none bounds
      layMarkAt closing "]"
    | .assertion base opening type closing =>
      layExpr fuel base depth
      layMark "."
      layMarkAt opening "("
      match type with
      | some type => layExpr fuel type 1
      | none => layWord "type"
      layMarkAt closing ")"
    | .call callee opening arguments dots closing =>
      let depth := if 1 < arguments.length then depth + 1 else depth
      if isLooseCallee callee then layMark "("
      let isIndented ← match callee with
        | .selector base member => laySelector fuel base member depth true
        | callee => do
          layExpr fuel callee depth
          pure false
      if isLooseCallee callee then layMark ")"
      layMarkAt opening "("
      match dots with
      | some dots =>
        layList fuel (some opening) arguments depth ⟨false, false⟩ (some dots)
        layMarkAt dots "..."
        if dots.line < closing.line then
          layMark ","
          ask .sectionBreak
      | none => layList fuel (some opening) arguments depth ⟨true, false⟩ (some closing)
      layMarkAt closing ")"
      if isIndented then ask .unindent
    | .star _ inner =>
      layMark "*"
      layExpr fuel inner 1
    | .unary sign inner =>
      layMark sign.text
      layExpr fuel inner depth
    | .binary left sign right =>
      let tightness := tightness sign
      let isWide := tightness < blankLimit expr depth
      layExpr fuel left (if hasTightness (· == tightness) left then depth else depth + 1)
      if isWide then ask .blank
      let leftLine := (← get).place.line
      let rightLine := right.place.line
      layMarkAt sign.place sign.text
      let breaks ←
        if leftLine != rightLine then lineBreak rightLine 1 .indent true else pure 0
      if isWide && breaks = 0 then ask .blank
      layExpr fuel right (depth + 1)
      if 0 < breaks then ask .unindent
    | .pair key colon value =>
      layExpr fuel key 1
      layMarkAt colon ":"
      ask .column
      layExpr fuel value 1
    | .dots _ inner =>
      layMark "..."
      match inner with
      | some inner => layExpr fuel inner 1
      | none => pure ()
    | .array _ length element =>
      layMark "["
      match length with
      | some length => layExpr fuel length 1
      | none => pure ()
      layMark "]"
      layExpr fuel element 1
    | .struct _ fields =>
      layWord "struct"
      layFields fuel fields true
    | .signature _ signature =>
      layWord "func"
      laySignature fuel signature
    | .interface _ methods =>
      layWord "interface"
      layFields fuel methods false
    | .map _ key value =>
      layWord "map"
      layMark "["
      layExpr fuel key 1
      layMark "]"
      layExpr fuel value 1
    | .channel _ direction element =>
      match direction with
      | .both => layWord "chan"
      | .receive =>
        layMark "<-"
        layWord "chan"
      | .send arrow =>
        layWord "chan"
        layMarkAt arrow "<-"
      ask .blank
      layExpr fuel element 1

def laySelector : Nat → Expr → Ident → Nat → Bool → Layout Bool
  | 0, _, _, _, _ => return false
  | fuel + 1, base, member, depth, isCalled => do
    layExpr fuel base depth
    layMark "."
    if (← get).place.line < member.place.line then
      ask .indent
      ask .newline
      layName member
      if !isCalled then ask .unindent
      return true
    else
      layName member
      return false

def layBounds : Nat → Bool → Nat → Option (Option Expr) → List (Option Expr) → Layout Unit
  | 0, _, _, _, _ => return
  | _, _, _, _, [] => return
  | fuel + 1, isWide, depth, previous, bound :: bounds => do
    match previous with
    | none => pure ()
    | some previous =>
      if isWide && previous.isSome then ask .blank
      layMark ":"
      if isWide && bound.isSome then ask .blank
    match bound with
    | some expr => layExpr fuel expr depth
    | none => pure ()
    layBounds fuel isWide depth (some bound) bounds

def layList : Nat → Option Place → List Expr → Nat → ListMode → Option Place → Layout Unit
  | 0, _, _, _, _, _ => return
  | fuel + 1, previous, exprs, depth, mode, next => do
    match exprs, exprs.getLast? with
    | first :: _, some last =>
      let line := first.place.line
      if (previous.map fun place => place.line == line && line == last.lastLine).getD false then
        layOnLine fuel true depth exprs
      else
        let start : Space := if mode.keepsIndent then .nothing else .indent
        let breaks ← match previous with
          | some place => if place.line < line then lineBreak line 0 start true else pure 0
          | none => pure 0
        let hasIndented ← layEntries fuel (exprs.length != 1)
          (previous.isSome && next.isSome) start depth
          (previous.map Place.line) (if 0 < breaks then some 0 else none) 0 ⟨1, 0⟩ 0 exprs
        let hasIndented := hasIndented || 0 < breaks
        let line := (← get).place.line
        let endsBelow :=
          mode.endsInComma && (next.map fun place => decide (line < place.line)).getD false
        if endsBelow then layMark ","
        if hasIndented && !mode.keepsIndent then ask .unindent
        if endsBelow then ask .sectionBreak
    | _, _ => return

def layOnLine : Nat → Bool → Nat → List Expr → Layout Unit
  | 0, _, _, _ => return
  | _, _, _, [] => return
  | fuel + 1, isFirst, depth, expr :: exprs => do
    if !isFirst then
      layMarkAt expr.place ","
      ask .blank
    layExpr fuel expr depth
    layOnLine fuel false depth exprs

/-- Writes the entries of a list over several lines. `line` is that of the entry before, `broken`
the index of the last entry after a line end, `size` the size of the entry before. -/
def layEntries : Nat → Bool → Bool → Space → Nat → Option Nat → Option Nat → Nat → Sizes → Nat →
    List Expr → Layout Bool
  | 0, _, _, _, _, _, _, _, _, _, _ => return false
  | _, _, _, _, _, _, _, _, _, _, [] => return false
  | fuel + 1, isMany, isKnown, start, depth, line, broken, size, sizes, index, expr :: exprs => do
    let exprLine := expr.place.line
    let key := match expr with
      | .pair key _ _ => some key
      | _ => none
    let whole := sizeOnLine (layExpr fuel expr 1) 1000000
    let ownSize :=
      if whole ≤ 1000000 && isKnown then
        match key with
        | some key => sizeOnLine (layExpr fuel key 1) 1000000
        | none => whole
      else 0
    let isApart :=
      if 0 < size && 0 < ownSize then
        if sizes.count = 0 || (size ≤ 40 && ownSize ≤ 40) then false else sizes.isFar ownSize
      else true
    let needsBreak := (line.map fun line => decide (line < exprLine)).getD false
    let space : Space := if broken.isSome then .nothing else start
    let breaks ←
      if 0 < index then do
        if !needsBreak then goTo expr.place
        layMark ","
        let breaks ←
          if needsBreak then
            lineBreak exprLine 0 space (isApart || (broken.map (· + 1)).getD 0 < index)
          else pure 0
        if breaks = 0 then ask .blank
        pure breaks
      else pure 0
    let sizes := if 1 < breaks then ⟨1, 0⟩ else sizes
    match expr with
    | .pair key colon value =>
      if isMany && 0 < ownSize && needsBreak then
        layExpr fuel key 1
        layMarkAt colon ":"
        ask .column
        layExpr fuel value 1
      else layExpr fuel expr depth
    | expr => layExpr fuel expr depth
    let sizes := if 0 < ownSize then ⟨sizes.product * ownSize, sizes.count + 1⟩ else sizes
    let isBroken := 0 < breaks
    let more ← layEntries fuel isMany isKnown start depth (some exprLine)
      (if isBroken then some index else broken) ownSize sizes (index + 1) exprs
    return isBroken || more

def layFields : Nat → FieldList → Bool → Layout Unit
  | 0, _, _ => return
  | fuel + 1, .mk opening fields closing, isStruct => do
    let hasComments := (← get).hasCommentBefore closing
    let isOnLine := !hasComments && opening.line = closing.line
    let isSmall := match fields with
      | [.mk names type none false] =>
        (if names.isEmpty then 0 else 1) + sizeOnLine (layExpr fuel type 1) 30 ≤ 30
      | _ => false
    if isOnLine && fields.isEmpty then
      layMarkAt opening "\x7b"
      layMarkAt closing "\x7d"
    else if isOnLine && isSmall then
      layMarkAt opening "\x7b"
      ask .blank
      match fields with
      | .mk names type _ _ :: _ =>
        if isStruct then
          layNames names
          if !names.isEmpty then ask .blank
          layExpr fuel type 1
        else layMethod fuel names type
      | [] => pure ()
      ask .blank
      layMarkAt closing "\x7d"
    else
      ask .blank
      layMarkAt opening "\x7b"
      ask .indent
      if hasComments || !fields.isEmpty then ask .sectionBreak
      layEachField fuel isStruct (if fields.length = 1 then .blank else .column) none fields
      ask .unindent
      ask .sectionBreak
      layMarkAt closing "\x7d"
where
  layNames : List Ident → Layout Unit
    | [] => return
    | [ident] => layName ident
    | ident :: idents => do
      layName ident
      layMark ","
      ask .blank
      layNames idents

def layMethod : Nat → List Ident → Expr → Layout Unit
  | 0, _, _ => return
  | fuel + 1, names, type => do
    match names, type with
    | name :: _, .signature _ signature =>
      layName name
      laySignature fuel signature
    | _, type => layExpr fuel type 1

def layEachField : Nat → Bool → Space → Option Nat → List Field → Layout Unit
  | 0, _, _, _, _ => return
  | _, _, _, _, [] => return
  | fuel + 1, isStruct, gap, line, field :: fields => do
    match line with
    | some line =>
      let _ ← lineBreak field.place.line 1 .nothing (← hasGrown line)
    | none => pure ()
    let line ← withLine (layField fuel isStruct gap field)
    layEachField fuel isStruct gap (some line) fields

def layField : Nat → Bool → Space → Field → Layout Unit
  | 0, _, _, _ => return
  | fuel + 1, isStruct, gap, .mk names type tag remarked => do
    if isStruct then
      if names.isEmpty then layExpr fuel type 1
      else
        layIdents fuel names true
        ask gap
        layExpr fuel type 1
      match tag with
      | some tag =>
        if !names.isEmpty && gap == .column then ask gap
        ask gap
        layLiteral tag
      | none =>
        if remarked then
          ask gap
          if names.isEmpty then ask gap
    else layMethod fuel names type

def layIdents : Nat → List Ident → Bool → Layout Unit
  | 0, _, _ => return
  | fuel + 1, idents, keepsIndent =>
    layList fuel none (idents.map Expr.name) 1 ⟨false, keepsIndent⟩ none

def laySignature : Nat → Signature → Layout Unit
  | 0, _ => return
  | fuel + 1, .mk parameters results => do
    layParameters fuel .value false parameters
    match results with
    | none => pure ()
    | some (.mk _ [] _) => pure ()
    | some (.mk _ [.mk [] type _ _] _) =>
      ask .blank
      layExpr fuel (unwrapped type) 1
    | some results =>
      ask .blank
      layParameters fuel .result false results

def layParameters : Nat → ParameterKind → Bool → FieldList → Layout Unit
  | 0, _, _, _ => return
  | fuel + 1, kind, mayBeLength, .mk opening fields closing => do
    layMarkAt opening (if kind = .type then "[" else "(")
    if !fields.isEmpty then
      let isIndented ← layEachParameter fuel opening.line false true fields
      let lastLine := (fields.getLast?.map fun field => field.type.lastLine).getD 0
      if lastLine < closing.line then
        layMark ","
        let _ ← lineBreak closing.line 0 .nothing true
      else
        match fields with
        | [.mk [_] type _ _] =>
          if mayBeLength && combinesWithName (unwrapped type) then layMark ","
        | _ => pure ()
      if isIndented then ask .unindent
    layMarkAt closing kind.closing

def layEachParameter : Nat → Nat → Bool → Bool → List Field → Layout Bool
  | 0, _, _, _, _ => return false
  | _, _, isIndented, _, [] => return isIndented
  | fuel + 1, line, isIndented, isFirst, field :: fields => do
    let start := field.place.line
    let needsBreak := 0 < line && line < start
    if !isFirst then
      if !needsBreak then goTo field.place
      layMark ","
    let breaks ←
      if needsBreak then lineBreak start 0 (if isIndented then .nothing else .indent) true
      else pure 0
    if breaks = 0 && !isFirst then ask .blank
    let isIndented := isIndented || 0 < breaks
    if !field.names.isEmpty then
      layIdents fuel field.names isIndented
      ask .blank
    layExpr fuel (unwrapped field.type) 1
    layEachParameter fuel field.type.lastLine isIndented false fields

def layBody : Nat → Nat → Space → Block → Layout Unit
  | 0, _, _, _ => return
  | fuel + 1, headSize, gap, .mk opening statements closing => do
    let writer ← get
    modify fun writer => { writer with level := 0 }
    let remarks := (writer.comments.takeWhile fun group =>
      group.first.place.offset < closing.offset && (!writer.ends || !group.breaksLine)).flatMap
        CommentGroup.comments
    let bodySize :=
      if opening.line != closing.line || 5 < statements.length then endless
      else
        ((statements.map fun statement =>
            sizeOnLine (layStatement fuel false statement) 100).foldl (· + · + 2) 0) - 2 +
          total (remarks.map fun comment => Text.byteLength comment.text)
    if headSize + bodySize ≤ 100 then
      ask gap
      layMarkAt opening "\x7b"
      if !statements.isEmpty then
        ask .blank
        layStatementsOnLine fuel true statements
        ask .blank
      toggle false true
      layMarkAt closing "\x7d"
      toggle false true
    else
      ask .blank
      layBlock fuel true (.mk opening statements closing)
    modify fun after => { after with level := writer.level }

def layStatementsOnLine : Nat → Bool → List Statement → Layout Unit
  | 0, _, _ => return
  | _, _, [] => return
  | fuel + 1, isFirst, statement :: statements => do
    if !isFirst then
      laySemicolon
      ask .blank
    layStatement fuel statements.isEmpty statement
    layStatementsOnLine fuel false statements

def layBlock : Nat → Bool → Block → Layout Unit
  | 0, _, _ => return
  | fuel + 1, indents, .mk opening statements closing => do
    layMarkAt opening "\x7b"
    layStatements fuel ⟨indents, true⟩ statements
    let _ ← lineBreak closing.line 1 .nothing false
    layMarkAt closing "\x7d"

def layStatements : Nat → StatementMode → List Statement → Layout Unit
  | 0, _, _ => return
  | fuel + 1, mode, statements => do
    if mode.indents then ask .indent
    layEachStatement fuel mode (statements.length - 1) none statements
    if mode.indents then ask .unindent

def layEachStatement : Nat → StatementMode → Nat → Option Nat → List Statement → Layout Unit
  | 0, _, _, _, _ => return
  | _, _, _, _, [] => return
  | fuel + 1, mode, later, line, statement :: statements => do
    match statement with
    | .empty _ => layEachStatement fuel mode later line statements
    | statement =>
      let isSection ← match line with
        | some line => do
          let grown ← hasGrown line
          pure (!mode.indents || grown)
        | none => pure true
      let _ ← lineBreak statement.place.line 1 .nothing isSection
      let line ← withLine (layStatement fuel (mode.closes && later = 0) statement)
      layEachStatement fuel mode (later - 1) (some (line + statement.labelCount)) statements

def layStatement : Nat → Bool → Statement → Layout Unit
  | 0, _, _ => return
  | fuel + 1, closes, statement => do
    goTo statement.place
    match statement with
    | .empty _ => pure ()
    | .declare group => layGroup fuel group
    | .labelled label colon statement =>
      ask .unindent
      layName label
      layMarkAt colon ":"
      ask .indent
      match statement with
      | .empty place =>
        if !closes then
          ask .newline
          goTo place
          laySemicolon
      | statement =>
        let _ ← lineBreak statement.place.line 1 .nothing true
        layStatement fuel closes statement
    | .expression expr => layExpr fuel expr 1
    | .send channel arrow value =>
      layExpr fuel channel 1
      ask .blank
      layMarkAt arrow "<-"
      ask .blank
      layExpr fuel value 1
    | .step expr sign =>
      layExpr fuel expr 2
      layMarkAt sign.place sign.text
    | .assign left sign right =>
      let depth := if 1 < left.length && 1 < right.length then 2 else 1
      layList fuel (some statement.place) left depth ⟨false, false⟩ (some sign.place)
      ask .blank
      layMarkAt sign.place sign.text
      ask .blank
      layList fuel (some sign.place) right depth ⟨false, false⟩ none
    | .launch word _ call =>
      layWord word
      ask .blank
      layExpr fuel call 1
    | .result _ values =>
      layWord "return"
      match values, values.getLast? with
      | first :: _, some last =>
        ask .blank
        if first.place.line < last.lastLine && isSpread first.place.line 0 values then
          ask .indent
          layList fuel none values 1 ⟨false, true⟩ none
          ask .unindent
        else layList fuel none values 1 ⟨false, false⟩ none
      | _, _ => pure ()
    | .jump word _ label =>
      layWord word
      match label with
      | some label =>
        ask .blank
        layName label
      | none => pure ()
    | .block block => layBlock fuel true block
    | .condition _ initial test body otherwise =>
      layWord "if"
      layHead fuel initial (some test) none
      layBlock fuel true body
      match otherwise with
      | some otherwise =>
        ask .blank
        layWord "else"
        ask .blank
        layStatement fuel closes otherwise
      | none => pure ()
    | .choice _ initial tag clauses =>
      layWord "switch"
      layHead fuel initial tag none
      layBlock fuel false clauses
    | .typeChoice _ initial guard clauses =>
      layWord "switch"
      match initial with
      | some initial =>
        ask .blank
        layStatement fuel false initial
        laySemicolon
      | none => pure ()
      ask .blank
      layStatement fuel false guard
      ask .blank
      layBlock fuel false clauses
    | .clause start values colon body =>
      if values.isEmpty then layWord "default"
      else
        layWord "case"
        ask .blank
        layList fuel (some start) values 1 ⟨false, false⟩ (some colon)
      layMarkAt colon ":"
      layStatements fuel ⟨true, closes⟩ body
    | .selection _ (.mk opening clauses closing) =>
      layWord "select"
      ask .blank
      if clauses.isEmpty && !(← get).hasCommentBefore closing then
        layMarkAt opening "\x7b"
        layMarkAt closing "\x7d"
      else layBlock fuel false (.mk opening clauses closing)
    | .exchange _ exchange colon body =>
      match exchange with
      | some exchange =>
        layWord "case"
        ask .blank
        layStatement fuel false exchange
      | none => layWord "default"
      layMarkAt colon ":"
      layStatements fuel ⟨true, closes⟩ body
    | .loop _ initial test next body =>
      layWord "for"
      layHead fuel initial test (some next)
      layBlock fuel true body
    | .traversal _ items sign collection body =>
      layWord "for"
      ask .blank
      match items with
      | [] => pure ()
      | key :: values =>
        layExpr fuel key 1
        match values with
        | [] => pure ()
        | value :: _ =>
          layMarkAt value.place ","
          ask .blank
          layExpr fuel value 1
        ask .blank
        layMarkAt sign.place sign.text
        ask .blank
      layWord "range"
      ask .blank
      layExpr fuel (bare fuel collection) 1
      ask .blank
      layBlock fuel true body

def layHead : Nat → Option Statement → Option Expr → Option (Option Statement) → Layout Unit
  | 0, _, _, _ => return
  | fuel + 1, initial, test, next => do
    let next? := next.getD none
    ask .blank
    if initial.isSome || next?.isSome then
      match initial with
      | some initial => layStatement fuel false initial
      | none => pure ()
      laySemicolon
      ask .blank
      match test with
      | some test => layExpr fuel (bare fuel test) 1
      | none => pure ()
      if next.isSome then
        laySemicolon
        ask .blank
        match next? with
        | some next => layStatement fuel false next
        | none => pure ()
      if (if next.isSome then next?.isSome else test.isSome) then ask .blank
    else
      match test with
      | some test =>
        layExpr fuel (bare fuel test) 1
        ask .blank
      | none => pure ()

def layValues : Nat → Bool → List Ident → Option Expr → List Expr → Bool → Layout Unit
  | 0, _, _, _, _, _ => return
  | fuel + 1, keepsType, names, type, values, remarked => do
    layIdents fuel names true
    let hasTypeColumn := type.isSome || keepsType
    if hasTypeColumn then ask .column
    match type with
    | some type => layExpr fuel type 1
    | none => pure ()
    if !values.isEmpty then
      ask .column
      layMark "="
      ask .blank
      layList fuel none values 1 ⟨false, false⟩ none
    if remarked then
      let missing := 3 - (if hasTypeColumn then 1 else 0) - (if values.isEmpty then 0 else 1)
      (List.replicate missing Space.column).forM ask

def laySpec : Nat → Bool → Bool → Spec → Layout Unit
  | 0, _, _, _ => return
  | fuel + 1, isLone, isInGroup, spec => do
    match spec with
    | .package name path =>
      match name with
      | some name =>
        layName name
        ask .blank
      | none => pure ()
      layLiteral path
    | .value names type values _ =>
      layIdents fuel names isInGroup
      match type with
      | some type =>
        ask .blank
        layExpr fuel type 1
      | none => pure ()
      if !values.isEmpty then
        ask .blank
        layMark "="
        ask .blank
        layList fuel none values 1 ⟨false, false⟩ none
    | .type name parameters isAlias type =>
      layName name
      match parameters with
      | some parameters => layParameters fuel .type true parameters
      | none => pure ()
      ask (if isLone then .blank else .column)
      if isAlias then
        layMark "="
        ask .blank
      layExpr fuel type 1

def laySpecs : Nat → Bool → Bool → Option Nat → List (Spec × Bool) → Layout Unit
  | 0, _, _, _, _ => return
  | _, _, _, _, [] => return
  | fuel + 1, isLone, hasColumns, line, (spec, keepsType) :: specs => do
    match line with
    | some line =>
      let _ ← lineBreak spec.place.line 1 .nothing (← hasGrown line)
    | none => pure ()
    let line ← withLine (match spec with
      | .value names type values remarked =>
        if hasColumns then layValues fuel keepsType names type values remarked
        else laySpec fuel isLone true spec
      | spec => laySpec fuel isLone true spec)
    laySpecs fuel isLone hasColumns (some line) specs

def layGroup : Nat → Group → Layout Unit
  | 0, _ => return
  | fuel + 1, .mk word start specs parens => do
    goTo start
    layWord word
    ask .blank
    match parens with
    | some (opening, closing) =>
      layMarkAt opening "("
      if !specs.isEmpty then
        ask .indent
        ask .sectionBreak
        let isLone := specs.length = 1
        let hasColumns := !isLone && (word = "const" || word = "var")
        laySpecs fuel isLone hasColumns none (specs.zip (keepTypes specs))
        ask .unindent
        ask .sectionBreak
      layMarkAt closing ")"
    | none =>
      match specs with
      | spec :: _ => laySpec fuel true false spec
      | [] => pure ()

end

def layDeclaration (fuel : Nat) : Declaration → Layout Unit
  | .group group _ => layGroup fuel group
  | .function start _ receiver name parameters signature body => do
    goTo start
    layWord "func"
    ask .blank
    let column ← columnBefore "func "
    match receiver with
    | some receiver =>
      layParameters fuel .value false receiver
      ask .blank
    | none => pure ()
    layName name
    match parameters with
    | some parameters => layParameters fuel .type false parameters
    | none => pure ()
    laySignature fuel signature
    match body with
    | some body => layBody fuel (← distanceFrom start column) .column body
    | none => pure ()

def lastLineOf : Declaration → Nat
  | .group (.mk _ start _ _) _ => start.line
  | .function _ _ _ _ _ signature body =>
    match body with
    | some body => body.closing.line
    | none => signature.lastLine

/-- Writes declarations. Between two of different words, and above a comment, there is an empty
line; `word` is that of the one before. -/
def layDeclarations (fuel : Nat) (word : String) : List Declaration → Layout Unit
  | [] => return
  | declaration :: declarations => do
    let least := if declaration.word != word || declaration.documented then 2 else 1
    let isLong := declaration.word = "func" && declaration.place.line < lastLineOf declaration
    let _ ← lineBreak declaration.place.line least .nothing isLong
    layDeclaration fuel declaration
    layDeclarations fuel declaration.word declarations

def layTree (fuel : Nat) (tree : Tree) : Layout Unit := do
  goTo tree.start
  layWord "package"
  ask .blank
  layName tree.package
  layDeclarations fuel "" tree.declarations
  ask .newline

def format? (text : Text) : Option Text := do
  let tree ← parse? text
  let writer := ((layTree (16 * (text.length + 1)) tree).run (.start tree.comments)).2.finish
  return pageText (gatherConstraints writer.page.reverse writer.constraints)

end Avro.Source
