import Avro.Source.Lexer

/-!
# Text above declarations

The text above a declaration consists of paragraphs, headings, lists and indented code. This module
finds them and writes them in one standard way: headings behind a number sign, list items with a
hyphen or a number, code behind a tab, and the definitions of links at the end.
-/

set_option autoImplicit false

namespace Avro.Source

def isGapCell (cell : Cell) : Bool := cell.isChar ' ' || cell.isChar '\t'

def margin (line : Text) : Text := line.takeWhile isGapCell

def isIndented (line : Text) : Bool := (line.head?.map isGapCell).getD false

def commonStart : Text → Text → Text
  | left :: lefts, right :: rights => if left == right then left :: commonStart lefts rights else []
  | _, _ => []

def withoutOuterEmpty (lines : List Text) : List Text :=
  ((lines.dropWhile List.isEmpty).reverse.dropWhile List.isEmpty).reverse

def unindented (lines : List Text) : List Text :=
  let lines := withoutOuterEmpty lines
  match lines with
  | [] => []
  | first :: rest =>
    let shared := (rest.filter fun line => !line.isEmpty).foldl
      (fun shared line => commonStart shared (margin line)) (margin first)
    withoutOuterEmpty (lines.map fun line =>
      let line := if line.startsWith shared then line.drop shared.length else line
      if (Text.trim line).isEmpty then [] else line)

def listMark? (line : Text) : Option (Text × Text) :=
  let line := Text.trim line
  let found? : Option (Text × Text) :=
    match line with
    | [] => none
    | first :: rest =>
      if "•*+-".toList.contains first.shown then some ([], rest)
      else
        let number := line.takeWhile fun cell => cell.shown.isDigit
        match number, line.drop number.length with
        | _ :: _, mark :: rest =>
          if mark.isChar '.' || mark.isChar ')' then some (number, rest) else none
        | _, _ => none
  found?.bind fun (number, rest) =>
    if isIndented rest && !(Text.trim rest).isEmpty then some (number, rest) else none

def isListLine (line : Text) : Bool := (listMark? line).isSome

def isHeading (line : Text) : Bool :=
  match line with
  | .scalar '#' :: next :: _ => isGapCell next && Text.trim line != "#"
  | _ => false

def allFollowed (char : Char) (test : Text → Bool) : Text → Bool
  | [] => true
  | cell :: rest => (!cell.isChar char || test rest) && allFollowed char test rest

/-- Whether a line alone reads like a heading: it begins with a capital, ends in a letter or digit,
and has no marks of a sentence. -/
def readsAsHeading (line : Text) : Bool :=
  let line := Text.trim line
  let isLetterOrDigit := fun (cell : Cell) =>
    Text.isLetter cell.shown || Text.isDigit cell.shown
  (line.head?.map fun cell => Text.isLetter cell.shown && Text.isCapital cell.shown).getD false &&
    (line.getLast?.map isLetterOrDigit).getD false &&
    !line.any (fun cell => ";:!?+*/=[]\x7b\x7d_^°&§~%#@<\">\\".toList.contains cell.shown) &&
    allFollowed '\'' (fun rest => rest == "s" || rest.startsWith "s ") line &&
    allFollowed '.' (fun rest => !rest.isEmpty && !rest.startsWith " ") line

def isPlainHeading (lines : Array Text) (index : Nat) : Bool :=
  0 < index && (lines.getD (index - 1) []).isEmpty && index + 2 < lines.size &&
    (lines.getD (index + 1) []).isEmpty && !isIndented (lines.getD (index + 2) []) &&
    readsAsHeading (lines.getD index [])

inductive SpanKind where
  | paragraph
  | heading
  | plainHeading
  | list
  | code
deriving DecidableEq, Repr, Inhabited

structure Span where
  first : Nat
  stop : Nat
  kind : SpanKind
deriving Repr, Inhabited

def indexWhile (test : Nat → Bool) : Nat → Nat → Nat
  | 0, index => index
  | fuel + 1, index => if test index then indexWhile test fuel (index + 1) else index

def indentedEnd (lines : Array Text) (forced : Nat) : Nat → Bool → Nat → Nat
  | 0, _, index => index
  | fuel + 1, loose, index =>
    if lines.size ≤ index then index
    else
      let line := lines.getD index []
      if line.isEmpty then indentedEnd lines forced fuel false (index + 1)
      else if index < forced || isIndented line || (loose && isListLine line) then
        indentedEnd lines forced fuel loose (index + 1)
      else index

def trimmedEnd (lines : Array Text) (first : Nat) : Nat → Nat → Nat
  | 0, stop => stop
  | fuel + 1, stop =>
    if first < stop && (lines.getD (stop - 1) []).isEmpty then
      trimmedEnd lines first fuel (stop - 1)
    else stop

def listStart (lines : Array Text) (first : Nat) : Nat → Nat → Nat
  | 0, stop => stop
  | fuel + 1, stop =>
    if first < stop && isListLine (lines.getD (stop - 1) []) then
      listStart lines first fuel (stop - 1)
    else stop

def indentedSpan (lines : Array Text) (forced first : Nat) : Span :=
  let loose := isListLine (lines.getD first []) && first < forced
  let stop := indentedEnd lines forced lines.size loose (first + 1)
  let stop := trimmedEnd lines first lines.size stop
  let stop :=
    if stop < lines.size && (lines.getD stop []).startsWith "\x7d" then stop + 1 else stop
  ⟨first, stop, if isListLine (lines.getD first []) then .list else .code⟩

def plainKind (lines : Array Text) (first stop : Nat) : SpanKind :=
  if stop - first = 1 && isHeading (lines.getD first []) then .heading
  else if stop - first = 1 && isPlainHeading lines first then .plainHeading
  else .paragraph

/-- The end of lines that are not indented, and the lines that count as indented all the same: list
items, or the start of code, right above indented lines. -/
def plainEnd (lines : Array Text) (forced first : Nat) : Nat × Nat :=
  let stop := indexWhile (fun index =>
    index < lines.size && !(lines.getD index []).isEmpty && !isIndented (lines.getD index []))
    lines.size (first + 1)
  let next := lines.getD stop []
  let last := lines.getD (stop - 1) []
  if stop < lines.size && !next.isEmpty && !isListLine next then
    if isListLine last then (listStart lines first lines.size (stop - 1), stop)
    else if last.endsWith "\x7b" || last.endsWith "\\" then (stop - 1, stop)
    else (stop, forced)
  else (stop, forced)

def spansFrom (lines : Array Text) : Nat → Nat → Nat → List Span
  | 0, _, _ => []
  | fuel + 1, forced, index =>
    let first := indexWhile (fun index =>
      index < lines.size && (lines.getD index []).isEmpty) lines.size index
    if lines.size ≤ first then []
    else if first < forced || isIndented (lines.getD first []) then
      let span := indentedSpan lines forced first
      span :: spansFrom lines fuel forced span.stop
    else
      let (stop, forced) := plainEnd lines forced first
      if stop = first && first < forced then spansFrom lines fuel forced first
      else ⟨first, stop, plainKind lines first stop⟩ :: spansFrom lines fuel forced stop

structure LinkDefinition where
  text : Text
  address : Text
deriving DecidableEq, Repr, Inhabited

def schemes : List String := ["file", "ftp", "gopher", "http", "https", "mailto", "nntp"]

def linkDefinition? (line : Text) : Option LinkDefinition :=
  match line with
  | .scalar '[' :: rest =>
    match Text.splitAtText? "]:" rest with
    | some (text, gap :: _ :: _) =>
      if isGapCell gap then
        let address := Text.trim ((rest.drop (text.length + 3)))
        match Text.splitAtText? "://" address with
        | some (scheme, _) =>
          if schemes.contains (Text.shown scheme) then some ⟨text, address⟩ else none
        | none => none
      else none
    | _ => none
  | _ => none

structure ListItem where
  number : Text
  paragraphs : List (List Text)
deriving Repr, Inhabited

inductive DocBlock where
  | paragraph (lines : List Text)
  | heading (text : Text)
  | code (lines : List Text)
  | list (items : List ListItem) (apartBefore apartBetween : Bool)
deriving Repr, Inhabited

def paragraphOf (lines : List Text) : Option (List Text) × List LinkDefinition :=
  match lines.mapM linkDefinition? with
  | some definitions => (none, definitions)
  | none => (some lines, [])

structure ListReading where
  items : List ListItem
  lines : List Text
  definitions : List LinkDefinition
  apart : Bool
deriving Repr, Inhabited

namespace ListReading

def close (reading : ListReading) : ListReading :=
  match reading.items with
  | [] => { reading with lines := [] }
  | item :: items =>
    let (paragraph?, definitions) := paragraphOf reading.lines
    let item := match paragraph? with
      | some lines => { item with paragraphs := item.paragraphs ++ [lines] }
      | none => item
    { reading with
      items := item :: items, lines := [], definitions := reading.definitions ++ definitions }

def add (isNumbered : Bool) (reading : ListReading) (line : Text) : ListReading :=
  let (reading, line) : ListReading × Text :=
    match listMark? line with
    | some (number, rest) =>
      if !number.isEmpty == isNumbered then
        let closed := reading.close
        ({ closed with items := ⟨number, []⟩ :: closed.items }, rest)
      else (reading, line)
    | none => (reading, line)
  let line := Text.trim line
  if line.isEmpty then { reading.close with apart := true }
  else { reading with lines := reading.lines ++ [line] }

end ListReading

def listOf (apartBefore : Bool) (lines : List Text) : DocBlock × List LinkDefinition :=
  let isNumbered := match lines with
    | [] => false
    | first :: _ => ((listMark? first).map fun (number, _) => !number.isEmpty).getD false
  let reading := (lines.foldl (ListReading.add isNumbered) ⟨[], [], [], false⟩).close
  let items := reading.items.reverse
  let apart := reading.apart || items.any fun item => item.paragraphs.length != 1
  (.list items (apartBefore || apart) apart, reading.definitions)

def blockOf (lines : Array Text) (apart : Bool) (span : Span) :
    Option DocBlock × List LinkDefinition :=
  let inside := (lines.toList.drop span.first).take (span.stop - span.first)
  let line := lines.getD span.first []
  match span.kind with
  | .paragraph =>
    let (lines?, definitions) := paragraphOf inside
    (lines?.map DocBlock.paragraph, definitions)
  | .heading => (some (.heading (Text.trim (line.drop 1))), [])
  | .plainHeading => (some (.heading (Text.trim line)), [])
  | .code => (some (.code (unindented inside)), [])
  | .list =>
    let (block, definitions) := listOf apart inside
    (some block, definitions)

def blocksOf (lines : Array Text) (stop : Nat) : List Span → List DocBlock × List LinkDefinition
  | [] => ([], [])
  | span :: spans =>
    let (block?, definitions) := blockOf lines (stop < span.first) span
    let (blocks, more) := blocksOf lines span.stop spans
    (block?.toList ++ blocks, definitions ++ more)

def isHostChar (char : Char) : Bool := char.isAlphanum || "_@-.[]:".toList.contains char

def isStop (char : Char) : Bool := ".,:;?!".toList.contains char

def isPathChar (char : Char) : Bool :=
  char.isAlphanum || "$'()*+&#=@~_/-[]\x7b\x7d%".toList.contains char

def pathLength (brackets : List Char) (index found : Nat) : List Char → Nat
  | [] => found
  | char :: rest =>
    if isStop char then pathLength brackets (index + 1) found rest
    else if !isPathChar char then found
    else
      let opened? : Option (List Char) :=
        if char = '(' then some (')' :: brackets)
        else if char = '\x7b' then some ('\x7d' :: brackets)
        else if char = '[' then some (']' :: brackets)
        else if char = ')' || char = '\x7d' || char = ']' then
          if brackets.head? = some char then some brackets.tail else none
        else some brackets
      match opened? with
      | none => found
      | some opened =>
        pathLength opened (index + 1) (if opened.isEmpty then index + 1 else found) rest

def hostLength (index found : Nat) : List Char → Nat
  | [] => found
  | char :: rest =>
    if isHostChar char then hostLength (index + 1) (if isStop char then found else index + 1) rest
    else found

def addressLength? (text : Text) : Option Nat :=
  let chars := text.map Cell.shown
  let scheme := chars.takeWhile fun char => char != ':'
  let rest := chars.drop scheme.length
  if 3 ≤ scheme.length && scheme.length ≤ 6 && schemes.contains (String.ofList scheme) &&
      rest.take 3 = [':', '/', '/'] then
    match rest.drop 3 with
    | [] => none
    | first :: more =>
      if isHostChar first && !isStop first then
        let host := hostLength 1 1 more
        let start := scheme.length + 3
        some (start + host + pathLength [] 0 0 (more.drop (host - 1)))
      else none
  else none

def wordLength (text : Text) : Nat :=
  let isFirst := fun (cell : Cell) => cell.isChar '_' || Text.isLetter cell.shown
  match text with
  | first :: rest =>
    if isFirst first then
      1 + (rest.takeWhile fun cell => isFirst cell || cell.shown.isDigit).length
    else 0
  | [] => 0

/-- A text with two back quotes or two apostrophes as quotation marks. Addresses stay if `links` is
set. -/
def withQuotes (links : Bool) (whole : Array UInt8) : Nat → Nat → Text → Text
  | 0, _, text => text
  | _, _, [] => []
  | fuel + 1, offset, cell :: rest =>
    let text : Text := cell :: rest
    let kept : Nat :=
      if links then
        match addressLength? text with
        | some length => length
        | none => wordLength text
      else 0
    if 0 < kept then
      let taken := text.take kept
      taken ++ withQuotes links whole fuel (offset + Text.byteLength taken) (text.drop kept)
    else if text.startsWith "\x60\x60\x60" then
      let more := indexWhile (fun count => whole.getD (2 * offset + 3 + count) 0 == 0x60)
        whole.size 0
      let count := 3 + more
      text.take count ++ withQuotes links whole fuel (offset + count) (text.drop count)
    else if text.startsWith "\x60\x60" then
      .scalar '“' :: withQuotes links whole fuel (offset + 2) (text.drop 2)
    else if text.startsWith "''" then
      .scalar '”' :: withQuotes links whole fuel (offset + 2) (text.drop 2)
    else cell :: withQuotes links whole fuel (offset + cell.width) rest

def quoted (links : Bool) (text : Text) : Text :=
  withQuotes links text.toBytes.toArray (text.length + 1) 0 text

structure LinkReading where
  written : Text
  plain : Text
  inner : Option Text
  name : Text
  used : List Text
deriving Repr, Inhabited

namespace LinkReading

def rest (reading : LinkReading) : Text :=
  match reading.inner with
  | some inner => reading.plain ++ "[" ++ inner
  | none => reading.plain

def add (known : List Text) (reading : LinkReading) (cell : Cell) : LinkReading :=
  if cell.isChar '[' then { reading with plain := reading.rest, inner := some [] }
  else if cell.isChar ']' then
    match reading.inner with
    | none => { reading with plain := reading.plain ++ [cell], name := [] }
    | some inner =>
      if reading.name ∈ known then
        { written :=
            reading.written ++ quoted true reading.plain ++ "[" ++ quoted false inner ++ "]"
          plain := [], inner := none, name := [], used := reading.name :: reading.used }
      else { reading with plain := reading.rest ++ [cell], inner := none, name := [] }
  else
    match reading.inner with
    | none => { reading with plain := reading.plain ++ [cell] }
    | some inner =>
      let blank := cell.isChar '\n' || cell.isChar '\t'
      { reading with
        inner := some (inner ++ [cell])
        name := reading.name ++ [if blank then .scalar ' ' else cell] }

end LinkReading

def settleParagraph (known : List Text) (lines : List Text) : List Text × List Text :=
  let reading := (Text.join "\n" lines).foldl (LinkReading.add known) ⟨[], [], none, [], []⟩
  (Text.splitOn '\n' (reading.written ++ quoted true reading.rest), reading.used)

def settleBlock (known : List Text) : DocBlock → DocBlock × List Text
  | .paragraph lines =>
    let (lines, used) := settleParagraph known lines
    (.paragraph lines, used)
  | .list items before between =>
    let settled := items.map fun item => item.paragraphs.map (settleParagraph known)
    let items := List.zipWith
      (fun item paragraphs => { item with paragraphs := paragraphs.map Prod.fst }) items settled
    (.list items before between, settled.flatten.flatMap Prod.snd)
  | block => (block, [])

def hang (lines : List Text) : List Text :=
  match lines with
  | [] => []
  | first :: rest => first :: rest.map fun line => "    " ++ line

def itemLines (item : ListItem) : List Text :=
  let mark : Text := if item.number.isEmpty then "  - " else " " ++ item.number ++ ". "
  match item.paragraphs with
  | [] => [mark]
  | first :: rest =>
    let firstLines := match hang first with
      | [] => [mark]
      | line :: lines => (mark ++ line) :: lines
    firstLines ++ rest.flatMap fun paragraph =>
      [] :: (match hang paragraph with
        | [] => ([] : List Text)
        | line :: lines => ("    " ++ line) :: lines)

def apartLines : List (List Text) → List Text
  | [] => []
  | [lines] => lines
  | lines :: more => lines ++ [] :: apartLines more

def DocBlock.lines : DocBlock → List Text
  | .paragraph lines => lines
  | .heading text => ["# " ++ text]
  | .code lines => lines.map fun line => if line.isEmpty then [] else "\t" ++ line
  | .list items _ between =>
    if between then apartLines (items.map itemLines) else items.flatMap itemLines

def DocBlock.isApart : DocBlock → Bool
  | .list _ before _ => before
  | _ => true

def blockLines (isFirst : Bool) : List DocBlock → List Text
  | [] => []
  | block :: blocks =>
    (if !isFirst && block.isApart then [[]] else []) ++ block.lines ++ blockLines false blocks

def definitionLines (definitions : List LinkDefinition) : List Text :=
  if definitions.isEmpty then []
  else
    [] :: definitions.map fun definition =>
      "[" ++ definition.text ++ "]: " ++ definition.address

/-- The lines of a text in the standard way. Definitions that are used come first; of two for one
name only the first is. -/
def standardLines (lines : List Text) : List Text :=
  let lines := (unindented lines).toArray
  let (blocks, definitions) := blocksOf lines 0 (spansFrom lines (2 * lines.size + 2) 0 0)
  let settled := blocks.map (settleBlock (definitions.map LinkDefinition.text))
  let used := settled.flatMap Prod.snd
  let isUsed := fun (index : Nat) =>
    match definitions[index]? with
    | some definition =>
      decide (definition.text ∈ used) &&
        !(definitions.take index).any fun other => other.text == definition.text
    | none => false
  let indices := List.range definitions.length
  blockLines true (settled.map Prod.fst) ++
    definitionLines ((indices.filter isUsed).filterMap (definitions[·]?)) ++
    definitionLines ((indices.filter fun index => !isUsed index).filterMap (definitions[·]?))

/-!
## Laying out comments

A comment over several lines is moved as a whole, so the margin that its lines have in common is
taken off. Comments above declarations are put into the standard form of their text; comments that
are directives stay as they are, below the text.
-/

def isUnseen (line : Text) : Bool := line.all fun cell => cell.shown ≤ ' '

def commonMargin : Text → Text → Text
  | left :: lefts, right :: rights =>
    if left == right && (left.shown ≤ ' ' || left.isChar '*') then
      left :: commonMargin lefts rights
    else []
  | _, _ => []

def innerMargin (inner : List Text) (last : Text) : Text :=
  match inner.filter fun line => !isUnseen line with
  | [] => commonMargin last last
  | first :: rest => rest.foldl commonMargin (commonMargin first first)

def shortened (margin : Text) : Text :=
  let reversed := margin.reverse
  let blanks := (reversed.take 3).takeWhile fun cell => cell.isChar ' '
  match blanks, reversed with
  | [], .scalar '\t' :: rest => rest.reverse
  | blanks, reversed => (reversed.drop blanks.length).reverse

def openingMargin (first : Text) : Text :=
  let blanks := (first.drop 2).takeWhile fun cell => cell.shown ≤ ' '
  match blanks with
  | .scalar '\t' :: _ => blanks
  | blanks => "  " ++ blanks

/-- The lines of a comment between marks without the margin that they have in common. -/
def withoutMargin (lines : List Text) : List Text :=
  match lines, lines.getLast? with
  | first :: rest, some last =>
    if rest.isEmpty then lines
    else
      let inner := rest.dropLast.map fun line => if isUnseen line then [] else line
      let found := innerMargin inner last
      let (margin, hasStars) : Text × Bool :=
        match Text.splitFirst? '*' found with
        | some (before, _) => (Text.dropEnding before " ", true)
        | none =>
          if isUnseen (first.drop 2) then (shortened found, false)
          else (Text.dropEnding found (openingMargin first), false)
      let before := ((Text.splitAtText? "*/" last).map Prod.fst).getD last
      let closes := isUnseen before
      let last := if closes then margin ++ (if hasStars then " */" else "*/") else last
      let margin := if closes then margin else commonMargin margin last
      first :: ((inner ++ [last]).map fun line => line.drop margin.length)
  | lines, _ => lines

def hasStars (lines : List Text) : Bool :=
  lines.tail.all fun line =>
    match line.dropWhile isGapCell with
    | [] => true
    | cell :: _ => cell.isChar '*'

def isDirectiveChar (char : Char) : Bool := ('a' ≤ char && char ≤ 'z') || char.isDigit

def isDirective (text : Text) : Bool :=
  text.startsWith "line " || text.startsWith "extern " || text.startsWith "export " ||
    match Text.splitFirst? ':' text with
    | some (word, next :: _) =>
      !word.isEmpty && word.all (fun cell => isDirectiveChar cell.shown) &&
        isDirectiveChar next.shown
    | _ => false

def lineComment (line : Text) : Text :=
  if line.isEmpty then "//"
  else if line.startsWith "\t" then "//" ++ line
  else "// " ++ line

def commentBody (comment : Comment) : Text :=
  match comment.text.drop 2 with
  | .scalar ' ' :: rest => rest
  | rest => rest

def formatDocumentation (group : CommentGroup) : List Comment :=
  let place := group.first.place
  if group.more.isEmpty && !group.first.isLine then
    let text := group.first.text
    let lines := Text.splitOn '\n' text
    if lines.length ≤ 1 || hasStars lines then group.comments
    else
      let inner := (text.drop 2).take (text.length - 4)
      let lines := standardLines (Text.splitOn '\n' inner)
      let body : Text := lines.flatMap fun line => line ++ ("\n" : Text)
      [⟨"/*\n" ++ body ++ "*/", place⟩]
  else if group.comments.all Comment.isLine then
    let directives := group.comments.filter fun comment => isDirective (comment.text.drop 2)
    let texts := group.comments.filter fun comment => !isDirective (comment.text.drop 2)
    if texts.isEmpty then group.comments
    else
      let lines := (standardLines (texts.map commentBody)).map lineComment
      let lines := if lines.isEmpty || directives.isEmpty then lines else lines ++ [("//" : Text)]
      (lines ++ directives.map Comment.text).map fun text => ⟨text, place⟩
  else group.comments

end Avro.Source
