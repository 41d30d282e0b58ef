import Avro.Source.Page
import Avro.Source.DocText

/-!
# Writing source with its comments

A writer gets tokens and the space between them. Space is kept back until the next token, because
the comments that stand in front of that token in the source go in between: a comment on the line of
the last token stays there, and one on a line of its own gets such a line.
-/

set_option autoImplicit false

namespace Avro.Source

inductive Space where
  | nothing
  | blank
  | column
  | newline
  | sectionBreak
  | indent
  | unindent
deriving DecidableEq, Repr, Inhabited

def Space.endsLine (space : Space) : Bool := space == .newline || space == .sectionBreak

/-- A writer in the middle of its work. Places are those of the source, moved on by what has been
written since; `line` and `column` are those of the page. -/
structure Writer where
  page : List Mark
  indent : Nat
  level : Nat
  tight : Bool
  unbroken : Bool
  unaligned : Bool
  ends : Bool
  lastToken : Option TokenKind
  opened : Option TokenKind
  pending : List Space
  place : Place
  lastPlace : Place
  line : Nat
  column : Nat
  asked : Bool
  found : List Nat
  comments : List CommentGroup
  constraints : List ConstraintPlace
deriving Inhabited

namespace Writer

def start (comments : List CommentGroup) : Writer :=
  { page := [], indent := 0, level := 0, tight := false, unbroken := false, unaligned := false,
    ends := false, lastToken := none, opened := none, pending := [], place := .start,
    lastPlace := default, line := 1, column := 1, asked := false, found := [],
    comments := comments, constraints := [] }

def advance (writer : Writer) (count : Nat) : Writer :=
  { writer with
    place := ⟨writer.place.offset + count, writer.place.line, writer.place.column + count⟩
    column := writer.column + count }

def putIndent (writer : Writer) : Writer :=
  if writer.column = 1 then
    let page := List.replicate writer.indent Mark.tab ++ writer.page
    { writer with page }.advance writer.indent
  else writer

def putMark (writer : Writer) (mark : Mark) (count : Nat) : Writer :=
  let (mark, unaligned) : Mark × Bool :=
    if writer.unaligned then
      match mark with
      | .tab => (.blank, true)
      | .column => (.blank, true)
      | .newline => (.sectionBreak, false)
      | .sectionBreak => (.sectionBreak, false)
      | mark => (mark, true)
    else (mark, false)
  let writer := { writer with unaligned }.putIndent
  let writer := { writer with page := List.replicate count mark ++ writer.page }
  if mark.endsLine then
    { writer with
      place := ⟨writer.place.offset + count, writer.place.line + count, 1⟩
      line := writer.line + count
      column := 1 }
  else writer.advance count

def putText (writer : Writer) (place : Place) (text : Text) : Writer :=
  let writer := writer.putIndent
  let breaks := (text.filter fun cell => cell.isChar '\n').length
  let tail := text.reverse.takeWhile fun cell => !cell.isChar '\n'
  let size := Text.byteLength text
  let moved : Place :=
    if breaks = 0 then ⟨place.offset + size, place.line, place.column + size⟩
    else ⟨place.offset + size, place.line + breaks, Text.byteLength tail + 1⟩
  { writer with
    page := .text text :: writer.page
    place := moved
    lastPlace := moved
    unaligned := writer.unaligned || breaks != 0
    line := writer.line + breaks
    column := if breaks = 0 then writer.column + size else Text.byteLength tail + 1 }

def putSpaces (writer : Writer) : List Space → Writer
  | [] => writer
  | .nothing :: rest => writer.putSpaces rest
  | .blank :: rest => (writer.putMark .blank 1).putSpaces rest
  | .column :: rest => (writer.putMark .column 1).putSpaces rest
  | .indent :: rest => { writer with indent := writer.indent + 1 }.putSpaces rest
  | .unindent :: rest => { writer with indent := writer.indent - 1 }.putSpaces rest
  | .newline :: .unindent :: rest =>
    { writer with indent := writer.indent - 1 }.putSpaces (.sectionBreak :: rest)
  | .sectionBreak :: .unindent :: rest =>
    { writer with indent := writer.indent - 1 }.putSpaces (.sectionBreak :: rest)
  | .newline :: rest => (writer.putMark .newline 1).putSpaces rest
  | .sectionBreak :: rest => (writer.putMark .sectionBreak 1).putSpaces rest
termination_by spaces => spaces.length

def putPending (writer : Writer) (count : Nat) : Writer :=
  { writer.putSpaces (writer.pending.take count) with pending := writer.pending.drop count }

def putAllPending (writer : Writer) : Writer := writer.putPending writer.pending.length

def hasCommentBefore (writer : Writer) (next : Place) : Bool :=
  match writer.comments with
  | [] => false
  | group :: _ =>
    group.first.place.offset < next.offset && (!writer.ends || !group.breaksLine)

/-- The pending spaces in front of a comment on the same line: how many to write, with blanks left
out, and whether one of them is a column. -/
def besideSpaces (pending : List Space) : Nat × List Space × Bool :=
  let isLight := fun space => space == .blank || space == .column || space == .indent
  let light := pending.takeWhile isLight
  let kept := light.map fun space => if space == .blank then Space.nothing else space
  let rest := pending.drop light.length
  (if rest.isEmpty then 0 else light.length, kept ++ rest, light.contains .column)

/-- The pending spaces in front of a comment on a line of its own: how many to write, what becomes
of them, and whether a line end was left out. `aligned` says that the comment stands below the next
token and that this token closes nothing. -/
def aboveSpaces (aligned : Bool) : List Space → Option (Nat × List Space × Bool)
  | [] => none
  | .blank :: rest => skip .nothing (aboveSpaces aligned rest)
  | .column :: rest => skip .nothing (aboveSpaces aligned rest)
  | .indent :: rest => skip .indent (aboveSpaces aligned rest)
  | .unindent :: rest =>
    if aligned || rest.head? == some .unindent then skip .unindent (aboveSpaces aligned rest)
    else some (0, .unindent :: rest, false)
  | .newline :: rest => some (0, .nothing :: rest, true)
  | .sectionBreak :: rest => some (0, .nothing :: rest, true)
  | .nothing :: rest => some (0, .nothing :: rest, false)
where
  skip (space : Space) : Option (Nat × List Space × Bool) → Option (Nat × List Space × Bool)
    | none => none
    | some (count, spaces, dropped) => some (count + 1, space :: spaces, dropped)

def faded (pending : List Space) : List Space :=
  pending.map fun space => if space == .blank || space == .column then .nothing else space

def putBefore (writer : Writer) (place next : Place) (previous : Option Comment)
    (nextToken : TokenKind) : Writer :=
  if writer.page.isEmpty then writer
  else if place.line = writer.lastPlace.line &&
      !(previous.map Comment.isLine).getD false then
    let (writer, hasColumn) : Writer × Bool :=
      if previous.isNone then
        let (count, pending, hasColumn) := besideSpaces writer.pending
        ({ writer with pending }.putPending count, hasColumn)
      else (writer, false)
    if hasColumn then writer
    else writer.putMark (if place.line = next.line then .blank else .tab) 1
  else
    let aligned := nextToken != .mark "\x7d" && place.column = next.column
    let (count, pending, dropped) :=
      (aboveSpaces aligned writer.pending).getD (0, faded writer.pending, false)
    let writer := { writer with pending }.putPending count
    let lines := place.line - writer.lastPlace.line
    let lines := if writer.indent = 0 && dropped && previous.isNone then lines + 1 else lines
    let lines :=
      if lines = 0 && (previous.map Comment.isLine).getD false then 1 else lines
    if lines = 0 then writer else writer.putMark .sectionBreak (min lines 2)

/-- Writes a comment. One between marks is written line by line, without the indentation that all
its lines have in common. -/
def putComment (writer : Writer) (comment : Comment) : Writer :=
  if comment.isLine then
    let writer := match constraintForm? comment.text with
      | some isNew =>
        let found : ConstraintPlace := ⟨writer.page.length, isNew⟩
        { writer with constraints := writer.constraints ++ [found] }
      | none => writer
    let text := Text.trimEnd comment.text
    if comment.text.startsWith "//line " && comment.place.column = 1 then
      { { writer with indent := 0 }.putText comment.place text with indent := writer.indent }
    else writer.putText comment.place text
  else
    let lines := Text.splitOn '\n' comment.text
    let lines :=
      if comment.place.column = 1 && 0 < writer.indent then
        match lines with
        | [] => []
        | first :: rest => first :: rest.map fun line => "   " ++ line
      else lines
    match withoutMargin lines with
    | [] => writer
    | first :: rest =>
      rest.foldl (fun writer line =>
        let writer := writer.putMark .sectionBreak 1
        if line.isEmpty then writer else writer.putText writer.place (Text.trimEnd line))
        (writer.putText comment.place (Text.trimEnd first))

def putAfter (writer : Writer) (needsBreak : Bool) : Writer × Bool × Bool :=
  let rec sift (needed : Bool) : List Space → List Space × Bool × Bool
    | [] => ([], needed, false)
    | .indent :: rest => keep .indent (sift needed rest)
    | .unindent :: rest => keep .unindent (sift needed rest)
    | .newline :: rest =>
      if needed then keep .newline (sift false rest) else keep .nothing (sift needed rest)
    | .sectionBreak :: rest =>
      if needed then keep .sectionBreak (sift false rest)
      else
        let (spaces, needed, _) := sift needed rest
        (.nothing :: spaces, needed, true)
    | _ :: rest => keep .nothing (sift needed rest)
  let (spaces, stillNeeded, dropped) := sift needsBreak writer.pending
  let writer := { writer.putSpaces spaces with pending := [] }
  if stillNeeded then (writer.putMark .newline 1, true, dropped)
  else (writer, needsBreak, dropped)
where
  keep (space : Space) : List Space × Bool × Bool → List Space × Bool × Bool
    | (spaces, rest) => (space :: spaces, rest)

def isDocumentation (writer : Writer) (group : CommentGroup) (next : Place) : Bool :=
  let last := group.last
  let size := Text.byteLength last.text
  writer.lastToken != some (.word "import") && group.first.place.column = 1 &&
    last.place.offset + size + 1 = next.offset &&
    (last.lastLine = next.line || (last.lastLine + 1 = next.line && next.column = 1))

def putComments (writer : Writer) (next : Place) (nextToken : TokenKind)
    (previous : Option Comment) (comments : List Comment) : Writer × Option Comment :=
  comments.foldl (fun (writer, previous) comment =>
    ((writer.putBefore comment.place next previous nextToken).putComment comment, some comment))
    (writer, previous)

def placeAfter (comment : Comment) : Place := comment.place.after comment.text

/-- Writes the comments in front of the next token. The flag of the outcome says that a text above
a declaration vanished altogether. -/
def putGroups (writer : Writer) (next : Place) (nextToken : TokenKind)
    (previous : Option Comment) : Nat → Writer × Option Comment × Bool
  | 0 => (writer, previous, false)
  | fuel + 1 =>
    if writer.hasCommentBefore next then
      match writer.comments with
      | [] => (writer, previous, false)
      | group :: rest =>
        if writer.isDocumentation group next then
          match formatDocumentation group with
          | [] =>
            let writer := writer.putBefore group.first.place next previous nextToken
            ({ writer with place := next, lastPlace := next, comments := rest }, none, true)
          | comments =>
            let (writer, _) := writer.putComments next nextToken previous comments
            let after := placeAfter group.last
            let writer := { writer with place := after, lastPlace := after, comments := rest }
            writer.putGroups next nextToken (some group.last) fuel
        else
          let (writer, previous) := writer.putComments next nextToken previous group.comments
          let writer := { writer with comments := rest }
          writer.putGroups next nextToken previous fuel
    else (writer, previous, false)

def putCommentsBefore (writer : Writer) (next : Place) (nextToken : TokenKind) :
    Writer × Bool × Bool :=
  let (writer, last, vanished) :=
    writer.putGroups next nextToken none writer.comments.length
  if vanished then writer.putAfter false
  else
    match last with
    | none => writer.putAfter false
    | some last =>
      let isClosed := fun (closing opening : String) =>
        nextToken == .mark closing && writer.opened != some (.mark opening)
      let wantsGap := !writer.tight && !last.isLine && last.place.line = next.line &&
        nextToken != .mark "," && !isClosed ")" "(" && !isClosed "]" "["
      let wantsLine := wantsGap && writer.pending.any Space.endsLine && !writer.unbroken &&
        writer.level = 0
      let writer := if wantsGap && !wantsLine then writer.putMark .blank 1 else writer
      writer.putAfter (wantsLine || last.isLine || nextToken == .ending ||
        (nextToken == .mark "\x7d" && !writer.unbroken))

def flush (writer : Writer) (next : Place) (nextToken : TokenKind) : Writer × Bool × Bool :=
  if writer.hasCommentBefore next then writer.putCommentsBefore next nextToken
  else (writer.putAllPending, false, false)

def noteOpening (writer : Writer) : Writer :=
  match writer.lastToken with
  | none => writer
  | some kind =>
    { writer with
      opened := if kind == .mark "(" || kind == .mark "[" then some kind else none }

def ask (writer : Writer) (space : Space) : Writer :=
  let writer := writer.noteOpening
  if space == .nothing then writer
  else
    { writer with
      pending := writer.pending ++ [space]
      ends := writer.ends && !space.endsLine
      lastToken := none }

def wouldJoin (kind : TokenKind) (text : Text) : Bool :=
  let next := (text.head?.map Cell.shown).getD ' '
  match kind with
  | .integer => next = '.'
  | .mark "+" => next = '+'
  | .mark "-" => next = '-'
  | .mark "/" => next = '*'
  | .mark "<" => next = '-' || next = '<'
  | .mark "&" => next = '&' || next = '^'
  | _ => false

def impliesEnd : TokenKind → Bool
  | .word word => ["break", "continue", "fallthrough", "return"].contains word
  | .mark mark => ["++", "--", ")", "]", "\x7d"].contains mark
  | .semicolon _ => false
  | .ending => false
  | _ => true

def isFixed : TokenKind → Bool
  | .word _ => true
  | .mark _ => true
  | .semicolon _ => true
  | _ => false

/-- Writes a token. Empty lines between a comment and the token stay, unless the end of a line would
imply a semicolon. -/
def put (writer : Writer) (kind : TokenKind) (text : Text) : Writer :=
  let writer := writer.noteOpening
  let joins := isFixed kind && (writer.lastToken.map fun last => wouldJoin last text).getD false
  let writer := if joins then { writer with pending := [.blank] } else writer
  let next := writer.place
  let (writer, wroteLine, dropped) := { writer with lastToken := some kind }.flush next kind
  let lines := min (next.line - writer.place.line) 2
  let lines := if wroteLine && lines = 2 then 1 else lines
  let isApart := !writer.ends && 0 < lines
  let writer :=
    if isApart then writer.putMark (if dropped then .sectionBreak else .newline) lines
    else writer
  let writer :=
    if writer.asked then
      { writer with asked := false, found := writer.line :: writer.found.tail }
    else writer
  { writer.putText next text with ends := impliesEnd kind && !isApart }

def finish (writer : Writer) : Writer :=
  let far : Place := ⟨Nat.pow 2 62, Nat.pow 2 62, 0⟩
  ({ writer with ends := false }.flush far .ending).1

end Writer

end Avro.Source
