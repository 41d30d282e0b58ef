import Avro.Text.Character

/-!
# Pages

A page is written as texts and marks between them. Tabs and columns divide a line into slots; a slot
is as wide as the widest one above or below it, with a blank behind. A column runs over consecutive
lines that have a slot after it, and ends at a section break.
-/

set_option autoImplicit false

namespace Avro.Text

/-!
## Columns

Tabs and line ends of either kind divide a text into cells and rows. A column runs over consecutive
rows that have a cell after it; the last cell of a row widens no column, and a form feed ends all.
-/

def padTo (width : Nat) (text : Text) : Text :=
  text ++ List.replicate (width - text.length) (.scalar ' ')

def widest (texts : List Text) : Nat := (texts.map List.length).foldl max 0

def besideColumn (padding : Nat) (column lines : List Text) : List Text :=
  let width := widest column + padding
  List.zipWith (fun cell line => padTo width cell ++ line) column lines

def alignColumns (padding : Nat) : Nat → List (List Text) → List Text
  | 0, rows => rows.map List.flatten
  | columns + 1, rows =>
    (rows.splitBy fun above below => (2 ≤ above.length) == (2 ≤ below.length)).flatMap fun run =>
      if run.all fun row => 2 ≤ row.length then
        besideColumn padding (run.map fun row => row.headD [])
          (alignColumns padding columns (run.map List.tail))
      else run.map List.flatten

def align (padding : Nat) (rows : List (List Text)) : List Text :=
  alignColumns padding ((rows.map List.length).foldl max 0) rows

def splitWhere (isDivider : Cell → Bool) (text : Text) : List Text :=
  text.foldr (fun cell pieces =>
    if isDivider cell then [] :: pieces
    else
      match pieces with
      | [] => [[cell]]
      | piece :: pieces => (cell :: piece) :: pieces) [[]]

def tabbedRows (text : Text) : List (List Text) :=
  (splitOn '\n' text).map (splitWhere fun cell => cell.isChar '\t' || cell.isChar '\x0b')

def tabulate (padding : Nat) (text : Text) : Text :=
  join "\n" ((splitOn '\x0c' text).flatMap fun part => align padding (tabbedRows part))

end Avro.Text

namespace Avro.Source

inductive Mark where
  | text (text : Text)
  | blank
  | tab
  | column
  | newline
  | sectionBreak
deriving DecidableEq, Repr, Inhabited

namespace Mark

def endsLine : Mark → Bool
  | .newline => true
  | .sectionBreak => true
  | _ => false

def isGap : Mark → Bool
  | .text _ => false
  | _ => true

def shown : Mark → Text
  | .text letters => letters
  | .blank => " "
  | .tab => "\t"
  | .column => "\t"
  | _ => []

end Mark

structure Slot where
  content : List Mark
  isTab : Bool
deriving Repr, Inhabited

def Slot.width (slot : Slot) : Nat := total ((slot.content.map Mark.shown).map List.length)

structure Line where
  slots : List Slot
  rest : List Mark
  endsSection : Bool
deriving Repr, Inhabited

def linesOf : List Mark → List Line
  | [] => [⟨[], [], false⟩]
  | .newline :: marks => ⟨[], [], false⟩ :: linesOf marks
  | .sectionBreak :: marks => ⟨[], [], true⟩ :: linesOf marks
  | mark :: marks =>
    match linesOf marks with
    | [] => []
    | line :: lines =>
      match mark with
      | .tab => { line with slots := ⟨[], true⟩ :: line.slots } :: lines
      | .column => { line with slots := ⟨[], false⟩ :: line.slots } :: lines
      | mark =>
        match line.slots with
        | [] => { line with rest := mark :: line.rest } :: lines
        | slot :: slots =>
          { line with slots := { slot with content := mark :: slot.content } :: slots } :: lines

def columnWidth (slots : List Slot) : Nat :=
  if slots.all fun slot => slot.width = 0 && !slot.isTab then 0
  else ((slots.map Slot.width).foldl max 0) + 1

def slotWidths : Nat → List (List Slot) → List (List Nat)
  | 0, lines => lines.map fun _ => []
  | columns + 1, lines =>
    (lines.splitBy fun above below => above.isEmpty == below.isEmpty).flatMap fun run =>
      let heads := run.filterMap List.head?
      if heads.isEmpty then run.map fun _ => []
      else (slotWidths columns (run.map List.tail)).map fun widths => columnWidth heads :: widths

def sections : List Line → List (List Line)
  | [] => []
  | line :: lines =>
    match line.endsSection, sections lines with
    | true, parts => [line] :: parts
    | false, [] => [[line]]
    | false, part :: parts => (line :: part) :: parts

def tabWidth : Nat := 8

def fill : Bool → List Slot → List Nat → List Mark
  | leading, slot :: slots, width :: widths =>
    if slot.content.isEmpty then
      let gap :=
        if leading then List.replicate ((width + tabWidth - 1) / tabWidth) Mark.tab
        else List.replicate width Mark.blank
      gap ++ fill leading slots widths
    else
      slot.content ++ List.replicate (width - slot.width) Mark.blank ++ fill false slots widths
  | _, slots, _ => slots.flatMap Slot.content

def lineText (marks : List Mark) : Text :=
  ((marks.reverse.dropWhile Mark.isGap).reverse.map Mark.shown).flatten

def sectionTexts (lines : List Line) : List Text :=
  let slots := lines.map Line.slots
  let widths := slotWidths ((slots.map List.length).foldl max 0) slots
  List.zipWith (fun line widths => lineText (fill true line.slots widths ++ line.rest)) lines widths

def pageText (marks : List Mark) : Text :=
  Text.join "\n" ((sections (linesOf marks)).flatMap sectionTexts)

def lineSize? (marks : List Mark) : Option Nat :=
  if marks.any fun mark => mark.endsLine || mark.shown.hasChar '\n' then none
  else some (lineText marks).byteLength

/-!
## Build constraints

A comment may say for which builds a file counts, in an old and in a new form.
-/

inductive Condition where
  | tag (name : Text)
  | not (inner : Condition)
  | and (left right : Condition)
  | or (left right : Condition)
deriving DecidableEq, Repr, Inhabited

def afterWord? (word line : Text) : Option Text :=
  if line.startsWith word then
    let rest := line.drop word.length
    if rest.isEmpty || (rest.head?.map Cell.isBlank).getD false then some (Text.trim rest)
    else none
  else none

def newForm? (comment : Text) : Option Text :=
  (afterWord? "//go:build" comment).bind fun text => if text.isEmpty then none else some text

def oldForm? (comment : Text) : Option Text :=
  if comment.startsWith "//" then afterWord? "+build" (Text.trim (comment.drop 2)) else none

def isTagCell (cell : Cell) : Bool :=
  cell.isChar '_' || cell.isChar '.' || Text.isLetter cell.shown || Text.isDigit cell.shown

namespace Condition

def ofTag (name : Text) : Condition :=
  if !name.isEmpty && name.all isTagCell then .tag name else .tag "ignore"

def ofLiteral (literal : Text) : Condition :=
  match literal with
  | .scalar '!' :: .scalar '!' :: _ => .tag "ignore"
  | .scalar '!' :: [] => .tag "ignore"
  | .scalar '!' :: name => .not (ofTag name)
  | name => ofTag name

def all? : List Condition → Option Condition
  | [] => none
  | first :: rest => some (rest.foldl .and first)

def any? : List Condition → Option Condition
  | [] => none
  | first :: rest => some (rest.foldl .or first)

def ofOldForm (text : Text) : Condition :=
  let clauses := (Text.splitWhere Cell.isBlank text).filter fun clause => !clause.isEmpty
  let clauses := clauses.filterMap fun clause => all? ((Text.splitOn ',' clause).map ofLiteral)
  (any? clauses).getD (.tag "ignore")

def pieces? : Nat → Text → Option (List Text)
  | _, [] => some []
  | 0, _ => none
  | fuel + 1, cell :: rest =>
    let text : Text := cell :: rest
    if cell.isChar ' ' || cell.isChar '\t' then pieces? fuel rest
    else if cell.isChar '(' || cell.isChar ')' || cell.isChar '!' then
      (pieces? fuel rest).map ([cell] :: ·)
    else if text.startsWith "&&" || text.startsWith "||" then
      (pieces? fuel (text.drop 2)).map (text.take 2 :: ·)
    else
      let tag := text.takeWhile isTagCell
      if tag.isEmpty then none else (pieces? fuel (text.drop tag.length)).map (tag :: ·)

mutual

def readAny : Nat → List Text → Option (Condition × List Text)
  | 0, _ => none
  | fuel + 1, pieces => do
    let (first, rest) ← readAll fuel pieces
    readMoreAny fuel first rest

def readMoreAny : Nat → Condition → List Text → Option (Condition × List Text)
  | 0, _, _ => none
  | fuel + 1, left, pieces =>
    match pieces with
    | piece :: rest =>
      if piece = "||" then do
        let (right, rest) ← readAll fuel rest
        readMoreAny fuel (.or left right) rest
      else some (left, pieces)
    | [] => some (left, [])

def readAll : Nat → List Text → Option (Condition × List Text)
  | 0, _ => none
  | fuel + 1, pieces => do
    let (first, rest) ← readNot fuel pieces
    readMoreAll fuel first rest

def readMoreAll : Nat → Condition → List Text → Option (Condition × List Text)
  | 0, _, _ => none
  | fuel + 1, left, pieces =>
    match pieces with
    | piece :: rest =>
      if piece = "&&" then do
        let (right, rest) ← readNot fuel rest
        readMoreAll fuel (.and left right) rest
      else some (left, pieces)
    | [] => some (left, [])

def readNot : Nat → List Text → Option (Condition × List Text)
  | 0, _ => none
  | fuel + 1, pieces =>
    match pieces with
    | [] => none
    | piece :: rest =>
      if piece = "!" then
        if rest.head? = some "!" then none
        else (readNot fuel rest).map fun (inner, rest) => (.not inner, rest)
      else if piece = "(" then do
        let (inner, rest) ← readAny fuel rest
        match rest with
        | closing :: rest => if closing = ")" then some (inner, rest) else none
        | [] => none
      else if (piece.head?.map isTagCell).getD false then some (.tag piece, rest)
      else none

end

def ofNewForm? (text : Text) : Option Condition := do
  let pieces ← pieces? (text.length + 1) text
  let (condition, rest) ← readAny (8 * (pieces.length + 1)) pieces
  if rest.isEmpty then some condition else none

def ofComment? (comment : Text) : Option Condition :=
  match newForm? comment with
  | some text => ofNewForm? text
  | none => (oldForm? comment).map ofOldForm

def text : Condition → Text
  | .tag name => name
  | .not inner => "!" ++ guardOr inner (guardAnd inner inner.text)
  | .and left right => guardOr left left.text ++ " && " ++ guardOr right right.text
  | .or left right => guardAnd left left.text ++ " || " ++ guardAnd right right.text
where
  guardOr : Condition → Text → Text
    | .or _ _, text => "(" ++ text ++ ")"
    | _, text => text
  guardAnd : Condition → Text → Text
    | .and _ _, text => "(" ++ text ++ ")"
    | _, text => text

def negated (isNegated : Bool) : Condition → Condition
  | .tag name => if isNegated then .not (.tag name) else .tag name
  | .not inner => inner.negated (!isNegated)
  | .and left right =>
    if isNegated then .or (left.negated true) (right.negated true)
    else .and (left.negated false) (right.negated false)
  | .or left right =>
    if isNegated then .and (left.negated true) (right.negated true)
    else .or (left.negated false) (right.negated false)

def conjuncts : Condition → List Condition
  | .and left right => left.conjuncts ++ right.conjuncts
  | condition => [condition]

def choices : Condition → List Condition
  | .or left right => left.choices ++ right.choices
  | condition => [condition]

def isLiteral : Condition → Bool
  | .tag _ => true
  | .not _ => true
  | _ => false

def oldLines (condition : Condition) : List Text :=
  let split := (condition.negated false).conjuncts.map fun part => part.choices.map conjuncts
  if split.all fun choices => choices.all fun literals => literals.all isLiteral then
    let split :=
      if split.all fun choices => choices.length = 1 then [[split.flatMap List.flatten]] else split
    split.map fun choices =>
      choices.foldl (fun line literals => line ++ " " ++ Text.join "," (literals.map text))
        "// +build"
  else ["// +build error: expression too complex for // +build lines"]

end Condition

structure ConstraintPlace where
  index : Nat
  isNew : Bool
deriving Repr, Inhabited

def constraintForm? (comment : Text) : Option Bool :=
  if (newForm? comment).isSome then some true
  else if (oldForm? comment).isSome then some false
  else none

def lineAt (marks : List Mark) : List Mark :=
  let inside := marks.takeWhile fun mark => !mark.endsLine
  marks.take (inside.length + 1)

def constraintsGoTo : Nat → Nat → Nat → List Mark → Nat
  | 0, _, found, _ => found
  | fuel + 1, index, found, marks =>
    let line := marks.takeWhile fun mark => !mark.endsLine
    let isEmpty := line.all fun mark => mark == .blank || mark == .tab
    let isComment := match line.dropWhile fun mark => mark == .blank || mark == .tab with
      | .text text :: _ => text.startsWith "//"
      | _ => false
    if (isEmpty || isComment) && line.length < marks.length then
      let next := index + line.length + 1
      constraintsGoTo fuel next (if isEmpty then next else found) (marks.drop (line.length + 1))
    else found

def appendLines (above below : List Mark) : List Mark :=
  let endsEmpty := match above.reverse with
    | last :: before :: _ => last.endsLine && before.endsLine
    | _ => above.isEmpty
  match below with
  | first :: rest => if first.endsLine && endsEmpty then above ++ rest else above ++ below
  | [] => above

def withoutLines (marks : List Mark) (start : Nat) (written : List Mark) : List Nat → List Mark
  | [] => appendLines written (marks.drop start)
  | index :: rest =>
    if index < start then withoutLines marks start written rest
    else
      withoutLines marks (index + (lineAt (marks.drop index)).length)
        (appendLines written ((marks.drop start).take (index - start))) rest

def commentAt (marks : List Mark) (index : Nat) : Text :=
  match marks[index]? with
  | some (.text text) => text
  | _ => []

def commonCondition? (marks : List Mark) (indices : List Nat) : Option Condition :=
  (indices.mapM fun index => Condition.ofComment? (commentAt marks index)).bind Condition.all?

/-- Gathers all constraints at the top of a page. If they can be read they are written anew, in the
new form, and in the old one if that was used. -/
def gatherConstraints (marks : List Mark) (places : List ConstraintPlace) : List Mark :=
  if places.isEmpty then marks
  else
    let new := (places.filter ConstraintPlace.isNew).map ConstraintPlace.index
    let old := (places.filter fun place => !place.isNew).map ConstraintPlace.index
    let top := constraintsGoTo marks.length 0 0 marks
    let top := match new, old with
      | first :: _, _ => if first < top then first else top
      | [], first :: _ => if first < top then first else top
      | [], [] => top
    let condition? := match new with
      | [] => commonCondition? marks old
      | [index] => Condition.ofComment? (commentAt marks index)
      | _ => none
    let block : List Mark := match condition? with
      | none => (new ++ old).flatMap fun index => lineAt (marks.drop index)
      | some condition =>
        let lines : List Text :=
          ("//go:build " ++ condition.text) :: (if old.isEmpty then [] else condition.oldLines)
        lines.flatMap fun line => [.text line, .newline]
    let after := withoutLines marks top [] (places.map ConstraintPlace.index)
    let after := match after.reverse with
      | last :: before :: _ => if last.endsLine && before.endsLine then after.dropLast else after
      | _ => after
    marks.take top ++ block ++ [.newline] ++ after

end Avro.Source
