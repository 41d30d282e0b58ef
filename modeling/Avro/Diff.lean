import Avro.Text.Basic

/-!
# Edit scripts

An edit script is a list of pieces, each kept, deleted or inserted. What is kept or deleted spells
the old sequence, what is kept or inserted the new one.
-/

set_option autoImplicit false

namespace Avro.Diff

inductive Change where
  | delete
  | insert
  | keep
deriving DecidableEq, Repr

structure Piece (α : Type) where
  change : Change
  items : List α
deriving DecidableEq, Repr

abbrev Script (α : Type) := List (Piece α)

namespace Script

variable {α : Type}

def old (script : Script α) : List α :=
  script.flatMap fun piece => if piece.change = .insert then [] else piece.items

def new (script : Script α) : List α :=
  script.flatMap fun piece => if piece.change = .delete then [] else piece.items

end Script

variable {α : Type} [DecidableEq α]

def commonStart : List α → List α → Nat
  | a :: as, b :: bs => if a = b then commonStart as bs + 1 else 0
  | _, _ => 0

def commonEnd (left right : List α) : Nat := commonStart left.reverse right.reverse

def indexFrom? (pattern : List α) (start : Nat) : List α → Option Nat
  | [] => if pattern.isEmpty then some start else none
  | item :: rest =>
    if pattern.isPrefixOf (item :: rest) then some start
    else indexFrom? pattern (start + 1) rest

def occurrences (pattern sequence : List α) : List Nat :=
  (List.range (sequence.length + 1)).filter fun index => pattern.isPrefixOf (sequence.drop index)

/-!
## The middle of a shortest edit path

Two searches walk the grid of both sequences, one from each corner, one edit further at a time.
Where their paths meet, the problem can be cut in two. A diagonal is numbered by how far its
column is ahead of its row.
-/

/-- How far each diagonal has been followed, and which diagonals at the two ends have run off the
grid. -/
structure Frontier where
  reach : Array Int
  startTrim : Int
  endTrim : Int

structure Grid (α : Type) where
  left : Array α
  right : Array α
  offset : Int

namespace Grid

def width (grid : Grid α) : Int := grid.left.size

def height (grid : Grid α) : Int := grid.right.size

def run (grid : Grid α) (column row : Nat) : Nat → Nat
  | 0 => 0
  | steps + 1 =>
    match grid.left[column]?, grid.right[row]? with
    | some a, some b => if a = b then grid.run (column + 1) (row + 1) steps + 1 else 0
    | _, _ => 0

end Grid

def Frontier.at? (frontier : Frontier) (index : Int) : Int :=
  if index < 0 then -1 else frontier.reach.getD index.toNat (-1)

def Frontier.step (frontier : Frontier) (offset depth diagonal : Int) : Int :=
  let before := frontier.at? (offset + diagonal - 1)
  let after := frontier.at? (offset + diagonal + 1)
  if diagonal = -depth || (diagonal ≠ depth && before < after) then after else before + 1

def follow (grid : Grid α) (frontier : Frontier) (depth diagonal : Int) : Int :=
  let column := frontier.step grid.offset depth diagonal
  let row := column - diagonal
  if column < 0 || row < 0 then column
  else column + grid.run column.toNat row.toNat (grid.left.size + 1)

/-- Walks the diagonals of one search from `diagonal` on in steps of two, one edit deeper. Stops at
the first point that `meets` accepts. The last argument bounds the number of diagonals. -/
def walk (grid : Grid α) (depth : Int) (meets : Int → Int → Option (Nat × Nat)) :
    Frontier → Int → Nat → Sum (Nat × Nat) Frontier
  | frontier, _, 0 => .inr frontier
  | frontier, diagonal, steps + 1 =>
    if depth - frontier.endTrim < diagonal then .inr frontier
    else
      let column := follow grid frontier depth diagonal
      let row := column - diagonal
      let reach := frontier.reach.setIfInBounds (grid.offset + diagonal).toNat column
      if grid.width < column then
        walk grid depth meets ⟨reach, frontier.startTrim, frontier.endTrim + 2⟩ (diagonal + 2) steps
      else if grid.height < row then
        walk grid depth meets ⟨reach, frontier.startTrim + 2, frontier.endTrim⟩ (diagonal + 2) steps
      else
        match meets diagonal column with
        | some point => .inl point
        | none => walk grid depth meets { frontier with reach := reach } (diagonal + 2) steps

def round (grid back : Grid α) (depth : Int) (front rear : Frontier) :
    Sum (Nat × Nat) (Frontier × Frontier) :=
  let delta := grid.width - grid.height
  let odd := delta % 2 ≠ 0
  let size : Int := front.reach.size
  let meetsRear (diagonal column : Int) : Option (Nat × Nat) :=
    let index := grid.offset + delta - diagonal
    if odd && 0 ≤ index && index < size && rear.at? index ≠ -1 &&
        grid.width - rear.at? index ≤ column then
      some (column.toNat, (column - diagonal).toNat)
    else none
  let steps := depth.toNat + 1
  match walk grid depth meetsRear front (-depth + front.startTrim) steps with
  | .inl point => .inl point
  | .inr front =>
    let meetsFront (diagonal column : Int) : Option (Nat × Nat) :=
      let index := grid.offset + delta - diagonal
      if !odd && 0 ≤ index && index < size && front.at? index ≠ -1 &&
          grid.width - column ≤ front.at? index then
        some ((front.at? index).toNat, (grid.offset + front.at? index - index).toNat)
      else none
    match walk back depth meetsFront rear (-depth + rear.startTrim) steps with
    | .inl point => .inl point
    | .inr rear => .inr (front, rear)

def rounds (grid back : Grid α) : Int → Frontier → Frontier → Nat → Option (Nat × Nat)
  | _, _, _, 0 => none
  | depth, front, rear, count + 1 =>
    match round grid back depth front rear with
    | .inl point => some point
    | .inr (front, rear) => rounds grid back (depth + 1) front rear count

def middle? (left right : List α) : Option (Nat × Nat) :=
  let most := (left.length + right.length + 1) / 2
  let blank : Array Int := (Array.replicate (2 * most) (-1)).setIfInBounds (most + 1) 0
  let frontier : Frontier := ⟨blank, 0, 0⟩
  let grid : Grid α := ⟨left.toArray, right.toArray, most⟩
  let back : Grid α := ⟨left.reverse.toArray, right.reverse.toArray, most⟩
  rounds grid back 0 frontier frontier most

/-!
## Tidying edit scripts

Neighbouring edits are merged into one deletion and one insertion, what these share at their ends
moves into the kept pieces around them, and an edit between two kept pieces slides over one of them
where it can.
-/

structure Pending (α : Type) where
  deleted : List (List α)
  inserted : List (List α)

def Pending.none {α : Type} : Pending α := ⟨[], []⟩

def keepMore (done : Script α) (items : List α) : Script α :=
  match done with
  | ⟨.keep, before⟩ :: rest => ⟨.keep, before ++ items⟩ :: rest
  | _ => ⟨.keep, items⟩ :: done

def settle (done : Script α) (pending : Pending α) (kept : List α) : Script α :=
  match pending.deleted, pending.inserted with
  | [], [] => keepMore done kept
  | [items], [] => ⟨.keep, kept⟩ :: ⟨.delete, items⟩ :: done
  | [], [items] => ⟨.keep, kept⟩ :: ⟨.insert, items⟩ :: done
  | deleted, [] => ⟨.keep, kept⟩ :: ⟨.delete, deleted.flatten⟩ :: done
  | [], inserted => ⟨.keep, kept⟩ :: ⟨.insert, inserted.flatten⟩ :: done
  | deleted, inserted =>
    let deleted := deleted.flatten
    let inserted := inserted.flatten
    let front := commonStart inserted deleted
    let done := if front = 0 then done else keepMore done (inserted.take front)
    let deleted := deleted.drop front
    let inserted := inserted.drop front
    let back := commonEnd inserted deleted
    ⟨.keep, inserted.drop (inserted.length - back) ++ kept⟩ ::
      ⟨.insert, inserted.take (inserted.length - back)⟩ ::
      ⟨.delete, deleted.take (deleted.length - back)⟩ :: done

def mergeFrom (done : Script α) (pending : Pending α) : Script α → Script α
  | [] =>
    match settle done pending [] with
    | ⟨_, []⟩ :: rest => rest.reverse
    | script => script.reverse
  | ⟨.keep, items⟩ :: rest => mergeFrom (settle done pending items) .none rest
  | ⟨.delete, items⟩ :: rest =>
    mergeFrom done { pending with deleted := pending.deleted ++ [items] } rest
  | ⟨.insert, items⟩ :: rest =>
    mergeFrom done { pending with inserted := pending.inserted ++ [items] } rest

def slideFrom (done : Script α) (moved : Bool) : Script α → Script α × Bool
  | current :: next :: more =>
    match done with
    | ⟨.keep, before⟩ :: earlier =>
      if next.change = .keep then
        if before.isSuffixOf current.items then
          let items := before ++ current.items.take (current.items.length - before.length)
          slideFrom (⟨.keep, before ++ next.items⟩ :: ⟨current.change, items⟩ :: earlier) true more
        else if next.items.isPrefixOf current.items then
          let items := current.items.drop next.items.length ++ next.items
          slideFrom (⟨current.change, items⟩ :: ⟨.keep, before ++ next.items⟩ :: earlier) true more
        else slideFrom (current :: done) moved (next :: more)
      else slideFrom (current :: done) moved (next :: more)
    | _ => slideFrom (current :: done) moved (next :: more)
  | rest => (done.reverse ++ rest, moved)

/-- Merges and slides until nothing moves. The first argument bounds the number of rounds. -/
def cleanupRounds : Nat → Script α → Script α
  | 0, script => script
  | rounds + 1, script =>
    match mergeFrom [] .none script with
    | [] => []
    | first :: rest =>
      let (script, moved) := slideFrom [first] false rest
      if moved then cleanupRounds rounds script else script

/-- The tidied script. A slide uses up a kept piece, so there are no more rounds than pieces and
items. -/
def cleanup (script : Script α) : Script α :=
  cleanupRounds (script.length + script.old.length + script.new.length + 1) script

/-!
## Computing edit scripts

What both sequences share at their ends is kept. Of the rest, a shared half or a point in the middle
of a shortest path cuts the problem in two.
-/

def replaceAll (left right : List α) : Script α := [⟨.delete, left⟩, ⟨.insert, right⟩]

structure Halves (α : Type) where
  leftBefore : List α
  leftAfter : List α
  rightBefore : List α
  rightAfter : List α
  shared : List α

def Halves.swap {α : Type} (halves : Halves α) : Halves α :=
  ⟨halves.rightBefore, halves.rightAfter, halves.leftBefore, halves.leftAfter, halves.shared⟩

/-- The longest shared run of at least half the longer sequence that grows from a quarter of it at a
position; the first one if there are several. -/
def sharedFrom? (long short : List α) (position : Nat) : Option (Halves α) :=
  let seed := (long.drop position).take (long.length / 4)
  let spread (index : Nat) : Nat × Nat :=
    (commonEnd (long.take position) (short.take index),
      commonStart (long.drop position) (short.drop index))
  let longer (best : Nat × Nat × Nat) (index : Nat) : Nat × Nat × Nat :=
    let (back, ahead) := spread index
    if best.2.1 + best.2.2 < back + ahead then (index, back, ahead) else best
  let (index, back, ahead) := (occurrences seed short).foldl longer (0, 0, 0)
  if 2 * (back + ahead) < long.length then none
  else
    some {
      leftBefore := long.take (position - back)
      leftAfter := long.drop (position + ahead)
      rightBefore := short.take (index - back)
      rightAfter := short.drop (index + ahead)
      shared := (short.drop (index - back)).take (back + ahead) }

def sharedHalf? (long short : List α) : Option (Halves α) :=
  if long.length < 4 || 2 * short.length < long.length then none
  else
    match sharedFrom? long short ((long.length + 3) / 4),
        sharedFrom? long short ((long.length + 1) / 2) with
    | none, none => none
    | some first, none => some first
    | none, some second => some second
    | some first, some second =>
      if second.shared.length < first.shared.length then some first else some second

/-- The script for two sequences that share nothing at their ends, given how to go on with parts. -/
def computeWith (go : List α → List α → Script α) (left right : List α) : Script α :=
  if left.isEmpty then [⟨.insert, right⟩]
  else if right.isEmpty then [⟨.delete, left⟩]
  else
    let leftLonger := right.length < left.length
    let (long, short) := if leftLonger then (left, right) else (right, left)
    match indexFrom? short 0 long with
    | some index =>
      let change : Change := if leftLonger then .delete else .insert
      [⟨change, long.take index⟩, ⟨.keep, short⟩, ⟨change, long.drop (index + short.length)⟩]
    | none =>
      if short.length = 1 then replaceAll left right
      else
        match sharedHalf? long short with
        | some halves =>
          let halves := if leftLonger then halves else halves.swap
          go halves.leftBefore halves.rightBefore ++ [⟨.keep, halves.shared⟩] ++
            go halves.leftAfter halves.rightAfter
        | none =>
          match middle? left right with
          | some (column, row) =>
            go (left.take column) (right.take row) ++ go (left.drop column) (right.drop row)
          | none => replaceAll left right

/-- The script for two sequences. The first argument bounds how often the problem is cut; where it
runs out, everything is replaced. -/
def computeDeep : Nat → List α → List α → Script α
  | 0, left, right => replaceAll left right
  | depth + 1, left, right =>
    if left = right then (if left.isEmpty then [] else [⟨.keep, left⟩])
    else
      let front := commonStart left right
      let shared := left.take front
      let left := left.drop front
      let right := right.drop front
      let back := commonEnd left right
      let ending := left.drop (left.length - back)
      let left := left.take (left.length - back)
      let right := right.take (right.length - back)
      let script := computeWith (computeDeep depth) left right
      let script := if shared.isEmpty then script else ⟨.keep, shared⟩ :: script
      let script := if ending.isEmpty then script else script ++ [⟨.keep, ending⟩]
      cleanup script

def compute (left right : List α) : Script α :=
  computeDeep (left.length + right.length + 1) left right

/-!
## Line diffs

A diff of two texts line by line. Each line of the result starts with a blank, a minus or a plus.
-/

def lines : Text → List Text
  | [] => []
  | cell :: rest =>
    if cell.isChar '\n' then [cell] :: lines rest
    else
      match lines rest with
      | [] => [[cell]]
      | line :: more => (cell :: line) :: more

def Change.mark : Change → Cell
  | .keep => .scalar ' '
  | .delete => .scalar '-'
  | .insert => .scalar '+'

def renderPiece (piece : Piece Text) : Text :=
  let text := Text.dropEnding piece.items.flatten "\n"
  (Text.splitOn '\n' text).flatMap fun line => piece.change.mark :: line ++ "\n"

def lineDiff (old new : Text) : Text := (compute (lines old) (lines new)).flatMap renderPiece

end Avro.Diff
