/-!
# Text

Documents arrive as bytes that are usually, but not always, UTF-8. A `Text` is the reading of
such bytes as a list of cells, each a Unicode scalar or a byte that belongs to none. Columns
count cells, sizes count bytes, and nothing is lost: `Text.toBytes` gives the bytes back.
-/

set_option autoImplicit false

namespace Avro

/-- One position of a text: a Unicode scalar, or a byte that is part of no scalar. -/
inductive Cell where
  | scalar (char : Char)
  | stray (byte : UInt8)
deriving DecidableEq, Repr, Inhabited

abbrev Text := List Cell

instance : LawfulBEq Text := inferInstance

def total (numbers : List Nat) : Nat := numbers.foldr (· + ·) 0

namespace Cell

def bytes : Cell → List UInt8
  | .scalar char => String.utf8EncodeChar char
  | .stray byte => [byte]

def width (cell : Cell) : Nat := cell.bytes.length

def shown : Cell → Char
  | .scalar char => char
  | .stray _ => '�'

def isChar (cell : Cell) (char : Char) : Bool := cell == .scalar char

end Cell

namespace Text

def ofString (string : String) : Text := string.toList.map Cell.scalar

instance : Coe String Text := ⟨Text.ofString⟩

def toBytes (text : Text) : List UInt8 := text.flatMap Cell.bytes

def byteLength (text : Text) : Nat := total (text.map Cell.width)

def shown (text : Text) : String := String.ofList (text.map Cell.shown)

/-- The text with each stray byte turned into a real replacement character. -/
def sanitize (text : Text) : Text := text.map fun cell => .scalar cell.shown

def ofNat (number : Nat) : Text := (Nat.toDigits 10 number).map Cell.scalar

def ofInt : Int → Text
  | .ofNat number => ofNat number
  | .negSucc number => .scalar '-' :: ofNat (number + 1)

def join (separator : Text) (texts : List Text) : Text :=
  List.intercalate separator texts

def startsWith (text start : Text) : Bool := start.isPrefixOf text

def endsWith (text ending : Text) : Bool := ending.isSuffixOf text

def dropEnding (text ending : Text) : Text :=
  if endsWith text ending then text.take (text.length - ending.length) else text

def splitOn (char : Char) : Text → List Text
  | [] => [[]]
  | cell :: rest =>
    if cell.isChar char then [] :: splitOn char rest
    else
      match splitOn char rest with
      | [] => [[cell]]
      | piece :: pieces => (cell :: piece) :: pieces

def splitLast? (char : Char) : Text → Option (Text × Text)
  | [] => none
  | cell :: rest =>
    match splitLast? char rest with
    | some (before, after) => some (cell :: before, after)
    | none => if cell.isChar char then some ([], rest) else none

def splitFirst? (char : Char) : Text → Option (Text × Text)
  | [] => none
  | cell :: rest =>
    if cell.isChar char then some ([], rest)
    else (splitFirst? char rest).map fun (before, after) => (cell :: before, after)

def splitAtText? (pattern : Text) : Text → Option (Text × Text)
  | [] => if pattern.isEmpty then some ([], []) else none
  | cell :: rest =>
    if pattern.isPrefixOf (cell :: rest) then some ([], (cell :: rest).drop pattern.length)
    else (splitAtText? pattern rest).map fun (before, after) => (cell :: before, after)

def hasChar (text : Text) (char : Char) : Bool := text.any (·.isChar char)

def replaceChar (text : Text) (char : Char) (replacement : Text) : Text :=
  text.flatMap fun cell => if cell.isChar char then replacement else [cell]

def times (count : Nat) (text : Text) : Text := (List.replicate count text).flatten

def before (left right : Text) : Bool := decide (left.toBytes < right.toBytes)

theorem byteLength_eq (text : Text) : text.byteLength = text.toBytes.length := by
  induction text with
  | nil => rfl
  | cons cell rest ih =>
    rw [toBytes, List.flatMap_cons, List.length_append, ← toBytes, ← ih]
    rfl

theorem width_pos (cell : Cell) : 0 < cell.width := by
  cases cell with
  | scalar char =>
    rw [Cell.width, Cell.bytes, String.length_utf8EncodeChar]
    exact Char.utf8Size_pos char
  | stray byte => simp [Cell.width, Cell.bytes]

end Text

end Avro
