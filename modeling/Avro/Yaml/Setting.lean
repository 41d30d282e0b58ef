import Avro.Number.Decimal
import Avro.Yaml.Node

/-!
# Settings

What the scalars and mappings of a settings file stand for.
-/

set_option autoImplicit false

namespace Avro.Yaml

/-!
## Points in time

A point in time is a date, or a date and a time of day. Between the two stands a letter if a time
zone follows, and blanks if none does.
-/

abbrev TimeReader := StateT Text Option

def readShortNumber : TimeReader Nat := fun text =>
  let digits := (text.take 2).takeWhile Number.isDigitCell
  (Number.digits? digits).map fun number => (number, text.drop digits.length)

def readDigits (count : Nat) : TimeReader Nat := fun text =>
  let digits := text.take count
  if digits.length = count then (Number.digits? digits).map fun number => (number, text.drop count)
  else none

def readChar (char : Char) : TimeReader Unit := fun text =>
  match text with
  | cell :: rest => if cell.isChar char then some ((), rest) else none
  | [] => none

def require (condition : Bool) : TimeReader Unit := fun text =>
  if condition then some ((), text) else none

def daysIn (year month : Nat) : Nat :=
  if month = 2 then
    if year % 4 = 0 && (year % 100 != 0 || year % 400 = 0) then 29 else 28
  else if month = 4 || month = 6 || month = 9 || month = 11 then 30
  else 31

def readDate : TimeReader Unit := do
  let year ← readDigits 4
  readChar '-'
  let month ← readShortNumber
  require (1 ≤ month && month ≤ 12)
  readChar '-'
  let day ← readShortNumber
  require (1 ≤ day && day ≤ daysIn year month)

def readFraction : TimeReader Unit := fun text =>
  match text with
  | mark :: digit :: rest =>
    if (mark.isChar '.' || mark.isChar ',') && Number.isDigitCell digit then
      some ((), rest.dropWhile Number.isDigitCell)
    else some ((), text)
  | text => some ((), text)

def readClock : TimeReader Unit := do
  let hour ← readShortNumber
  require (hour < 24)
  readChar ':'
  let minute ← readShortNumber
  require (minute < 60)
  readChar ':'
  let second ← readShortNumber
  require (second < 60)
  readFraction

def readZone : TimeReader Unit :=
  readChar 'Z' <|> do
    readChar '+' <|> readChar '-'
    let hours ← readDigits 2
    require (hours ≤ 24)
    readChar ':'
    let minutes ← readDigits 2
    require (minutes ≤ 60)

def readBlanks : TimeReader Unit := do
  readChar ' '
  modify fun text => text.dropWhile fun cell => cell.isChar ' '

def readTimeOfDay : TimeReader Unit :=
  (do
    readChar 'T' <|> readChar 't'
    readClock
    readZone) <|>
  (do
    readBlanks
    readClock) <|>
  pure ()

def isTimestamp (text : Text) : Bool :=
  match (do readDate; readTimeOfDay : TimeReader Unit).run text with
  | some (_, rest) => rest.isEmpty
  | none => false

/-!
## Values of scalars

A plain scalar may stand for nothing, a truth value or a number; every other scalar is a text. A tag
asks for one of these, and a scalar that does not fit its tag is a fault.
-/

open Number (Double)

inductive Value where
  | null
  | bool (value : Bool)
  | int (value : Int)
  | double (value : Double)
  | text (value : Text)
deriving DecidableEq, Repr

def words : List (Text × Value) :=
  [([], .null), ("~", .null), ("null", .null), ("Null", .null), ("NULL", .null),
    ("true", .bool true), ("True", .bool true), ("TRUE", .bool true),
    ("false", .bool false), ("False", .bool false), ("FALSE", .bool false),
    (".nan", .double .undefined), (".NaN", .double .undefined), (".NAN", .double .undefined),
    (".inf", .double (.infinite false)), (".Inf", .double (.infinite false)),
    (".INF", .double (.infinite false)), ("+.inf", .double (.infinite false)),
    ("+.Inf", .double (.infinite false)), ("+.INF", .double (.infinite false)),
    ("-.inf", .double (.infinite true)), ("-.Inf", .double (.infinite true)),
    ("-.INF", .double (.infinite true))]

def digitsIn? (base : Nat) (text : Text) : Option Nat :=
  if text.isEmpty then none
  else
    text.foldlM (fun total cell =>
      match Idl.hexValue? cell with
      | some digit => if digit < base then some (total * base + digit) else none
      | none => none) 0

def magnitude? : Text → Option Nat
  | [] => none
  | [cell] => digitsIn? 10 [cell]
  | first :: second :: rest =>
    if first.isChar '0' then
      if second.isChar 'x' || second.isChar 'X' then digitsIn? 16 rest
      else if second.isChar 'o' || second.isChar 'O' then digitsIn? 8 rest
      else if second.isChar 'b' || second.isChar 'B' then digitsIn? 2 rest
      else digitsIn? 8 (second :: rest)
    else digitsIn? 10 (first :: second :: rest)

def largest (signed : Bool) : Int :=
  if signed then Number.maxInt64 else 2 * Number.maxInt64 + 1

def bounded? (negative signed : Bool) (magnitude : Option Nat) : Option Int :=
  match magnitude with
  | none => none
  | some magnitude =>
    let number : Int := if negative then -(magnitude : Int) else magnitude
    if Number.minInt64 ≤ number && number ≤ largest signed then some number else none

def integer? (text : Text) : Option Int :=
  let (negative, rest) := Number.takeSign text
  bounded? negative (rest ≠ text) (magnitude? rest)

def basedInteger? (text : Text) : Option Int :=
  let base := if Text.startsWith text "0b" then 2 else if Text.startsWith text "0o" then 8 else 0
  let (negative, digits) := Number.takeSign (text.drop 2)
  bounded? negative true (digitsIn? base digits)

def separatesDigits (afterDigit : Bool) : Text → Bool
  | [] => true
  | cell :: rest =>
    if cell.isChar '_' then
      afterDigit && (rest.head?.map Number.isDigitCell).getD false && separatesDigits false rest
    else separatesDigits (Number.isDigitCell cell) rest

def withoutSeparators (text : Text) : Text := text.filter fun cell => !cell.isChar '_'

def number? (text : Text) : Option Value :=
  let digits := withoutSeparators text
  match text with
  | [] => none
  | first :: _ =>
    if first.isChar '.' then
      if separatesDigits false text then (Number.readDouble? digits).map .double else none
    else if Number.isDigitCell first || first.isChar '+' || first.isChar '-' then
      ((integer? digits).map .int <|> (Number.readDouble? digits).map .double) <|>
        (basedInteger? digits).map .int
    else none

def plainValue (text : Text) : Value :=
  match words.lookup text with
  | some value => value
  | none => (number? text).getD (.text text)

def Value.tag : Value → Text
  | .null => "!!null"
  | .bool _ => "!!bool"
  | .int _ => "!!int"
  | .double _ => "!!float"
  | .text _ => "!!str"

def kindTags : List Text := ["!!null", "!!bool", "!!int", "!!float"]

/-- The meaning of a scalar with a tag. An integer fits the tag of fractions if it is not too large
for its sign; a tag that is not known says nothing. -/
def taggedValue (tag text : Text) : Except Fault Value :=
  if tag = "!!binary" then
    match Text.ofBase64? text with
    | some content => .ok (.text content)
    | none => .error (.mismatch tag)
  else if tag = "!!timestamp" then
    if isTimestamp text then .ok (.text text) else .error (.mismatch tag)
  else if tag ∈ kindTags then
    match plainValue text with
    | .int number =>
      if tag = "!!float" && number ≤ Number.maxInt64 then
        .ok (.double (.ofQuotient (number < 0) number.natAbs 1))
      else if tag = "!!int" then .ok (.int number)
      else .error (.mismatch tag)
    | value => if value.tag = tag then .ok value else .error (.mismatch tag)
  else .ok (.text text)

def scalarValue (tag : Option Text) (plain : Bool) (text : Text) : Except Fault Value :=
  match tag with
  | some tag => taggedValue tag text
  | none => .ok (if plain then plainValue text else .text text)

/-!
## Reading settings off a tree

A setting that stands for nothing leaves its field as it is. The entries of a mapping are named
settings; those of mappings under the merge key count too, where a mapping does not have them
itself.
-/

namespace View

def value? (view : View) : Except Fault (Option Value) :=
  match view.target with
  | .scalar tag plain text => (scalarValue tag plain text).map some
  | _ => .ok none

def text? (view : View) : Except Fault (Option Text) :=
  match view.target with
  | .scalar tag plain text =>
    (scalarValue tag plain text).map fun
      | .null => none
      | .text content => some content
      | _ => some text
  | _ => .error (.mismatch "string")

def wholePart (fraction : Double) : Option Int :=
  match fraction with
  | .undefined => none
  | .infinite negative => if negative then some Number.minInt64 else none
  | .finite _ _ _ =>
    let number := fraction.truncate
    if number ≤ Number.maxInt64 then some (max number Number.minInt64)
    else if number = Number.maxInt64 + 1 then some Number.minInt64
    else none

def int? (view : View) : Except Fault (Option Int) := do
  match ← view.value? with
  | some .null => return none
  | some (.int number) =>
    if number ≤ Number.maxInt64 then return some number else throw (.mismatch "int")
  | some (.double fraction) =>
    match wholePart fraction with
    | some number => return some number
    | none => throw (.mismatch "int")
  | _ => throw (.mismatch "int")

def double? (view : View) : Except Fault (Option Double) := do
  match ← view.value? with
  | some .null => return none
  | some (.int number) => return some (.ofQuotient (number < 0) number.natAbs 1)
  | some (.double number) => return some number
  | _ => throw (.mismatch "float64")

def switches : List (Text × Bool) :=
  [("y", true), ("Y", true), ("yes", true), ("on", true),
    ("n", false), ("N", false), ("no", false), ("off", false)]

def bool? (view : View) : Except Fault (Option Bool) := do
  match ← view.value? with
  | some .null => return none
  | some (.bool value) => return some value
  | some (.text text) =>
    match switches.lookup text with
    | some value => return some value
    | none => throw (.mismatch "bool")
  | _ => throw (.mismatch "bool")

def list? {α : Type} (item : View → Except Fault (Option α)) (view : View) :
    Except Fault (Option (List α)) := do
  match view.target with
  | .sequence items =>
    let values ← items.mapM fun node => item (view.with node)
    return some (values.filterMap id)
  | _ => if (← view.value?) = some .null then return none else throw (.mismatch "list")

def sameKey : Yaml → Yaml → Bool
  | .scalar _ _ left, .scalar _ _ right => left = right
  | .reference left _, .reference right _ => left = right
  | .sequence _, .sequence _ => true
  | .mapping _, .mapping _ => true
  | _, _ => false

def keyText : Yaml → Text
  | .scalar _ _ text => text
  | _ => []

def repeatedKey? : List (Yaml × Yaml) → Option Text
  | [] => none
  | (key, _) :: rest =>
    if rest.any fun (other, _) => sameKey key other then some (keyText key) else repeatedKey? rest

def mergeTag : Text := "!!merge"

def isMergeKey : Yaml → Bool
  | .scalar none plain text => plain && text = "<<"
  | .scalar (some tag) _ text => tag = mergeTag && text = "<<"
  | _ => false

def namedEntries (view : View) (entries : List (Yaml × Yaml)) :
    Except Fault (List (Text × View)) := do
  let own := entries.filter fun (key, _) => !isMergeKey key
  let fields ← own.mapM fun (key, value) => do
    let name ← (view.with key).text?
    return name.map fun name => (name, view.with value)
  return fields.filterMap id

def addMissing (fields more : List (Text × View)) : List (Text × View) :=
  more.foldl (fun fields field =>
    if (fields.lookup field.1).isSome then fields else fields ++ [field]) fields

def entries? (view : View) : Option (List (Yaml × Yaml)) :=
  match view.target with
  | .mapping entries => some entries
  | _ => none

def sources? (view : View) : Option (List (List (Yaml × Yaml))) :=
  match view.node with
  | .sequence items => items.mapM fun node => (view.with node).entries?
  | _ => view.entries?.map fun entries => [entries]

def fieldsOf (view : View) : Nat → List (Yaml × Yaml) → Except Fault (List (Text × View))
  | 0, _ => throw .cyclicAnchor
  | rounds + 1, entries => do
    if let some key := repeatedKey? entries then throw (.repeatedKey key)
    let fields ← view.namedEntries entries
    match entries.find? fun (key, _) => isMergeKey key with
    | none => return fields
    | some (_, value) =>
      match (view.with value).sources? with
      | none => throw .badMerge
      | some sources => sources.foldlM (fun fields source => do
          let more ← view.fieldsOf rounds source
          return addMissing fields more) fields

def fields? (view : View) : Except Fault (Option (List (Text × View))) := do
  match view.entries? with
  | some entries => return some (← view.fieldsOf view.limit entries)
  | none => if (← view.value?) = some .null then return none else throw (.mismatch "mapping")

end View

/-- Reads one named setting with a reader; a fallback stands in for one that is not set. Keys that
are not written alike may name the same setting, which is a fault. -/
def setting {α : Type} (fields : List (Text × View)) (name : Text) (fallback : α)
    (reader : View → Except Fault (Option α)) : Except Fault α :=
  match fields.filter fun (other, _) => other = name with
  | [] => .ok fallback
  | [(_, view)] => (reader view).map fun value => value.getD fallback
  | _ => .error (.repeatedKey name)

end Avro.Yaml
