import Avro.Json.Basic
import Avro.Number.Shortest
import Avro.Text.Quoted

/-!
# Writing JSON

Two layouts. The compact one has no white space. The spacious one puts each member on a line of
its own, indented by two spaces per enclosing object, with ` : ` after its key, and keeps arrays
on the line of their parent.
-/

set_option autoImplicit false

namespace Avro.Json

/-- A value offered for writing: a caller may offer its own numbers and lists of texts. What is no
JSON at all is refused. -/
inductive Value where
  | json (value : Json)
  | double (value : Number.Double)
  | texts (values : List Text)
  | list (values : List Value)
  | object (members : List (Text × Value))
  | foreign (kind : Text)
deriving Repr, Inhabited

def unsupportedMessage (kind : Text) : Text := "jsontree: unsupported value type " ++ kind

mutual

def Value.toJson : Value → Except Text Json
  | .json value => .ok value
  | .double value => .ok (.num value.render)
  | .texts values => .ok (.arr (values.map .str))
  | .list values => (Value.listToJson values).map .arr
  | .object members => (Value.membersToJson [] members).map .obj
  | .foreign kind => .error kind

def Value.listToJson : List Value → Except Text (List Json)
  | [] => .ok []
  | value :: rest => do
    let first ← value.toJson
    let others ← Value.listToJson rest
    return first :: others

def Value.membersToJson (before : Members) : List (Text × Value) → Except Text Members
  | [] => .ok before
  | (key, value) :: rest => do
    let value ← value.toJson
    Value.membersToJson (before.set key value) rest

end

inductive Layout where
  | compact
  | spacious
deriving DecidableEq, Repr

def escapeCell : Cell → Text
  | .stray _ => "\\ufffd"
  | .scalar char =>
    if char == '"' || char == '\\' then [.scalar '\\', .scalar char]
    else if char == '\n' then "\\n"
    else if char == '\r' then "\\r"
    else if char == '\t' then "\\t"
    else if char.toNat < 0x20 || char.toNat == 0x2028 || char.toNat == 0x2029 then
      "\\u" ++ Text.hex 4 char.toNat
    else [.scalar char]

def writeString (text : Text) : Text := "\"" ++ text.flatMap escapeCell ++ "\""

def lineBreak : Layout → Nat → Text
  | .compact, _ => []
  | .spacious, level => "\n" ++ Text.times level "  "

def colon : Layout → Text
  | .compact => ":"
  | .spacious => " : "

def pad : Layout → Text
  | .compact => []
  | .spacious => " "

mutual

def write (layout : Layout) (level : Nat) (value : Json) (rest : Text) : Text :=
  match value with
  | .null => "null" ++ rest
  | .bool true => "true" ++ rest
  | .bool false => "false" ++ rest
  | .str text => writeString text ++ rest
  | .num literal => literal ++ rest
  | .int value => Text.ofInt value ++ rest
  | .arr [] => "[" ++ pad layout ++ ("]" ++ rest)
  | .arr (item :: items) =>
    "[" ++ pad layout ++ write layout level item (writeItems layout level items
      (pad layout ++ ("]" ++ rest)))
  | .obj [] => "\x7b" ++ pad layout ++ ("\x7d" ++ rest)
  | .obj ((key, value) :: members) =>
    "\x7b" ++ lineBreak layout (level + 1) ++ writeString key ++ colon layout ++
      write layout (level + 1) value (writeMembers layout (level + 1) members
        (lineBreak layout level ++ ("\x7d" ++ rest)))

def writeItems (layout : Layout) (level : Nat) (items : List Json) (rest : Text) : Text :=
  match items with
  | [] => rest
  | item :: items =>
    "," ++ pad layout ++ write layout level item (writeItems layout level items rest)

def writeMembers (layout : Layout) (level : Nat) (members : List (Text × Json)) (rest : Text) :
    Text :=
  match members with
  | [] => rest
  | (key, value) :: members =>
    "," ++ lineBreak layout level ++ writeString key ++ colon layout ++
      write layout level value (writeMembers layout level members rest)

end

def render (layout : Layout) (value : Json) : Text := write layout 0 value []

end Avro.Json
