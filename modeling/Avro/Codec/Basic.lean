import Avro.Number.Decimal
import Avro.Schema.Basic

/-!
# Codecs

What a codec is, and which values it takes.
-/

set_option autoImplicit false

namespace Avro.Json

/-!
## Strict JSON

The reader of documents takes numbers as they stand. A strict value has only numbers that the JSON
grammar allows, and that fit a double.
-/

open Avro.Number

def afterDigits? (text : Text) : Option Text :=
  if (text.takeWhile isDigitCell).isEmpty then none else some (text.dropWhile isDigitCell)

def afterWhole? : Text → Option Text
  | .scalar '0' :: rest => some rest
  | text => afterDigits? text

def afterFraction? : Text → Option Text
  | .scalar '.' :: rest => afterDigits? rest
  | text => some text

def afterExponent? : Text → Option Text
  | cell :: rest =>
    if cell.isChar 'e' || cell.isChar 'E' then afterDigits? (takeSign rest).2
    else some (cell :: rest)
  | [] => some []

def isGrammatical (literal : Text) : Bool :=
  let unsigned := match literal with
    | .scalar '-' :: rest => rest
    | _ => literal
  ((afterWhole? unsigned).bind fun rest => (afterFraction? rest).bind afterExponent?) = some []

mutual

/-- Whether all numbers of a value are grammatical and fit a double. -/
def isStrict : Json → Bool
  | .num literal => isGrammatical literal && (readDouble? literal).isSome
  | .arr items => areStrict items
  | .obj members => membersStrict members
  | _ => true

def areStrict : List Json → Bool
  | [] => true
  | item :: items => isStrict item && areStrict items

def membersStrict : List (Text × Json) → Bool
  | [] => true
  | (_, value) :: members => isStrict value && membersStrict members

end

def double? : Json → Option Double
  | .num literal => readDouble? literal
  | .int value => some (.ofDecimal (value < 0) value.natAbs 0)
  | _ => none

end Avro.Json

/-!
## Codecs

A codec says which values a schema encodes. Named codecs may be recursive, so they are referred to
by their place in a table of bodies, and looked up by name while a schema is being checked.
-/

namespace Avro

inductive Codec where
  | primitive (kind : Primitive)
  | logical (base : Primitive) (meaning : Text)
  | array (items : Codec)
  | map (values : Codec)
  | union (members : List Codec)
  | named (place : Nat) (name : Text)
deriving Repr, Inhabited

structure CodecField where
  name : Text
  codec : Codec
  hasDefault : Bool
deriving Repr, Inhabited

inductive CodecBody where
  | record (fields : List CodecField)
  | enum (symbols : List Text)
  | fixed (size : Nat)
  | decimal (size : Option Nat)
  | checkedText
deriving Repr, Inhabited

namespace Codec

def fullName : Codec → Text
  | .primitive kind => kind.name
  | .logical base meaning => base.name ++ "." ++ meaning
  | .array _ => "array"
  | .map _ => "map"
  | .union _ => "union"
  | .named _ name => name

def shortName (codec : Codec) : Text :=
  ((Text.splitLast? '.' codec.fullName).map Prod.snd).getD codec.fullName

def logicals : List Codec :=
  [.logical .long "timestamp-millis", .logical .long "timestamp-micros",
    .logical .int "time-millis", .logical .long "time-micros", .logical .int "date"]

def builtin : List Codec := Primitive.all.map .primitive ++ logicals

end Codec

structure CodecTable where
  names : List (Text × Codec)
  bodies : List CodecBody
  decimals : List ((Int × Int) × Codec)
deriving Repr, Inhabited

namespace CodecTable

def start : CodecTable := ⟨Codec.builtin.map fun codec => (codec.fullName, codec), [], []⟩

def find? (table : CodecTable) (name : Text) : Option Codec := table.names.lookup name

def register (table : CodecTable) (name : Text) (body : CodecBody) : Codec × CodecTable :=
  let codec := Codec.named table.bodies.length name
  (codec, { table with names := (name, codec) :: table.names, bodies := table.bodies ++ [body] })

def complete (table : CodecTable) (codec : Codec) (body : CodecBody) : CodecTable :=
  match codec with
  | .named place _ => { table with bodies := table.bodies.set place body }
  | _ => table

def body? (table : CodecTable) : Codec → Option CodecBody
  | .named place _ => table.bodies[place]?
  | _ => none

end CodecTable

/-!
## Binary values

In the binary form of a value an integer is a chain of bytes with seven bits each, lowest first,
where all but the last byte have their highest bit set; its sign is the lowest bit. Texts, bytes and
blocks of items begin with their length.
-/

namespace Codec

def chain? : List UInt8 → Option (Nat × List UInt8)
  | [] => none
  | byte :: rest =>
    if byte < 128 then some (byte.toNat, rest)
    else (chain? rest).map fun (higher, rest) => (byte.toNat - 128 + 128 * higher, rest)

def long? (bytes : List UInt8) : Option (Int × List UInt8) :=
  (chain? bytes).map fun (number, rest) =>
    let word : Nat := number % Nat.pow 2 64
    (if word % 2 = 0 then Int.ofNat (word / 2) else Int.negSucc (word / 2), rest)

def afterBytes? (count : Nat) (bytes : List UInt8) : Option (List UInt8) :=
  if count ≤ bytes.length then some (bytes.drop count) else none

def sized? (bytes : List UInt8) : Option (List UInt8 × List UInt8) :=
  match long? bytes with
  | none => none
  | some (length, rest) =>
    if 0 ≤ length && length ≤ rest.length then
      some (rest.take length.toNat, rest.drop length.toNat)
    else none

def blockCount? (bytes : List UInt8) : Option (Nat × List UInt8) :=
  match long? bytes with
  | none => none
  | some (count, rest) =>
    let found? := if 0 ≤ count then some rest else (long? rest).map Prod.snd
    if count.natAbs < Nat.pow 2 31 then found?.map fun rest => (count.natAbs, rest) else none

section

variable {State : Type} (one : State → List UInt8 → Option (State × List UInt8))

def afterMany? (count : Nat) (state : State) (bytes : List UInt8) :
    Option (State × List UInt8) :=
  if count = 0 then some (state, bytes)
  else
    match one state bytes with
    | none => none
    | some (state, rest) =>
      if rest.length < bytes.length then afterMany? (count - 1) state rest else some (state, rest)
termination_by bytes.length

def afterBlocks? (state : State) (bytes : List UInt8) : Option (List UInt8) :=
  match blockCount? bytes with
  | none => none
  | some (count, rest) =>
    if count = 0 then some rest
    else
      match afterMany? one count state rest with
      | none => none
      | some (state, rest) =>
        if rest.length < bytes.length then afterBlocks? state rest else none
termination_by bytes.length

end

def afterPrimitive? (kind : Primitive) (bytes : List UInt8) : Option (List UInt8) :=
  match kind with
  | .null => some bytes
  | .boolean =>
    match bytes with
    | byte :: rest => if byte ≤ 1 then some rest else none
    | [] => none
  | .int => (long? bytes).map Prod.snd
  | .long => (long? bytes).map Prod.snd
  | .float => afterBytes? 4 bytes
  | .double => afterBytes? 8 bytes
  | .bytes => (sized? bytes).map Prod.snd
  | .string => (sized? bytes).map Prod.snd

/-- The bytes after a value. The keys of a map differ. The fuel bounds how deep named types may
stand in each other. -/
def after? (table : CodecTable) (fuel : Nat) (codec : Codec) (bytes : List UInt8) :
    Option (List UInt8) :=
  match codec with
  | .primitive kind => afterPrimitive? kind bytes
  | .logical base _ => afterPrimitive? base bytes
  | .array items =>
    afterBlocks? (fun _ bytes => (after? table fuel items bytes).map fun rest => ((), rest)) ()
      bytes
  | .map values =>
    afterBlocks?
      (fun seen bytes =>
        match sized? bytes with
        | none => none
        | some (key, rest) =>
          if key ∈ seen then none
          else (after? table fuel values rest).map fun rest => (key :: seen, rest))
      ([] : List (List UInt8)) bytes
  | .union members =>
    match long? bytes with
    | none => none
    | some (index, rest) =>
      if index < 0 then none
      else
        match _found : members[index.toNat]? with
        | none => none
        | some member => after? table fuel member rest
  | .named place _ =>
    match table.bodies[place]? with
    | some (.record fields) =>
      if _left : 0 < fuel then
        fields.foldlM (fun bytes field => after? table (fuel - 1) field.codec bytes) bytes
      else none
    | some (.enum symbols) =>
      (long? bytes).bind fun (index, rest) =>
        if 0 ≤ index && index < symbols.length then some rest else none
    | some (.fixed size) => afterBytes? size bytes
    | some (.decimal (some size)) => afterBytes? size bytes
    | some (.decimal none) => (sized? bytes).map Prod.snd
    | some .checkedText => (sized? bytes).map Prod.snd
    | none => none
termination_by (fuel, sizeOf codec)
decreasing_by
  · exact Prod.Lex.right _ (by simp)
  · exact Prod.Lex.right _ (by simp)
  · have := List.sizeOf_lt_of_mem (List.mem_of_getElem? _found)
    exact Prod.Lex.right _ (by simp; omega)
  · exact Prod.Lex.left _ _ (by omega)

/-- Whether a text, taken as bytes, begins with the binary form of a value. Between two bytes no
named type can stand in itself. -/
def holdsValue (table : CodecTable) (codec : Codec) (text : Text) : Bool :=
  let bytes := (Text.sanitize text).toBytes
  (after? table ((bytes.length + 1) * (table.bodies.length + 1)) codec bytes).isSome

end Codec

/-!
## Values and codecs

A value inside an array, a map or a record is encoded by the codec that stands there. A member of a
union is written as an object with its name as the only key; null stands for itself.
-/

namespace Codec

open Avro.Number

def fits (kind : Primitive) (number : Double) : Bool :=
  match kind with
  | .int => number.isIntegral && -(Nat.pow 2 31 : Int) ≤ number.truncate && number.truncate < Nat.pow 2 31
  | .long => number.isIntegral && -(Nat.pow 2 63 : Int) ≤ number.truncate && number.truncate < Nat.pow 2 63
  | .float => true
  | .double => true
  | _ => false

def acceptsPrimitive (kind : Primitive) (value : Json) : Bool :=
  match kind, value with
  | .null, .null => true
  | .boolean, .bool _ => true
  | .string, .str _ => true
  | .bytes, .str _ => true
  | _, value => (value.double?.map (fits kind)).getD false

mutual

def accepts (table : CodecTable) (codec : Codec) : Json → Bool
  | .arr values =>
    match codec with
    | .array items => acceptsAll table items values
    | _ => false
  | .obj members =>
    match codec with
    | .map values => acceptsValues table values members
    | .union codecs => acceptsMember table codecs members
    | codec =>
      match table.body? codec with
      | some (.record fields) =>
        fields.all (fun field => field.hasDefault || Members.has members field.name) &&
          acceptsFields table fields members
      | _ => false
  | .null =>
    match codec with
    | .union codecs => codecs.any fun member => member.fullName = "null"
    | codec => codec.fullName = "null" && (table.body? codec).isNone
  | .str text =>
    match codec with
    | .primitive kind => acceptsPrimitive kind (.str text)
    | codec =>
      match table.body? codec with
      | some (.enum symbols) => text ∈ symbols
      | some (.fixed size) => (Text.sanitize text).byteLength = size
      | some .checkedText => true
      | _ => false
  | value =>
    match codec with
    | .primitive kind => acceptsPrimitive kind value
    | .logical base _ => acceptsPrimitive base value
    | _ => false

def acceptsAll (table : CodecTable) (codec : Codec) : List Json → Bool
  | [] => true
  | value :: values => accepts table codec value && acceptsAll table codec values

def acceptsValues (table : CodecTable) (codec : Codec) : List (Text × Json) → Bool
  | [] => true
  | (_, value) :: members => accepts table codec value && acceptsValues table codec members

def acceptsMember (table : CodecTable) (codecs : List Codec) : List (Text × Json) → Bool
  | [(name, value)] =>
    match codecs.find? fun codec => codec.fullName = name with
    | some codec => accepts table codec value
    | none => false
  | _ => false

def acceptsFields (table : CodecTable) (fields : List CodecField) : List (Text × Json) → Bool
  | [] => true
  | (name, value) :: members =>
    (match fields.find? fun field => field.name = name with
      | some field => accepts table field.codec value
      | none => true) && acceptsFields table fields members

end

def suits (shortName : Text) (value : Json) : Bool :=
  match Primitive.ofName? shortName with
  | none => true
  | some .null => true
  | some .boolean => acceptsPrimitive .boolean value
  | some .string => acceptsPrimitive .string value
  | some .bytes => acceptsPrimitive .bytes value
  | some _ => value.double?.isSome

def unionDefault (codec : Codec) (value : Json) : Json :=
  let value := match value with
    | .str text => if text = "null" then Json.null else .str text
    | value => value
  let first : Text := match codec with
    | .union (member :: _) => member.fullName
    | _ => []
  match value with
  | .null => if first = "null" then .null else .obj [(first, .null)]
  | value => .obj [(first, value)]

def acceptsDecimal (table : CodecTable) (codec : Codec) : Json → Bool
  | .str text => holdsValue table codec text
  | _ => false

/-- Whether a value may be the default of a field. The last part of the codec's name decides how
the value is prepared, for named types too. -/
def acceptsDefault (table : CodecTable) (codec : Codec) (value : Json) : Bool :=
  suits codec.shortName value &&
    match codec with
    | .primitive .null => acceptsPrimitive .null value
    | .primitive _ => true
    | codec =>
      if codec.shortName = "union" then accepts table codec (unionDefault codec value)
      else accepts table codec value

end Codec

end Avro
