import Avro.Codec.Basic
import Avro.Text.Pattern
import Avro.Number.Shortest
import Avro.Schema.Tree

/-!
# Checking schemas

The check turns the JSON form of a schema into a codec, or refuses it. It also settles the form: a
logical type that nothing is known about is dropped, and the first decimal type of each precision
and scale gets a name.
-/

set_option autoImplicit false

namespace Avro.Codec

open Avro.Number

structure Built where
  codec : Codec
  table : CodecTable
  form : Json
deriving Repr, Inhabited

inductive Demand where
  | known (codec : Codec)
  | array
  | map
  | record
  | enum
  | fixed
  | decimalBytes
  | decimalFixed
  | checkedText
deriving Repr, Inhabited

def logicalName? (members : Members) : Option Text :=
  match members.get? "logicalType" with
  | none => none
  | some .null => none
  | some (.str name) => some name
  | some _ => some []

def integer? (members : Members) (key : Text) : Option Int :=
  ((members.get? key).bind Json.double?).map fun number =>
    let integer := number.truncate
    if integer < minInt64 || maxInt64 < integer then minInt64 else integer

def precisionAndScale? (members : Members) : Option (Int × Int) :=
  match integer? members "precision" with
  | none => none
  | some precision =>
    let scale? := if members.has "scale" then integer? members "scale" else some 0
    match scale? with
    | none => none
    | some scale =>
      if 1 ≤ precision && 0 ≤ scale && scale ≤ precision then some (precision, scale) else none

def inSpace? (table : CodecTable) (space word : Text) : Option Codec :=
  if space.isEmpty then none else table.find? (space ++ "." ++ word)

def plainDemand? (table : CodecTable) (space word : Text) : Option Demand :=
  match table.find? word with
  | some codec => some (.known codec)
  | none =>
    match inSpace? table space word with
    | some codec => some (.known codec)
    | none =>
      if word = "array" then some .array
      else if word = "map" then some .map
      else if word = "record" then some .record
      else if word = "enum" then some .enum
      else if word = "fixed" then some .fixed
      else none

/-- The codec known for a word with a logical type. Decimals are told apart by their numbers. -/
def logicalCodec? (table : CodecTable) (full : Text) (members : Members) : Option Codec :=
  match table.find? full with
  | none => none
  | some codec =>
    if full = "bytes.decimal" then
      match integer? members "precision" with
      | none => none
      | some precision =>
        table.decimals.lookup (precision, (integer? members "scale").getD 0)
    else some codec

def demand? (table : CodecTable) (space word : Text) (members : Members) :
    Option (Demand × Bool) :=
  match logicalName? members with
  | none => (plainDemand? table space word).map fun demand => (demand, false)
  | some meaning =>
    let full := word ++ "." ++ meaning
    match logicalCodec? table full members with
    | some codec => some (.known codec, false)
    | none =>
      match inSpace? table space word with
      | some codec => some (.known codec, false)
      | none =>
        if full = "bytes.decimal" then some (.decimalBytes, false)
        else if full = "fixed.decimal" then some (.decimalFixed, false)
        else if full = "string.validated-string" then some (.checkedText, false)
        else (plainDemand? table space word).map fun demand => (demand, true)

def nameOf? (space : Text) (members : Members) : Option (Text × Text) :=
  let own? : Option Text :=
    match members.get? "namespace" with
    | none => some []
    | some (.str own) => some own
    | some _ => none
  match members.text? "name", own? with
  | some name, some own =>
    let (full, home) : Text × Text :=
      match Text.splitLast? '.' name with
      | some (home, _) => (name, home)
      | none =>
        if !own.isEmpty then (own ++ "." ++ name, own)
        else if !space.isEmpty then (space ++ "." ++ name, space)
        else (name, [])
    if (Text.splitOn '.' full).all Name.isLegal then some (full, home) else none
  | _, _ => none

def sizeOfText? (text : Text) : Option Nat :=
  (digits? text).bind fun size => if size < Nat.pow 2 64 then some size else none

def sizeOf? (members : Members) : Option Nat :=
  match members.get? "size" with
  | some (.str text) => sizeOfText? text
  | some value =>
    match value.double? with
    | some (.finite false (mantissa + 1) exponent) =>
      some (Double.finite false (mantissa + 1) exponent).truncate.toNat
    | _ => none
  | none => none

def patternOf? (members : Members) : Option Text :=
  match members.get? "pattern" with
  | some (.str pattern) =>
    let pattern := Text.trim pattern
    if pattern.isPattern && !pattern.isEmpty then some pattern else none
  | _ => none

def symbolsOf? (members : Members) : Option (List Text) :=
  match members.get? "symbols" with
  | some (.arr (first :: rest)) =>
    (first :: rest).mapM fun
      | .str symbol => if Name.isLegal symbol then some symbol else none
      | _ => none
  | _ => none

def withName (members : Members) (name : Text) : Members :=
  if members.has "name" then members else members.set "name" (.str name)

def buildLeaf? (table : CodecTable) (space : Text) (members : Members) (demand : Demand) :
    Option Built :=
  match demand with
  | .known codec => some ⟨codec, table, .obj members⟩
  | .enum => do
    let (full, _) ← nameOf? space members
    let symbols ← symbolsOf? members
    let (codec, table) := table.register full (.enum symbols)
    return ⟨codec, table, .obj members⟩
  | .fixed => do
    let (full, _) ← nameOf? space members
    let size ← sizeOf? members
    let (codec, table) := table.register full (.fixed size)
    return ⟨codec, table, .obj members⟩
  | .decimalBytes => do
    let numbers ← precisionAndScale? members
    let members := withName members "bytes.decimal"
    let (full, _) ← nameOf? space members
    let (codec, table) := table.register full (.decimal none)
    return ⟨codec, { table with decimals := (numbers, codec) :: table.decimals }, .obj members⟩
  | .decimalFixed => do
    let _ ← precisionAndScale? members
    let members := withName members "fixed.decimal"
    let (full, _) ← nameOf? space members
    let size ← sizeOf? members
    let (codec, table) := table.register full (.decimal (some size))
    return ⟨codec, table, .obj members⟩
  | .checkedText => do
    let _ ← patternOf? members
    let members := withName members "string.validated-string"
    let (full, _) ← nameOf? space members
    let (codec, table) := table.register full .checkedText
    return ⟨codec, table, .obj members⟩
  | _ => none

def defaultFits (built : Built) (value : Json) : Bool :=
  match built.form with
  | .obj settled =>
    if Members.text? settled "logicalType" = some "decimal" then
      acceptsDecimal built.table built.codec value
    else acceptsDefault built.table built.codec value
  | _ => acceptsDefault built.table built.codec value

def checkField? (space : Text) (seen : List Text) (built : Built) (members : Members) :
    Option CodecField := do
  let (full, _) ← nameOf? space members
  let name := ((Text.splitLast? '.' full).map Prod.snd).getD full
  if name ∈ seen then none
  else
    match members.get? "default" with
    | none => some ⟨name, built.codec, false⟩
    | some value =>
      if defaultFits built value then some ⟨name, built.codec, true⟩ else none

def distinctNames (codecs : List Codec) : Bool := (codecs.map fullName).Nodup

mutual

def build? (table : CodecTable) (space : Text) (schema : Json) : Option Built :=
  match schema with
  | .str word =>
    match demand? table space word [] with
    | some (.known codec, _) => some ⟨codec, table, .str word⟩
    | _ => none
  | .arr [] => none
  | .arr (first :: rest) => do
    let (codecs, table, forms) ← buildAll? table space (first :: rest)
    if distinctNames codecs then some ⟨.union codecs, table, .arr forms⟩ else none
  | .obj members => buildObject? table space members
  | _ => none
termination_by sizeOf schema

def buildAll? (table : CodecTable) (space : Text) (schemas : List Json) :
    Option (List Codec × CodecTable × List Json) :=
  match schemas with
  | [] => some ([], table, [])
  | schema :: rest => do
    let built ← build? table space schema
    let (codecs, table, forms) ← buildAll? built.table space rest
    return (built.codec :: codecs, table, built.form :: forms)
termination_by sizeOf schemas

def buildObject? (table : CodecTable) (space : Text) (members : Members) : Option Built :=
  match _type : members.get? "type" with
  | some (.str word) =>
    match demand? table space word members with
    | none => none
    | some (demand, dropped) =>
      let settled := if dropped then members.without "logicalType" else members
      match demand with
      | .array =>
        match _items : members.get? "items" with
        | none => none
        | some items => do
          let built ← build? table space items
          return ⟨.array built.codec, built.table, .obj (settled.set "items" built.form)⟩
      | .map =>
        match _values : members.get? "values" with
        | none => none
        | some values => do
          let built ← build? table space values
          return ⟨.map built.codec, built.table, .obj (settled.set "values" built.form)⟩
      | .record => do
        let (full, home) ← nameOf? space members
        let (codec, table) := table.register full (.record [])
        match _fields : members.get? "fields" with
        | some (.arr fields) => do
          let (fields, table, forms) ← buildFields? table home [] fields
          return ⟨codec, table.complete codec (.record fields),
            .obj (settled.set "fields" (.arr forms))⟩
        | _ => none
      | demand => buildLeaf? table space settled demand
  | some (.arr inner) => do
    let built ← build? table space (.arr inner)
    return ⟨built.codec, built.table, .obj (members.set "type" built.form)⟩
  | some (.obj inner) => do
    let built ← build? table space (.obj inner)
    return ⟨built.codec, built.table, .obj (members.set "type" built.form)⟩
  | _ => none
termination_by sizeOf members
decreasing_by
  · exact Members.sizeOf_get? _items
  · exact Members.sizeOf_get? _values
  · have := Members.sizeOf_get? _fields
    simp at this
    omega
  · exact Members.sizeOf_get? _type
  · exact Members.sizeOf_get? _type

def buildFields? (table : CodecTable) (space : Text) (seen : List Text) (fields : List Json) :
    Option (List CodecField × CodecTable × List Json) :=
  match fields with
  | [] => some ([], table, [])
  | .obj members :: rest => do
    let built ← buildObject? table space members
    let field ← checkField? space seen built members
    let (fields, table, forms) ← buildFields? built.table space (field.name :: seen) rest
    return (field :: fields, table, built.form :: forms)
  | _ :: _ => none
termination_by sizeOf fields

end

/-!
## Parsing canonical form

The form of a schema that says how values are read, and nothing else: only the members that matter
for it remain, in a fixed order, and names are written in full.
-/

abbrev FullNames := List (Text × Text)

def keptKeys : List Text := ["name", "type", "fields", "symbols", "items", "values", "size"]

def writeName (names : FullNames) (text : Text) : Text :=
  "\"" ++ (names.lookup text).getD (Text.sanitize text) ++ "\""

def writeNumber? (value : Json) : Option Text := value.double?.map Double.render

def objectSpaces (space : Text) (members : Members) : Text × Text :=
  match members.get? "namespace" with
  | some (.str own) =>
    let home := if space.isEmpty then own else space ++ "." ++ own
    (home, home)
  | some _ => ([], space)
  | none =>
    match members.text? "type" with
    | some type =>
      if type = "record" || type = "enum" || type = "fixed" then (space, space) else ([], space)
    | none => ([], space)

def settleMember? (home : Text) (names : FullNames) (key text : Text) :
    Option (Json × FullNames) :=
  if key = "name" && !home.isEmpty && !text.hasChar '.' then
    let full := home ++ "." ++ text
    some (.str full, (text, full) :: names)
  else if key = "size" then (sizeOfText? text).map fun size => (.int size, names)
  else some (.str text, names)

def inOrder (written : List (Text × Text)) : List Text :=
  keptKeys.filterMap fun key => written.lookup key

mutual

def write? (space : Text) (names : FullNames) : Json → Option (Text × FullNames)
  | .str text => some (writeName names text, names)
  | .num literal => (writeNumber? (.num literal)).map fun text => (text, names)
  | .int value => (writeNumber? (.int value)).map fun text => (text, names)
  | .arr items => do
    let (texts, names) ← writeItems? space names items
    return ("[" ++ Text.join "," texts ++ "]", names)
  | .obj [(key, .str word)] =>
    if key = "type" then some ("\"" ++ Text.sanitize word ++ "\"", names)
    else do
      let (written, names) ← writeMembers? [] space names [(key, .str word)]
      return ("\x7b" ++ Text.join "," (inOrder written) ++ "\x7d", names)
  | .obj members => do
    let (home, inner) := objectSpaces space members
    let (written, names) ← writeMembers? home inner names members
    return ("\x7b" ++ Text.join "," (inOrder written) ++ "\x7d", names)
  | .null => none
  | .bool _ => none

def writeItems? (space : Text) (names : FullNames) : List Json → Option (List Text × FullNames)
  | [] => some ([], names)
  | item :: items => do
    let (text, names) ← write? space names item
    let (texts, names) ← writeItems? space names items
    return (text :: texts, names)

def writeMembers? (home space : Text) (names : FullNames) :
    List (Text × Json) → Option (List (Text × Text) × FullNames)
  | [] => some ([], names)
  | (key, value) :: members =>
    if key ∈ keptKeys then
      match value with
      | .str text => do
        let (settled, names) ← settleMember? home names key text
        let keyText := writeName names key
        let valueText ← match settled with
          | .str text => some (writeName names text)
          | settled => writeNumber? settled
        let (written, names) ← writeMembers? home space names members
        return ((key, keyText ++ ":" ++ valueText) :: written, names)
      | value => do
        let keyText := writeName names key
        let (valueText, names) ← write? space names value
        let (written, names) ← writeMembers? home space names members
        return ((key, keyText ++ ":" ++ valueText) :: written, names)
    else writeMembers? home space names members

end

mutual

/-- Error types as records: outside of protocols the word error means nothing. -/
def errorsAsRecords : Json → Json
  | .arr items => .arr (errorsAsRecordsAll items)
  | .obj members =>
    let isError := Members.text? members "type" = some "error" && Members.has members "fields"
    let members := errorsAsRecordsIn members
    .obj (if isError then Members.set members "type" (.str "record") else members)
  | value => value

def errorsAsRecordsAll : List Json → List Json
  | [] => []
  | item :: items => errorsAsRecords item :: errorsAsRecordsAll items

def errorsAsRecordsIn : List (Text × Json) → List (Text × Json)
  | [] => []
  | (key, value) :: members => (key, errorsAsRecords value) :: errorsAsRecordsIn members

end

def parsingForm? (catalog : Catalog) (schema : Schema) : Option Text := do
  let tree := errorsAsRecords (schema.tree catalog)
  if tree.isStrict then
    let built ← build? .start [] tree
    let (text, _) ← write? [] [] built.form
    return text
  else none

end Avro.Codec
