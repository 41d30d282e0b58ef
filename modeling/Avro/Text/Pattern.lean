import Avro.Text.Basic

/-!
# Patterns

Whether a text is a regular expression. The grammar has alternatives, groups with names and flags,
classes of characters, counted and lazy repetition, and no references back.
-/

set_option autoImplicit false

namespace Avro.Text

namespace Pattern

def categories : List String :=
  ["c", "cc", "cf", "cn", "co", "cs", "l", "lc", "ll", "lm", "lo", "lt", "lu", "m", "mc", "me",
  "mn", "n", "nd", "nl", "no", "p", "pc", "pd", "pe", "pf", "pi", "po", "ps", "s", "sc", "sk",
  "sm", "so", "z", "zl", "zp", "zs", "any", "ascii", "assigned"]

def categoryNames : List String :=
  ["other", "control", "cntrl", "format", "unassigned", "privateuse", "surrogate", "letter",
  "casedletter", "lowercaseletter", "modifierletter", "otherletter", "titlecaseletter",
  "uppercaseletter", "mark", "combiningmark", "spacingmark", "enclosingmark", "nonspacingmark",
  "number", "decimalnumber", "digit", "letternumber", "othernumber", "punctuation", "punct",
  "connectorpunctuation", "dashpunctuation", "closepunctuation", "finalpunctuation",
  "initialpunctuation", "otherpunctuation", "openpunctuation", "symbol", "currencysymbol",
  "modifiersymbol", "mathsymbol", "othersymbol", "separator", "lineseparator",
  "paragraphseparator", "spaceseparator"]

def scripts : List String :=
  ["adlam", "ahom", "anatolianhieroglyphs", "arabic", "armenian", "avestan", "balinese", "bamum",
  "bassavah", "batak", "bengali", "beriaerfe", "bhaiksuki", "bopomofo", "brahmi", "braille",
  "buginese", "buhid", "canadianaboriginal", "carian", "caucasianalbanian", "chakma", "cham",
  "cherokee", "chorasmian", "common", "coptic", "cuneiform", "cypriot", "cyprominoan", "cyrillic",
  "deseret", "devanagari", "divesakuru", "dogra", "duployan", "egyptianhieroglyphs", "elbasan",
  "elymaic", "ethiopic", "garay", "georgian", "glagolitic", "gothic", "grantha", "greek",
  "gujarati", "gunjalagondi", "gurmukhi", "gurungkhema", "han", "hangul", "hanifirohingya",
  "hanunoo", "hatran", "hebrew", "hiragana", "imperialaramaic", "inherited",
  "inscriptionalpahlavi", "inscriptionalparthian", "javanese", "kaithi", "kannada", "katakana",
  "kawi", "kayahli", "kharoshthi", "khitansmallscript", "khmer", "khojki", "khudawadi",
  "kiratrai", "lao", "latin", "lepcha", "limbu", "lineara", "linearb", "lisu", "lycian", "lydian",
  "mahajani", "makasar", "malayalam", "mandaic", "manichaean", "marchen", "masaramgondi",
  "medefaidrin", "meeteimayek", "mendekikakui", "meroiticcursive", "meroitichieroglyphs", "miao",
  "modi", "mongolian", "mro", "multani", "myanmar", "nabataean", "nagmundari", "nandinagari",
  "newa", "newtailue", "nko", "nushu", "nyiakengpuachuehmong", "ogham", "olchiki", "oldhungarian",
  "olditalic", "oldnortharabian", "oldpermic", "oldpersian", "oldsogdian", "oldsoutharabian",
  "oldturkic", "olduyghur", "olonal", "oriya", "osage", "osmanya", "pahawhhmong", "palmyrene",
  "paucinhau", "phagspa", "phoenician", "psalterpahlavi", "rejang", "runic", "samaritan",
  "saurashtra", "sharada", "shavian", "siddham", "sidetic", "signwriting", "sinhala", "sogdian",
  "sorasompeng", "soyombo", "sundanese", "sunuwar", "sylotinagri", "syriac", "tagalog",
  "tagbanwa", "taile", "taitham", "taiviet", "taiyo", "takri", "tamil", "tangsa", "tangut",
  "telugu", "thaana", "thai", "tibetan", "tifinagh", "tirhuta", "todhri", "tolongsiki", "toto",
  "tulutigalari", "ugaritic", "vai", "vithkuqi", "wancho", "warangciti", "yezidi", "yi",
  "zanabazarsquare"]

def colonClasses : List String :=
  ["alnum", "alpha", "ascii", "blank", "cntrl", "digit", "graph", "lower", "print", "punct",
  "space", "upper", "word", "xdigit"]

def plainName (name : Text) : String :=
  String.ofList ((name.map fun cell => cell.shown.toLower).filter fun char =>
    char != ' ' && char != '-' && char != '_')

def isProperty (name : Text) : Bool :=
  let name := match name with
    | .scalar '^' :: name => name
    | name => name
  let plain := plainName name
  name.all (fun cell => cell.shown.toNat < 128) &&
    (plain ∈ categories || plain ∈ categoryNames || plain ∈ scripts)

def afterProperty? : Text → Option Text
  | .scalar '\x7b' :: rest =>
    match Text.splitFirst? '\x7d' rest with
    | some (name, rest) => if isProperty name then some rest else none
    | none => none
  | cell :: rest => if isProperty [cell] then some rest else none
  | [] => none

def hexDigit? (cell : Cell) : Option Nat :=
  let char := cell.shown
  if char.isDigit then some (char.toNat - '0'.toNat)
  else if 'a' ≤ char && char ≤ 'f' then some (char.toNat - 'a'.toNat + 10)
  else if 'A' ≤ char && char ≤ 'F' then some (char.toNat - 'A'.toNat + 10)
  else none

def bracedHex? (found : Bool) (number : Nat) : Text → Option (Nat × Text)
  | [] => none
  | .scalar '\x7d' :: rest => if found then some (number, rest) else none
  | cell :: rest =>
    match hexDigit? cell with
    | none => none
    | some digit =>
      let number := number * 16 + digit
      if number ≤ 0x10FFFF then bracedHex? true number rest else none

def isOctal (cell : Cell) : Bool := '0' ≤ cell.shown && cell.shown ≤ '7'

/-- The character behind a backslash, and what follows. Only letters and digits with a meaning are
allowed; a single digit would refer back. -/
def escaped? : Text → Option (Nat × Text)
  | [] => none
  | .scalar 'x' :: .scalar '\x7b' :: rest => bracedHex? false 0 rest
  | .scalar 'x' :: high :: low :: rest =>
    match hexDigit? high, hexDigit? low with
    | some high, some low => some (high * 16 + low, rest)
    | _, _ => none
  | cell :: rest =>
    let char := cell.shown
    if isOctal cell && (char = '0' || (rest.head?.map isOctal).getD false) then
      let more := (rest.take 2).takeWhile isOctal
      some ((cell :: more).foldl (fun number cell => number * 8 + (cell.shown.toNat - '0'.toNat)) 0,
        rest.drop more.length)
    else if char = 'a' then some (7, rest)
    else if char = 't' then some (9, rest)
    else if char = 'n' then some (10, rest)
    else if char = 'v' then some (11, rest)
    else if char = 'f' then some (12, rest)
    else if char = 'r' then some (13, rest)
    else if char.toNat < 128 && !char.isAlphanum then some (char.toNat, rest)
    else none

def isClassLetter (char : Char) : Bool := "dDsSwW".toList.contains char

def classChar? : Text → Option (Nat × Text)
  | [] => none
  | .scalar '\\' :: rest => escaped? rest
  | cell :: rest => some (cell.shown.toNat, rest)

def afterRange? (text : Text) : Option Text :=
  match classChar? text with
  | none => none
  | some (low, .scalar '-' :: next :: rest) =>
    if next.isChar ']' then some (.scalar '-' :: next :: rest)
    else
      match classChar? (next :: rest) with
      | some (high, rest) => if low ≤ high then some rest else none
      | none => none
  | some (_, rest) => some rest

def afterItem? (text : Text) : Option Text :=
  match text with
  | .scalar '[' :: .scalar ':' :: rest =>
    match Text.splitAtText? ":]" rest with
    | some (name, rest) =>
      let name := match name with
        | .scalar '^' :: name => name
        | name => name
      if Text.shown name ∈ colonClasses then some rest else none
    | none => afterRange? text
  | .scalar '\\' :: .scalar letter :: rest =>
    if letter = 'p' || letter = 'P' then afterProperty? rest
    else if isClassLetter letter then some rest
    else afterRange? text
  | _ => afterRange? text

def afterBracket? : Nat → Bool → Text → Option Text
  | 0, _, _ => none
  | fuel + 1, first, text =>
    match text with
    | .scalar ']' :: rest =>
      if first then (afterItem? text).bind (afterBracket? fuel false) else some rest
    | _ => (afterItem? text).bind (afterBracket? fuel false)

def afterClass? (text : Text) : Option Text :=
  let text := match text with
    | .scalar '^' :: text => text
    | text => text
  afterBracket? (text.length + 1) true text

def count? (text : Text) : Option (Nat × Text) :=
  let digits := text.takeWhile fun cell => cell.shown.isDigit
  let rest := text.drop digits.length
  match digits with
  | [] => none
  | first :: more =>
    if first.isChar '0' && !more.isEmpty then none
    else some (digits.foldl (fun number cell => number * 10 + (cell.shown.toNat - 48)) 0, rest)

structure Bounds where
  least : Nat
  most : Option Nat
deriving Repr, DecidableEq, Inhabited

def bounds? (text : Text) : Option (Bounds × Text) :=
  match count? text with
  | none => none
  | some (least, .scalar '\x7d' :: rest) => some (⟨least, some least⟩, rest)
  | some (least, .scalar ',' :: .scalar '\x7d' :: rest) => some (⟨least, none⟩, rest)
  | some (least, .scalar ',' :: rest) =>
    match count? rest with
    | some (most, .scalar '\x7d' :: rest) => some (⟨least, some most⟩, rest)
    | _ => none
  | some _ => none

def mostTimes : Nat := 1000

def Bounds.isLegal (bounds : Bounds) : Bool :=
  bounds.least ≤ mostTimes &&
    match bounds.most with
    | some most => most ≤ mostTimes && bounds.least ≤ most
    | none => true

def Bounds.times (bounds : Bounds) (times : Nat) : Nat :=
  match bounds.most with
  | some 0 => 1
  | some most => most * times
  | none => max 1 bounds.least * times

def afterFlags? (negated sawFlag : Bool) : Text → Option (Bool × Text)
  | [] => none
  | cell :: rest =>
    if "imsU".toList.contains cell.shown then afterFlags? negated true rest
    else if cell.isChar '-' then if negated then none else afterFlags? true false rest
    else if cell.isChar ':' || cell.isChar ')' then
      if negated && !sawFlag then none else some (cell.isChar ':', rest)
    else none

def afterGroupName? (text : Text) : Option Text :=
  match Text.splitFirst? '>' text with
  | some (name, rest) =>
    if !name.isEmpty && name.all (fun cell => cell.isChar '_' || cell.shown.isAlphanum) then
      some rest
    else none
  | none => none

def afterOpening? : Text → Option (Bool × Text)
  | .scalar 'P' :: .scalar '<' :: rest => (afterGroupName? rest).map fun rest => (true, rest)
  | .scalar '<' :: rest => (afterGroupName? rest).map fun rest => (true, rest)
  | text => afterFlags? false false text

/-- A group as far as it has been read: how often parts of it are repeated, and those of its last
part, if there is one that can be repeated. -/
structure Group where
  times : Nat
  last : Option Nat
deriving Repr, DecidableEq, Inhabited

namespace Group

def start : Group := ⟨1, none⟩

def add (group : Group) (times : Nat) : Group := ⟨max group.times times, some times⟩

end Group

structure Place where
  around : List Group
  here : Group
  repeated : Bool
deriving Repr, DecidableEq, Inhabited

namespace Place

def add (place : Place) (times : Nat) : Place := ⟨place.around, place.here.add times, false⟩

def enter (place : Place) : Place := ⟨place.here :: place.around, .start, false⟩

def leave? (place : Place) : Option Place :=
  match place.around with
  | outer :: around => some ⟨around, outer.add place.here.times, false⟩
  | [] => none

def branch (place : Place) : Place :=
  { place with here := ⟨place.here.times, none⟩, repeated := false }

def again? (place : Place) (bounds : Bounds) : Option Place :=
  if place.repeated then none
  else
    match place.here.last with
    | none => none
    | some times =>
      let times := bounds.times times
      let counted := 2 ≤ bounds.least || (bounds.most.map fun most => decide (2 ≤ most)).getD false
      if counted && mostTimes < times then none
      else some ⟨place.around, place.here.add times, true⟩

end Place

def withoutLazy : Text → Text
  | .scalar '?' :: rest => rest
  | text => text

def addLiteral (place : Place) (text : Text) : Place :=
  if text.isEmpty then { place with repeated := false } else place.add 1

def escapeStep? (place : Place) (text : Text) : Option (Place × Text) :=
  match text with
  | .scalar letter :: rest =>
    if letter = 'A' || letter = 'b' || letter = 'B' || letter = 'z' then some (place.add 1, rest)
    else if letter = 'Q' then
      let (literal, rest) := (Text.splitAtText? "\\E" rest).getD (rest, [])
      some (addLiteral place literal, rest)
    else if letter = 'p' || letter = 'P' then
      (afterProperty? rest).map fun rest => (place.add 1, rest)
    else if isClassLetter letter then some (place.add 1, rest)
    else (escaped? text).map fun (_, rest) => (place.add 1, rest)
  | _ => none

def step? (place : Place) (cell : Cell) (rest : Text) : Option (Place × Text) :=
  let star : Bounds := ⟨0, none⟩
  if cell.isChar '(' then
    match rest with
    | .scalar '?' :: rest =>
      (afterOpening? rest).map fun (opens, rest) =>
        (if opens then place.enter else { place with repeated := false }, rest)
    | _ => some (place.enter, rest)
  else if cell.isChar ')' then place.leave?.map fun place => (place, rest)
  else if cell.isChar '|' then some (place.branch, rest)
  else if cell.isChar '[' then (afterClass? rest).map fun rest => (place.add 1, rest)
  else if cell.isChar '*' || cell.isChar '+' || cell.isChar '?' then
    (place.again? star).map fun place => (place, withoutLazy rest)
  else if cell.isChar '\x7b' then
    match bounds? rest with
    | none => some (place.add 1, rest)
    | some (bounds, rest) =>
      if bounds.isLegal then (place.again? bounds).map fun place => (place, withoutLazy rest)
      else none
  else if cell.isChar '\\' then escapeStep? place rest
  else some (place.add 1, rest)

/-- Whether the rest of a pattern is well formed; all groups have to be closed. -/
def closes : Nat → Place → Text → Bool
  | _, place, [] => place.around.isEmpty
  | 0, _, _ => false
  | fuel + 1, place, cell :: rest =>
    match step? place cell rest with
    | some (place, rest) => closes fuel place rest
    | none => false

end Pattern

def isPattern (text : Text) : Bool := Pattern.closes text.length ⟨[], .start, false⟩ text

end Avro.Text
