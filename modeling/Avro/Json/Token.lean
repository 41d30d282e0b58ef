import Avro.Text.Utf8

/-!
# Feeding bytes to a scanner

A document is read through a buffer. The buffer is filled piece by piece, it doubles when it was
full, and behind the bytes at hand a NUL is seen. The scanner keeps a count of the bytes at hand
which is not always right: a stray byte that is replaced is counted once too often, and after a
refill the count stops at the first NUL. The character in its place makes the buffer longer, but
not its capacity: after many stray bytes the buffer that is to replace a full one can be too short.
-/

set_option autoImplicit false

namespace Avro.Json

structure Feed where
  ahead : List UInt8
  /-- How many bytes the scanner takes to be at hand. -/
  claimed : Nat
  behind : Nat
  /-- How many bytes of the buffer follow those at hand, with the NUL that closes it. -/
  room : Nat
  capacity : Nat
  isFull : Bool
  pending : List UInt8
  isOver : Bool
deriving DecidableEq, Repr

namespace Feed

def start (bytes : List UInt8) : Feed := ⟨[], 0, 0, 512, 512, false, bytes, false⟩

def size (feed : Feed) : Nat := feed.ahead.length + feed.pending.length

def refills (feed : Feed) : Nat := feed.pending.length + (!feed.isOver).toNat

/-- A bound on the steps of a scan: each takes a byte or refills. -/
def work (feed : Feed) : Nat := feed.size + feed.refills

def kept (feed : Feed) : List UInt8 := (feed.ahead.take feed.claimed).takeWhile (· != 0)

/-- The capacity that follows a full buffer: twice as much, and again if that leaves no space. -/
def nextCapacity (feed : Feed) : Nat :=
  if feed.capacity * 2 = feed.behind + feed.kept.length + 1 then feed.capacity * 4
  else feed.capacity * 2

/-- The length of the buffer that takes the next piece. -/
def extent (feed : Feed) : Nat :=
  if feed.isFull then feed.nextCapacity else feed.behind + feed.ahead.length + feed.room

def space (feed : Feed) : Nat := feed.extent - 1 - feed.behind - feed.kept.length

def piece (feed : Feed) : List UInt8 := feed.pending.take feed.space

def filled (feed : Feed) : List UInt8 :=
  feed.kept ++ feed.piece ++ feed.ahead.drop (feed.kept.length + feed.piece.length)

def refilled (feed : Feed) : Feed where
  ahead := feed.filled
  claimed := feed.kept.length + feed.piece.length
  behind := feed.behind
  room := feed.extent - feed.behind - feed.filled.length
  capacity := if feed.isFull then feed.nextCapacity else feed.capacity
  isFull := feed.piece.length == feed.space
  pending := feed.pending.drop feed.space
  isOver := feed.pending.isEmpty

/-- Reads the next piece. Meeting the end counts as a refill, too, once. -/
def refill? (feed : Feed) : Option Feed :=
  if feed.isOver || feed.space == 0 then none else some feed.refilled

/-- The next piece would go behind the end of the buffer. -/
def isLost (feed : Feed) : Bool := !feed.isOver && feed.space == 0

theorem length_takeWhile_le (keep : UInt8 → Bool) (bytes : List UInt8) :
    (bytes.takeWhile keep).length ≤ bytes.length :=
  (List.takeWhile_sublist keep).length_le

theorem length_kept_le (feed : Feed) : feed.kept.length ≤ feed.ahead.length := by
  have inner := length_takeWhile_le (· != 0) (feed.ahead.take feed.claimed)
  rw [List.length_take] at inner
  rw [kept]
  omega

theorem size_refilled_le (feed : Feed) : feed.refilled.size ≤ feed.size := by
  have bound := feed.length_kept_le
  simp only [size, refilled, filled, piece, List.length_append, List.length_take, List.length_drop]
  omega

theorem size_refill?_le {feed more : Feed} (filled : feed.refill? = some more) :
    more.size ≤ feed.size := by
  rw [refill?] at filled
  split at filled
  · cases filled
  · cases filled
    exact feed.size_refilled_le

theorem refills_refill?_lt {feed more : Feed} (filled : feed.refill? = some more) :
    more.refills < feed.refills := by
  rw [refill?] at filled
  split at filled
  · cases filled
  · rename_i going
    cases filled
    simp only [Bool.or_eq_true, beq_iff_eq, not_or, Bool.not_eq_true] at going
    obtain ⟨unfinished, positive⟩ := going
    have after : feed.refilled.refills =
        feed.pending.length - feed.space + (!feed.pending.isEmpty).toNat := by
      simp only [refills, refilled, List.length_drop]
    have before : feed.refills = feed.pending.length + 1 := by simp [refills, unfinished]
    rw [after, before]
    cases feed.pending with
    | nil => exact Nat.lt_add_one_of_le (Nat.le_of_eq (Nat.zero_sub _))
    | cons _ rest =>
      rw [List.length_cons, List.isEmpty_cons, Bool.not_false, Bool.toNat_true]
      omega

theorem work_refill?_lt {feed more : Feed} (filled : feed.refill? = some more) :
    more.work < feed.work := by
  have := size_refill?_le filled
  have := refills_refill?_lt filled
  rw [work, work]
  omega

def head (feed : Feed) : UInt8 := feed.ahead.headD 0

def settle (feed : Feed) : Feed :=
  if feed.head != 0 then feed
  else
    match _filled : feed.refill? with
    | none => feed
    | some more => more.settle
termination_by feed.refills
decreasing_by exact refills_refill?_lt _filled

theorem work_settle_le (feed : Feed) : feed.settle.work ≤ feed.work := by
  fun_induction settle feed with
  | case1 => exact Nat.le_refl _
  | case2 => exact Nat.le_refl _
  | case3 feed empty more filled ih =>
    have := work_refill?_lt filled
    omega

def advance (feed : Feed) (count output : Nat) : Feed :=
  { feed with
    ahead := feed.ahead.drop count
    claimed := feed.claimed - count
    behind := feed.behind + output }

def moveTo (feed : Feed) (behind : Nat) : Feed := { feed with behind }

theorem work_moveTo (feed : Feed) (behind : Nat) : (feed.moveTo behind).work = feed.work := rfl

theorem work_advance_le (feed : Feed) (count output : Nat) :
    (feed.advance count output).work ≤ feed.work := by
  simp only [work, size, refills, advance, List.length_drop]
  omega

theorem length_ahead_pos {feed : Feed} (present : feed.head ≠ 0) : 0 < feed.ahead.length := by
  cases bytes : feed.ahead with
  | nil => simp [head, bytes] at present
  | cons byte rest => simp

theorem work_advance_lt {feed : Feed} {count : Nat} (output : Nat) (positive : 0 < count)
    (present : feed.head ≠ 0) : (feed.advance count output).work < feed.work := by
  have := length_ahead_pos present
  simp only [work, size, refills, advance, List.length_drop]
  omega

/-- Moves past a stray byte. The character that replaces it takes three bytes, and all three are
counted as if they had been at hand. -/
def skipStray (feed : Feed) : Feed :=
  { feed with ahead := feed.ahead.drop 1, behind := feed.behind + 3 }

theorem work_skipStray_lt {feed : Feed} (present : feed.head ≠ 0) :
    feed.skipStray.work < feed.work := by
  have := length_ahead_pos present
  simp only [work, size, refills, skipStray, List.length_drop]
  omega

/-- Refills until some number of bytes is taken to be at hand. -/
def fetch? (feed : Feed) (count : Nat) : Option Feed :=
  if count ≤ feed.claimed then some feed
  else
    match _filled : feed.refill? with
    | none => none
    | some more => more.fetch? count
termination_by feed.refills
decreasing_by exact refills_refill?_lt _filled

theorem work_fetch?_le {feed more : Feed} {count : Nat} (fetched : feed.fetch? count = some more) :
    more.work ≤ feed.work := by
  fun_induction fetch? feed count with
  | case1 => cases fetched; exact Nat.le_refl _
  | case2 => cases fetched
  | case3 feed short next filled ih =>
    have := work_refill?_lt filled
    have := ih fetched
    omega

def isSecond (first second : UInt8) : Bool :=
  let low : UInt8 := if first == 0xE0 then 0xA0 else if first == 0xF0 then 0x90 else 0x80
  let high : UInt8 := if first == 0xED then 0x9F else if first == 0xF4 then 0x8F else 0xBF
  low ≤ second && second ≤ high

def isDecided (bytes : List UInt8) : Bool :=
  match bytes with
  | [] => false
  | first :: rest =>
    Text.claimedLength first ≤ bytes.length ||
      match rest with
      | [] => false
      | second :: rest =>
        !isSecond first second ||
          match rest with
          | [] => false
          | third :: _ => third < 0x80 || 0xBF < third

def isNeverFirst (byte : UInt8) : Bool := byte < 0xC2 || 0xF4 < byte

def isCut (feed : Feed) : Bool :=
  feed.isFull && !isNeverFirst feed.head && !isDecided feed.ahead

end Feed

/-!
## JSON tokens

The scanner is lenient: white space, commas and colons may stand anywhere, brackets need not
match, and the text of a number is not checked. It never looks at nesting, so a key is an ordinary
string here; `Token.roles` tells keys from values.
-/

inductive Token where
  | openObject
  | closeObject
  | openArray
  | closeArray
  | str (text : Text)
  | num (literal : Text)
  | bool (value : Bool)
  | null
deriving DecidableEq, Repr

inductive Word where
  | true
  | false
  | null
deriving DecidableEq, Repr

namespace Word

def tail : Word → List Char
  | .true => ['r', 'u', 'e']
  | .false => ['a', 'l', 's', 'e']
  | .null => ['u', 'l', 'l']

def label : Word → Text
  | .true => "bool(true)"
  | .false => "bool(false)"
  | .null => "null"

def token : Word → Token
  | .true => .bool Bool.true
  | .false => .bool Bool.false
  | .null => .null

end Word

inductive ScanError where
  | unknownByte (byte : UInt8)
  | wrongLetter (byte : UInt8) (word : Word)
  | missingLetter (word : Word)
  | openString
  | openEscape
  | shortEscape
  | outOfRange
deriving DecidableEq, Repr

namespace ScanError

def message : ScanError → Text
  | .unknownByte byte => "json: invalid character " ++ shownByte byte ++ " as token"
  | .wrongLetter byte word => "json: invalid character " ++ shownByte byte ++ " as " ++ word.label
  | .missingLetter word => "json: invalid character as " ++ word.label
  | .openString => "json: string unexpected end of JSON input"
  | .openEscape => "json: invalid character as escaped string"
  | .shortEscape => "json: invalid character u as escaped string"
  | .outOfRange => "json: slice bounds out of range"
where
  shownByte (byte : UInt8) : Text := [.scalar (Char.ofNat byte.toNat)]

end ScanError

def asciiCell (byte : UInt8) : Cell := .scalar (Char.ofNat byte.toNat)

def isByte (byte : UInt8) (char : Char) : Bool := byte.toNat == char.toNat

/-- What is wrong where the next piece is missing. -/
def Feed.fault (feed : Feed) (error : ScanError) : ScanError :=
  if feed.isLost then .outOfRange else error

/-- Reads the remaining letters of a word. Where no byte is at hand one refill is tried, and then
whatever stands in the place of the letter is taken for it. -/
def scanWord (word : Word) : List Char → Feed → Except ScanError Feed
  | [], feed => .ok feed
  | letter :: letters, feed =>
    if isByte feed.head letter then scanWord word letters (feed.advance 1 1)
    else if feed.head == 0 then
      match feed.refill? with
      | some more => scanWord word letters (more.advance 1 1)
      | none => .error (feed.fault (.missingLetter word))
    else .error (.wrongLetter feed.head word)

def hexDigit (byte : UInt8) : Nat :=
  let code := byte.toNat
  if 48 ≤ code && code ≤ 57 then code - 48
  else if 65 ≤ code && code ≤ 70 then code - 55
  else if 97 ≤ code && code ≤ 102 then code - 87
  else 0

def hexNumber (bytes : List UInt8) (offset : Nat) : Nat :=
  [0, 1, 2, 3].foldl (fun acc index => acc * 16 + hexDigit (bytes.getD (offset + index) 0)) 0

def isSurrogate (unit : Nat) : Bool := 0xD800 ≤ unit && unit < 0xE000

def pairScalar? (high low : Nat) : Option Char :=
  if 0xD800 ≤ high && high < 0xDC00 && 0xDC00 ≤ low && low < 0xE000 then
    some (Char.ofNat (0x10000 + (high - 0xD800) * 0x400 + (low - 0xDC00)))
  else none

/-- Reads what follows a first surrogate: the scalar meant and how many bytes it takes after `\u`.
The partner has to follow at once, with one byte more at hand, else the replacement character is
meant. -/
def scanPair (feed : Feed) (unit : Nat) : Char × Nat :=
  if feed.claimed < 11 || (feed.ahead.drop 4).take 2 != [92, 117] then ('�', 4)
  else
    match pairScalar? unit (hexNumber feed.ahead 6) with
    | some char => (char, 10)
    | none => ('�', 4)

def forPair (feed : Feed) : Feed :=
  if feed.claimed < 11 then feed.refill?.getD feed else feed

/-- What an escape leaves in memory behind the end of the buffer, if it takes the closing NUL for its
last digit. The scan goes on there. The bytes are not kept in the next buffer, which has NULs in
their place; only those that the scan just passes do no harm. -/
def overrun (start : Nat) (feed : Feed) (char : Char) : Except ScanError (Text × Feed) :=
  let stale := ((92 :: 117 :: feed.ahead).drop char.utf8Size).takeWhile (· != 0)
  if stale.any fun byte => 0x80 ≤ byte || isByte byte '"' || isByte byte '\\' then
    .error .outOfRange
  else
    .ok (.scalar char :: stale.map fun _ => .scalar '\x00',
      { feed with
        ahead := [], claimed := 0, behind := start + char.utf8Size + stale.length, room := 0 })

def putScalar (start : Nat) (feed : Feed) (meaning : Char × Nat) :
    Except ScanError (Text × Feed) :=
  let atHand := feed.ahead.length + feed.room
  if meaning.2 < atHand then
    .ok ([.scalar meaning.1],
      (feed.advance meaning.2 0).moveTo (start + meaning.1.utf8Size))
  else if meaning.2 = atHand then overrun start feed meaning.1
  else .error .outOfRange

/-- Reads the digits after `\u`: the text meant, and the document behind it. One byte more than
the digits has to be at hand. The backslash was at `start`. -/
def scanUnicode (start : Nat) (feed : Feed) : Except ScanError (Text × Feed) :=
  match feed.fetch? 5 with
  | none => .error (feed.fault .shortEscape)
  | some feed =>
    let unit := hexNumber feed.ahead 0
    if isSurrogate unit then
      let paired := forPair feed
      if feed.claimed < 11 && feed.isLost || paired.ahead.length + paired.room ≤ 4 then
        .error .outOfRange
      else putScalar start paired (scanPair paired unit)
    else putScalar start feed (Char.ofNat unit, 4)

def escaped? : Cell → Option Char
  | .scalar '"' => some '"'
  | .scalar '\\' => some '\\'
  | .scalar '/' => some '/'
  | .scalar 'b' => some '\x08'
  | .scalar 'f' => some '\x0c'
  | .scalar 'n' => some '\n'
  | .scalar 'r' => some '\r'
  | .scalar 't' => some '\t'
  | _ => none

def scanEscape (start : Nat) (feed : Feed) : Except ScanError (Text × Feed) :=
  let feed := feed.settle
  if feed.head == 0 then .error (feed.fault .openEscape)
  else if isByte feed.head 'u' then scanUnicode start (feed.advance 1 1)
  else
    match escaped? (asciiCell feed.head) with
    | some char => .ok ([.scalar char], (feed.advance 1 0).moveTo (start + 1))
    | none => .error .openString

def scanWide (feed : Feed) : Char × Feed :=
  match Text.scalar? (feed.ahead.take (Text.claimedLength feed.head)) with
  | some char => (char, feed.advance char.utf8Size char.utf8Size)
  | none => ('�', feed.skipStray)

theorem work_forPair_le (feed : Feed) : (forPair feed).work ≤ feed.work := by
  rw [forPair]
  split
  · cases filled : feed.refill? with
    | none => exact Nat.le_refl _
    | some more => exact Nat.le_of_lt (Feed.work_refill?_lt filled)
  · exact Nat.le_refl _

theorem work_putScalar_le {start : Nat} {feed rest : Feed} {meaning : Char × Nat} {content : Text}
    (put : putScalar start feed meaning = .ok (content, rest)) : rest.work ≤ feed.work := by
  simp only [putScalar, overrun] at put
  split at put
  · cases put
    rw [Feed.work_moveTo]
    exact feed.work_advance_le meaning.2 0
  · split at put
    · split at put
      · cases put
      · cases put
        simp only [Feed.work, Feed.size, Feed.refills, List.length_nil]
        omega
    · cases put

theorem work_scanUnicode_le {start : Nat} {feed rest : Feed} {content : Text}
    (read : scanUnicode start feed = .ok (content, rest)) : rest.work ≤ feed.work := by
  simp only [scanUnicode] at read
  split at read
  · cases read
  · rename_i more fetched
    have bound := Feed.work_fetch?_le fetched
    split at read
    · split at read
      · cases read
      · have := work_putScalar_le read
        have := work_forPair_le more
        omega
    · have := work_putScalar_le read
      omega

theorem work_scanEscape_le {start : Nat} {feed rest : Feed} {content : Text}
    (read : scanEscape start feed = .ok (content, rest)) : rest.work ≤ feed.work := by
  have settled := feed.work_settle_le
  simp only [scanEscape] at read
  split at read
  · cases read
  · split at read
    · have := work_scanUnicode_le read
      have := Feed.work_advance_le feed.settle 1 1
      omega
    · split at read
      · cases read
        rw [Feed.work_moveTo]
        have := Feed.work_advance_le feed.settle 1 0
        omega
      · cases read

theorem work_scanWide_lt {feed : Feed} (present : feed.head ≠ 0) :
    (scanWide feed).2.work < feed.work := by
  rw [scanWide]
  split
  · exact Feed.work_advance_lt _ (Char.utf8Size_pos _) present
  · exact Feed.work_skipStray_lt present

/-- Reads a string after its opening quote, from a settled document. Control characters are allowed
as they are, except NUL, which counts as the end of the text. -/
def scanString (feed : Feed) : Except ScanError (Text × Feed) :=
  if _present : feed.head = 0 then .error (feed.fault .openString)
  else if isByte feed.head '"' then .ok ([], feed.advance 1 1)
  else if isByte feed.head '\\' then
    match _read : scanEscape feed.behind (feed.advance 1 1) with
    | .error error => .error error
    | .ok (content, rest) =>
      (scanString rest.settle).map fun (tail, left) => (content ++ tail, left)
  else if feed.head < 0x80 then
    (scanString (feed.advance 1 1).settle).map fun (tail, left) =>
      (asciiCell feed.head :: tail, left)
  else if feed.isCut then
    match _filled : feed.refill? with
    | none => .error (feed.fault .openString)
    | some more => scanString more.settle
  else
    (scanString (scanWide feed).2.settle).map fun (tail, left) =>
      (.scalar (scanWide feed).1 :: tail, left)
termination_by feed.work
decreasing_by
  · have := rest.work_settle_le
    have := work_scanEscape_le _read
    have := Feed.work_advance_lt 1 (by decide : 0 < 1) _present
    omega
  · have := (feed.advance 1 1).work_settle_le
    have := Feed.work_advance_lt 1 (by decide : 0 < 1) _present
    omega
  · have := more.work_settle_le
    have := Feed.work_refill?_lt _filled
    omega
  · have := (scanWide feed).2.work_settle_le
    have := work_scanWide_lt _present
    omega

def isNumberCell : Cell → Bool
  | .scalar char =>
    char.isDigit || char == '.' || char == 'e' || char == 'E' || char == '+' || char == '-'
  | .stray _ => false

def scanNumber (feed : Feed) : Text × Feed :=
  if _present : feed.head = 0 then ([], feed)
  else if isNumberCell (asciiCell feed.head) then
    (asciiCell feed.head :: (scanNumber (feed.advance 1 1).settle).1,
      (scanNumber (feed.advance 1 1).settle).2)
  else ([], feed)
termination_by feed.work
decreasing_by
  all_goals
    have := (feed.advance 1 1).work_settle_le
    have := Feed.work_advance_lt 1 (by decide : 0 < 1) _present
    omega

def isSeparator (byte : UInt8) : Bool :=
  isByte byte ' ' || isByte byte '\t' || isByte byte '\n' || isByte byte '\r' || isByte byte ',' ||
    isByte byte ':'

def startsNumber (byte : UInt8) : Bool :=
  isByte byte '-' || (48 ≤ byte && byte ≤ 57)

def bracket? (byte : UInt8) : Option Token :=
  if isByte byte '\x7b' then some .openObject
  else if isByte byte '\x7d' then some .closeObject
  else if isByte byte '[' then some .openArray
  else if isByte byte ']' then some .closeArray
  else none

def word? (byte : UInt8) : Option Word :=
  if isByte byte 't' then some .true
  else if isByte byte 'f' then some .false
  else if isByte byte 'n' then some .null
  else none

structure Scan where
  tokens : List Token
  failure : Option ScanError
deriving DecidableEq, Repr

def Scan.push (token : Token) (scan : Scan) : Scan := { scan with tokens := token :: scan.tokens }

theorem work_scanWord_le {word : Word} {letters : List Char} {feed rest : Feed}
    (read : scanWord word letters feed = .ok rest) : rest.work ≤ feed.work := by
  fun_induction scanWord word letters feed with
  | case1 => cases read; exact Nat.le_refl _
  | case2 letter letters feed matched ih =>
    have := ih read
    have := feed.work_advance_le 1 1
    omega
  | case3 letter letters feed mismatched absent more filled ih =>
    have := ih read
    have := more.work_advance_le 1 1
    have := Feed.work_refill?_lt filled
    omega
  | case4 => cases read
  | case5 => cases read

theorem work_scanNumber_le (feed : Feed) : (scanNumber feed).2.work ≤ feed.work := by
  fun_induction scanNumber feed with
  | case1 => exact Nat.le_refl _
  | case2 feed present inside ih =>
    have := feed.work_advance_le 1 1
    have := (feed.advance 1 1).work_settle_le
    simp only
    omega
  | case3 => exact Nat.le_refl _

theorem work_scanString_le {feed rest : Feed} {content : Text}
    (read : scanString feed = .ok (content, rest)) : rest.work ≤ feed.work := by
  have mapped {result : Except ScanError (Text × Feed)} {change : Text → Text} {content : Text}
      {rest : Feed}
      (read : result.map (fun (tail, left) => (change tail, left)) = .ok (content, rest)) :
      ∃ tail, result = .ok (tail, rest) := by
    cases result with
    | error error => cases read
    | ok pair =>
      obtain ⟨tail, left⟩ := pair
      cases read
      exact ⟨tail, rfl⟩
  fun_induction scanString feed generalizing content rest with
  | case1 => cases read
  | case2 feed present quote =>
    cases read
    exact feed.work_advance_le 1 1
  | case3 => cases read
  | case4 feed present quote backslash _ next escape ih =>
    obtain ⟨tail, eq⟩ := mapped read
    have := feed.work_advance_le 1 1
    have := work_scanEscape_le escape
    have := next.work_settle_le
    have := ih eq
    omega
  | case5 feed present quote backslash ascii ih =>
    obtain ⟨tail, eq⟩ := mapped read
    have := feed.work_advance_le 1 1
    have := (feed.advance 1 1).work_settle_le
    have := ih eq
    omega
  | case6 => cases read
  | case7 feed present quote backslash ascii cut more filled ih =>
    have := Feed.work_refill?_lt filled
    have := more.work_settle_le
    have := ih read
    omega
  | case8 feed present quote backslash ascii cut ih =>
    obtain ⟨tail, eq⟩ := mapped read
    have := work_scanWide_lt present
    have := (scanWide feed).2.work_settle_le
    have := ih eq
    omega

def scanFrom (feed : Feed) : Scan :=
  if _present : feed.head = 0 then ⟨[], if feed.isLost then some .outOfRange else none⟩
  else if isSeparator feed.head then scanFrom (feed.advance 1 1).settle
  else
    match bracket? feed.head with
    | some token => (scanFrom (feed.advance 1 1).settle).push token
    | none =>
      if isByte feed.head '"' then
        match _read : scanString (feed.advance 1 1).settle with
        | .ok (content, left) => (scanFrom left.settle).push (.str content)
        | .error error => ⟨[], some error⟩
      else if startsNumber feed.head then
        (scanFrom (scanNumber (feed.advance 1 1).settle).2.settle).push
          (.num (asciiCell feed.head :: (scanNumber (feed.advance 1 1).settle).1))
      else
        match word? feed.head with
        | none => ⟨[], some (.unknownByte feed.head)⟩
        | some word =>
          match _read : scanWord word word.tail (feed.advance 1 1) with
          | .ok left => (scanFrom left.settle).push word.token
          | .error error => ⟨[], some error⟩
termination_by feed.work
decreasing_by
  all_goals have first := Feed.work_advance_lt 1 (by decide : 0 < 1) _present
  all_goals have second := (feed.advance 1 1).work_settle_le
  · omega
  · omega
  · have := work_scanString_le _read
    have := left.work_settle_le
    omega
  · have := work_scanNumber_le (feed.advance 1 1).settle
    have := (scanNumber (feed.advance 1 1).settle).2.work_settle_le
    omega
  · have := work_scanWord_le _read
    have := left.work_settle_le
    omega

def scan (text : Text) : Scan := scanFrom (Feed.start text.toBytes).settle

/-- What encloses a position in a token list: an array, or an object that waits for a key or for
the value of one. -/
inductive Nesting where
  | array
  | object (wantsKey : Bool)
deriving DecidableEq, Repr

def valueDone : List Nesting → List Nesting
  | .object _ :: outer => .object true :: outer
  | stack => stack

/-- Marks the strings that are keys. A closing bracket ends the innermost container whatever its
kind. -/
def roles : List Nesting → List Token → List (Token × Bool)
  | _, [] => []
  | stack, .openObject :: rest => (.openObject, false) :: roles (.object true :: stack) rest
  | stack, .openArray :: rest => (.openArray, false) :: roles (.array :: stack) rest
  | stack, .closeObject :: rest => (.closeObject, false) :: roles (valueDone stack.tail) rest
  | stack, .closeArray :: rest => (.closeArray, false) :: roles (valueDone stack.tail) rest
  | .object true :: outer, .str text :: rest =>
    (.str text, true) :: roles (.object false :: outer) rest
  | stack, token :: rest => (token, false) :: roles (valueDone stack) rest

end Avro.Json
