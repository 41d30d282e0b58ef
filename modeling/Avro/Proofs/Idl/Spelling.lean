import Avro.Idl.Lexer
import Avro.Proofs.Json.Strays
import Avro.Proofs.Outcome

/-!
# The spelling of strings

The reader of inline values takes each code unit for itself, the reader of documents joins a high
unit with a low one. So the two read a string alike exactly if no such pair is in it.
-/

set_option autoImplicit false

open List

namespace Avro.Idl

open Json Text

variable {inner digits rest text : Text} {cell : Cell}

/-- A part of a string: a character, as it is or by a one-letter escape, or a code unit. -/
inductive Piece where
  | scalar (char : Char)
  | unit (code : Nat)
deriving DecidableEq, Repr

def hexCode (digits : Text) : Nat :=
  digits.foldl (fun code digit => code * 16 + (hexValue? digit).getD 0) 0

structure IsUnit (digits : Text) : Prop where
  four : digits.length = 4
  each : ∀ digit ∈ digits, (hexValue? digit).isSome = true

def pieces : Text → List Piece
  | .scalar '\\' :: .scalar 'u' :: a :: b :: c :: d :: rest =>
    .unit (hexCode [a, b, c, d]) :: pieces rest
  | .scalar '\\' :: letter :: rest =>
    .scalar ((escaped? letter).getD letter.shown) :: pieces rest
  | cell :: rest => .scalar cell.shown :: pieces rest
  | [] => []

def Piece.alone : Piece → Cell
  | .scalar char => .scalar char
  | .unit code => .scalar (charOfCode code)

def joined : List Piece → Text
  | .unit high :: .unit low :: rest =>
    match pairScalar? high low with
    | some char => .scalar char :: joined rest
    | none => .scalar (charOfCode high) :: joined (.unit low :: rest)
  | piece :: rest => piece.alone :: joined rest
  | [] => []

def hasPair : List Piece → Bool
  | .unit high :: .unit low :: rest =>
    (pairScalar? high low).isSome || hasPair (.unit low :: rest)
  | _ :: rest => hasPair rest
  | [] => false

theorem joined_of_not_hasPair {parts : List Piece} (none : hasPair parts = false) :
    joined parts = parts.map Piece.alone := by
  fun_induction joined parts with
  | case1 high low rest char found => simp [hasPair, found] at none
  | case2 high low rest lone ih =>
    simp only [hasPair, lone, Option.isSome_none, Bool.false_or] at none
    rw [ih none]
    rfl
  | case3 piece rest noPair ih =>
    have later : hasPair rest = false := by
      rwa [hasPair] at none
      exact noPair
    rw [ih later]
    rfl
  | case4 => rfl

theorem length_joined (parts : List Piece) :
    (joined parts).length ≤ parts.length ∧
      (hasPair parts = true → (joined parts).length < parts.length) := by
  fun_induction joined parts with
  | case1 high low rest char found ih =>
    simp only [length_cons]
    omega
  | case2 high low rest lone ih =>
    simp only [hasPair, lone, Option.isSome_none, Bool.false_or, length_cons] at ih ⊢
    exact ⟨Nat.succ_le_succ ih.1, fun pair => Nat.succ_lt_succ (ih.2 pair)⟩
  | case3 piece rest noPair ih =>
    have same : hasPair (piece :: rest) = hasPair rest := by
      rw [hasPair]
      exact noPair
    simp only [same, length_cons]
    exact ⟨Nat.succ_le_succ ih.1, fun pair => Nat.succ_lt_succ (ih.2 pair)⟩
  | case4 => exact ⟨Nat.le_refl 0, fun pair => nomatch pair⟩

/-- What stands in a string after its opening quote on the line, with the closing quote. -/
inductive Quoted : Text → Prop
  | close : Quoted [.scalar '"']
  | plain {cell : Cell} {rest : Text} (noQuote : cell ≠ .scalar '"')
      (noBreak : cell ≠ .scalar '\n') (noSlash : cell ≠ .scalar '\\') (follows : Quoted rest) :
      Quoted (cell :: rest)
  | letter {letter char rest} (found : escaped? letter = some char) (follows : Quoted rest) :
      Quoted (.scalar '\\' :: letter :: rest)
  | unit {digits rest : Text} (isUnit : IsUnit digits) (follows : Quoted rest) :
      Quoted (.scalar '\\' :: .scalar 'u' :: (digits ++ rest))

theorem isChar_iff {char : Char} : cell.isChar char = true ↔ cell = .scalar char :=
  beq_iff_eq

theorem pieces_plain (rest : Text) (noSlash : cell ≠ .scalar '\\') :
    pieces (cell :: rest) = .scalar cell.shown :: pieces rest := by
  rw [pieces]
  · rintro a b c d rest rfl
    exact absurd rfl noSlash
  · rintro letter rest rfl
    exact absurd rfl noSlash

theorem pieces_letter {letter char} (rest : Text) (found : escaped? letter = some char) :
    pieces (.scalar '\\' :: letter :: rest) = .scalar char :: pieces rest := by
  rw [pieces, found]
  · rfl
  · rintro a b c d rest rfl
    cases found

theorem pieces_unit (rest : Text) (isUnit : IsUnit digits) :
    pieces (.scalar '\\' :: .scalar 'u' :: (digits ++ rest)) =
      .unit (hexCode digits) :: pieces rest := by
  match digits, isUnit.four with
  | [a, b, c, d], _ => exact pieces.eq_1 ..

private theorem readHex_ok {count value code position after}
    (read : readHex count value position text = .ok (code, after, rest)) :
    ∃ digits : Text, digits.length = count ∧ text = digits ++ rest ∧
      (∀ digit ∈ digits, (hexValue? digit).isSome = true) ∧
      code = digits.foldl (fun code digit => code * 16 + (hexValue? digit).getD 0) value := by
  fun_induction readHex count value position text with
  | case1 =>
    cases read
    exact ⟨[], rfl, rfl, forall_mem_nil _, rfl⟩
  | case2 | case4 => cases read
  | case3 count value position cell text next digit found ih =>
    obtain ⟨digits, length, rfl, each, spelled⟩ := ih read
    refine ⟨cell :: digits, congrArg (· + 1) length, rfl, ?_, ?_⟩
    · exact forall_mem_cons.mpr ⟨Option.isSome_iff_exists.mpr ⟨digit, found⟩, each⟩
    · rw [spelled, foldl_cons, found]
      rfl

theorem readQuoted_ok {opening position after : Position} {content : Text}
    (read : readQuoted opening position text = .ok (content, after, rest)) :
    ∃ inner : Text, text = inner ++ rest ∧ Quoted inner ∧
      (pieces inner).map Piece.alone = content ++ [.scalar '"'] := by
  fun_induction readQuoted opening position text generalizing content after rest with
  | case1 | case3 | case4 | case5 | case6 | case9 => cases read
  | case2 =>
    rename_i quote
    cases read
    rw [isChar_iff.mp quote]
    exact ⟨[.scalar '"'], rfl, .close, rfl⟩
  | case7 =>
    rename_i slash _ _ _ isUnit _ _ _ _ hex ih
    obtain ⟨⟨content, next, left⟩, inside, same⟩ := map_ok.mp read
    cases same
    obtain ⟨inner, rfl, quoted, spelled⟩ := ih inside
    obtain ⟨digits, length, rfl, each, rfl⟩ := readHex_ok hex
    rw [isChar_iff.mp slash, isChar_iff.mp isUnit]
    refine ⟨.scalar '\\' :: .scalar 'u' :: (digits ++ inner), ?_, .unit ⟨length, each⟩ quoted, ?_⟩
    · simp
    · rw [pieces_unit _ ⟨length, each⟩, map_cons, spelled]
      rfl
  | case8 =>
    rename_i slash _ _ _ _ _ found ih
    obtain ⟨⟨content, next, left⟩, inside, same⟩ := map_ok.mp read
    cases same
    obtain ⟨inner, rfl, quoted, spelled⟩ := ih inside
    rw [isChar_iff.mp slash]
    refine ⟨_, rfl, .letter found quoted, ?_⟩
    rw [pieces_letter _ found, map_cons, spelled]
    rfl
  | case10 =>
    rename_i noQuote noBreak noSlash ih
    obtain ⟨⟨content, next, left⟩, inside, same⟩ := map_ok.mp read
    cases same
    obtain ⟨inner, rfl, quoted, spelled⟩ := ih inside
    rw [isChar_iff] at noQuote noBreak noSlash
    refine ⟨_, rfl, .plain noQuote noBreak noSlash quoted, ?_⟩
    rw [pieces_plain _ noSlash, map_cons, spelled]
    rfl

/-! ## The reader of documents -/

/-- A reader of documents that stands in a string goes past a character. -/
def Passes (feed : Feed) (char : Char) (rest : Text) : Prop :=
  ∃ next : Feed, next.Shows rest ∧ ∀ text left, scanString next.settle = .ok (text, left) →
    scanString feed = .ok (.scalar char :: text, left)

section Passing

variable {feed : Feed} {char : Char} {rest : Text}

private theorem passes_ascii (shown : feed.Shows (.scalar char :: rest)) (present : feed.ahead ≠ [])
    (ascii : char.toNat < 0x80) (noQuote : char ≠ '"') (noSlash : char ≠ '\\') :
    Passes feed char rest := by
  obtain ⟨same, next⟩ := shown.ascii present ascii
  refine ⟨feed.advance 1 1, next 1 (Nat.le_refl 1), ?_⟩
  intro text left tail
  have small : feed.head < 0x80 := by
    rw [UInt8.lt_iff_toNat_lt, same]
    exact ascii
  rw [scanString, dif_neg (shown.head_ne_zero present),
    if_neg (fun quote => noQuote ((isByte_iff same).mp quote)),
    if_neg (fun slash => noSlash ((isByte_iff same).mp slash)), if_pos small, tail,
    asciiCell_of_toNat same]
  rfl

theorem passes_of_refill (shown : feed.Shows text) (missing : feed.pending ≠ [])
    (high : ¬ feed.head < 0x80) (cut : feed.isCut = true) (later : Passes feed.refilled char rest) :
    Passes feed char rest := by
  obtain ⟨next, nextShown, read⟩ := later
  have settled :=
    Feed.settle_of_present (shown.refilled.head_ne_zero (shown.present_refilled missing))
  rw [← settled, ← (scanString_of_high high).1 _ cut (shown.refill missing).1] at read
  exact ⟨next, nextShown, read⟩

private theorem passes_wide (shown : feed.Shows (.scalar char :: rest)) (present : feed.ahead ≠ [])
    (wide : 0x80 ≤ char.toNat) : Passes feed char rest := by
  have encodes := encode_shape char
  obtain ⟨first, others, whole⟩ : ∃ first others, String.utf8EncodeChar char = first :: others :=
    exists_cons_of_ne_nil (fun none => by rw [none] at encodes; cases encodes)
  have size : char.utf8Size = (String.utf8EncodeChar char).length :=
    (String.length_utf8EncodeChar char).symm
  induction left : feed.pending.length using Nat.strongRecOn generalizing feed with
  | ind _ ih =>
    have headIs : feed.head = first := by
      rw [shown.head_eq present, toBytes_cons, Cell.bytes, whole]
      rfl
    have high : ¬ feed.head < 0x80 := headIs ▸ ((whole ▸ encodes).starts_wide wide).1
    have wholeCase := (scanString_of_high high).2
    by_cases short : feed.ahead.length < char.utf8Size
    · have missing : feed.pending ≠ [] := by
        apply shown.pending_of_short
        rw [toBytes_cons, Cell.bytes, length_append]
        omega
      have later := ih _ (left ▸ shown.pending_refilled_lt missing) shown.refilled
        (shown.present_refilled missing) rfl
      exact passes_of_refill shown missing high ((shown.isCut_iff present wide).mpr short) later
    · have uncut : feed.isCut = false :=
        Bool.eq_false_iff.mpr fun cut => short ((shown.isCut_iff present wide).mp cut)
      obtain ⟨beyond, ahead⟩ := Feed.Shows.front_prefix [.scalar char] shown (by
        rw [toBytes_cons, Cell.bytes, length_append]
        simp only [toBytes, flatMap_nil, length_nil]
        omega)
      have taken : feed.ahead.take (claimedLength feed.head) = String.utf8EncodeChar char := by
        rw [headIs, (whole ▸ encodes : Text.Encodes _ (first :: others)).claimedLength_eq, ← whole,
          ahead, toBytes_cons, Cell.bytes, append_assoc, take_left]
      have scanned : scanWide feed = (char, feed.advance char.utf8Size char.utf8Size) := by
        simp only [scanWide, taken, scalar?_encode]
      refine ⟨_, shown.advance (Nat.le_of_not_lt short) (Nat.le_refl _), ?_⟩
      intro text left read
      have found := wholeCase text left uncut (by rw [scanned]; exact read)
      rwa [scanned] at found

private theorem isDecided_of_mem {first others} (closes : 34 ∈ others) :
    Feed.isDecided (first :: others) = true := by
  have unfit : Feed.isSecond first 34 = false := by
    have low : ∀ least : UInt8, 0x80 ≤ least → ¬ least ≤ 34 := by
      simp only [UInt8.le_iff_toNat_le, UInt8.reduceToNat]
      omega
    rw [Feed.isSecond, Bool.and_eq_false_iff]
    left
    apply decide_eq_false
    apply low
    split
    · decide
    · split <;> decide
  rcases others with _ | ⟨second, _ | ⟨third, _ | ⟨fourth, more⟩⟩⟩
  · cases closes
  · rw [← mem_singleton.mp closes]
    simp [Feed.isDecided, unfit]
  · rcases mem_cons.mp closes with here | later
    · simp [Feed.isDecided, ← here, unfit]
    · rw [← mem_singleton.mp later]
      simp [Feed.isDecided]
  · have enough :
        claimedLength first ≤ (first :: second :: third :: fourth :: more).length := by
      have most : claimedLength first ≤ 4 := by
        rw [claimedLength]
        split
        · decide
        · split
          · decide
          · split <;> decide
      simp only [length_cons]
      omega
    simp only [Feed.isDecided, enough, decide_true, Bool.true_or]

private theorem passes_stray {byte : UInt8} (shown : feed.Shows (.stray byte :: rest))
    (present : feed.ahead ≠ []) (closes : .scalar '"' ∈ rest) : Passes feed '�' rest := by
  induction left : feed.pending.length using Nat.strongRecOn generalizing feed with
  | ind _ ih =>
    obtain ⟨high, unread⟩ := shown.stray present
    have wholeCase := (scanString_of_high high).2
    cases cut : feed.isCut with
    | true =>
      have missing : feed.pending ≠ [] := by
        intro none
        have whole := shown.split
        rw [none, append_nil] at whole
        have quote : 34 ∈ toBytes rest := mem_flatMap.mpr ⟨_, closes, mem_cons_self⟩
        have decided : Feed.isDecided feed.ahead = true := by
          rw [whole]
          exact isDecided_of_mem quote
        rw [Feed.isCut, decided, Bool.not_true, Bool.and_false] at cut
        cases cut
      have later := ih _ (left ▸ shown.pending_refilled_lt missing) shown.refilled
        (shown.present_refilled missing) rfl
      exact passes_of_refill shown missing high cut later
    | false =>
      have scanned : scanWide feed = ('�', feed.skipStray) := by
        simp only [scanWide, unread]
      refine ⟨_, shown.skipStray present, ?_⟩
      intro text left read
      have found := wholeCase text left cut (by rw [scanned]; exact read)
      rwa [scanned] at found

theorem passes_escape {next : Feed} {tail : Text} (shown : feed.Shows (.scalar '\\' :: tail))
    (present : feed.ahead ≠ [])
    (escape : scanEscape feed.behind (feed.advance 1 1) = .ok ([.scalar char], next))
    (follows : next.Shows rest) : Passes feed char rest := by
  refine ⟨next, follows, ?_⟩
  intro text left read
  have same := (shown.ascii present (by decide)).1
  rw [scanString, dif_neg (shown.head_ne_zero present),
    if_neg (fun quote => absurd ((isByte_iff same).mp quote) (by decide)),
    if_pos ((isByte_iff same).mpr rfl)]
  split
  · rename_i error failed
    rw [escape] at failed
    cases failed
  · rename_i found behind passed
    rw [escape] at passed
    cases passed
    rw [read]
    rfl

theorem escaped?_ascii (found : escaped? cell = some char) :
    ∃ letter : Char, cell = .scalar letter ∧ letter.toNat < 0x80 ∧ letter ≠ 'u' := by
  unfold escaped? at found
  split at found <;> cases found
  all_goals exact ⟨_, rfl, by decide, by decide⟩

private theorem passes_letter {letter : Cell} (shown : feed.Shows (.scalar '\\' :: letter :: rest))
    (present : feed.ahead ≠ []) (found : escaped? letter = some char) :
    Passes feed char rest := by
  obtain ⟨letter, rfl, small, noUnit⟩ := escaped?_ascii found
  have inside := (shown.ascii present (by decide)).2 1 (Nat.le_refl 1)
  obtain ⟨same, next⟩ := inside.settle_ascii small
  have nonzero := inside.settle_head_ne_zero (cons_ne_nil _ _)
  have sameBehind := inside.settle.2.2
  have smaller : feed.behind + 1 ≤ ((feed.advance 1 1).settle.advance 1 0).behind :=
    Nat.le_of_eq sameBehind.symm
  refine passes_escape shown present ?_ ((next 0 (Nat.zero_le 1)).moveTo smaller)
  have notUnit : isByte (feed.advance 1 1).settle.head 'u' = false :=
    Bool.eq_false_iff.mpr fun unit => noUnit ((isByte_iff same).mp unit)
  simp [scanEscape, beq_false_of_ne nonzero, notUnit, asciiCell_of_toNat same, found]

/-! ### Code units -/

theorem hexValue?_some {digit : Cell} {value : Nat} (found : hexValue? digit = some value) :
    ∃ (char : Char) (byte : UInt8), digit = .scalar char ∧ char.toNat < 0x80 ∧
      digit.bytes = [byte] ∧ hexDigit byte = value := by
  cases digit with
  | stray => cases found
  | scalar char =>
    have spelled : 48 ≤ char.toNat ∧ char.toNat ≤ 57 ∧ value = char.toNat - 48 ∨
        97 ≤ char.toNat ∧ char.toNat ≤ 102 ∧ value = char.toNat - 87 ∨
        65 ≤ char.toNat ∧ char.toNat ≤ 70 ∧ value = char.toNat - 55 := by
      simp only [hexValue?, Bool.and_eq_true, decide_eq_true_eq, Char.le_def,
        UInt32.le_iff_toNat_le] at found
      split at found
      · rename_i digit
        cases found
        exact .inl ⟨(isDigit_code digit).1, (isDigit_code digit).2, rfl⟩
      split at found
      · rename_i bounds
        cases found
        exact .inr (.inl ⟨bounds.1, bounds.2, rfl⟩)
      split at found
      · rename_i bounds
        cases found
        exact .inr (.inr ⟨bounds.1, bounds.2, rfl⟩)
      · cases found
    have small : char.toNat < 0x80 := by omega
    obtain ⟨byte, written, same⟩ := bytes_ascii small
    refine ⟨char, byte, rfl, small, written, ?_⟩
    simp only [hexDigit, same, Bool.and_eq_true, decide_eq_true_eq]
    rcases spelled with ⟨low, high, rfl⟩ | ⟨low, high, rfl⟩ | ⟨low, high, rfl⟩
    · rw [if_pos ⟨low, high⟩]
    · rw [if_neg (by omega), if_neg (by omega), if_pos ⟨low, high⟩]
    · rw [if_neg (by omega), if_pos ⟨low, high⟩]

private theorem toBytes_digits (each : ∀ digit ∈ digits, (hexValue? digit).isSome = true) :
    digits.toBytes.map hexDigit = digits.map fun digit => (hexValue? digit).getD 0 := by
  induction digits with
  | nil => rfl
  | cons _ _ ih =>
    obtain ⟨here, later⟩ := forall_mem_cons.mp each
    obtain ⟨value, found⟩ := Option.isSome_iff_exists.mp here
    obtain ⟨_, byte, _, _, written, reads⟩ := hexValue?_some found
    rw [toBytes_cons, written, singleton_append, map_cons, ih later, reads,
      map_cons, found]
    rfl

theorem IsUnit.hexNumber (isUnit : IsUnit digits) (more : List UInt8) :
    digits.toBytes.length = 4 ∧ hexNumber (digits.toBytes ++ more) 0 = hexCode digits := by
  have values := toBytes_digits isUnit.each
  have length : digits.toBytes.length = 4 := by
    have same := congrArg List.length values
    rwa [length_map, length_map, isUnit.four] at same
  refine ⟨length, ?_⟩
  rw [hexCode, ← foldl_map, ← values]
  match digits.toBytes, length with
  | [a, b, c, d], _ => rfl

private theorem hexNumber_append_right (front bytes : List UInt8) :
    hexNumber (front ++ bytes) front.length = hexNumber bytes 0 := by
  have same (index : Nat) :
      (front ++ bytes).getD (front.length + index) 0 = bytes.getD (0 + index) 0 := by
    rw [getD_eq_getElem?_getD, getD_eq_getElem?_getD, Nat.zero_add,
      getElem?_append_right (Nat.le_add_right _ _), Nat.add_sub_cancel_left]
  simp only [hexNumber, foldl_cons, foldl_nil, same]

theorem IsUnit.ascii (isUnit : IsUnit digits) :
    ∀ digit ∈ digits, ∃ char : Char, digit = .scalar char ∧ char.toNat < 0x80 := by
  intro digit member
  obtain ⟨value, found⟩ := Option.isSome_iff_exists.mp (isUnit.each digit member)
  obtain ⟨char, _, same, small, _⟩ := hexValue?_some found
  exact ⟨char, same, small⟩

variable {digits : Text}

theorem scanEscape_unicode (shown : feed.Shows (.scalar '\\' :: .scalar 'u' :: (digits ++ rest)))
    (present : feed.ahead ≠ []) (isUnit : IsUnit digits) (more : rest ≠ []) :
    ∃ full : Feed, full.Shows (digits ++ rest) ∧ 4 ≤ full.ahead.length ∧
      full.behind = feed.behind + 2 ∧
      scanEscape feed.behind (feed.advance 1 1) =
        if isSurrogate (hexCode digits) then
          putScalar feed.behind (forPair full) (scanPair (forPair full) (hexCode digits))
        else putScalar feed.behind full (Char.ofNat (hexCode digits), 4) := by
  have inside := (shown.ascii present (by decide)).2 1 (Nat.le_refl 1)
  obtain ⟨same, next⟩ := inside.settle_ascii (by decide)
  have nonzero := inside.settle_head_ne_zero (cons_ne_nil _ _)
  have enough : 4 + 1 ≤ (toBytes (digits ++ rest)).length := by
    have positive := length_pos_iff.mpr (toBytes_ne_nil more)
    rw [toBytes_append, length_append, (isUnit.hexNumber []).1]
    omega
  obtain ⟨full, fetched, fullShown, atHand, kept⟩ := (next 1 (Nat.le_refl 1)).fetch enough
  have behind : full.behind = feed.behind + 2 := by
    rw [kept]
    change (feed.advance 1 1).settle.behind + 1 = _
    rw [inside.settle.2.2]
    rfl
  refine ⟨full, fullShown, atHand, behind, ?_⟩
  obtain ⟨length, spelled⟩ := isUnit.hexNumber []
  obtain ⟨beyond, ahead⟩ := fullShown.front_prefix digits (by rw [length]; exact atHand)
  have unit : hexNumber full.ahead 0 = hexCode digits := by
    rw [ahead]
    exact (isUnit.hexNumber beyond).2
  have atUnit : isByte (feed.advance 1 1).settle.head 'u' = true := (isByte_iff same).mpr rfl
  have beside : ¬ (forPair full).ahead.length + (forPair full).room ≤ 4 := by
    obtain ⟨paired, _, grown, _⟩ := fullShown.forPair (length_pos_iff.mp (by omega))
    have roomy := paired.roomy
    omega
  simp [scanEscape, beq_false_of_ne nonzero, atUnit, scanUnicode, fetched, unit, fullShown.inRange,
    beside]

theorem putScalar_shows {start : Nat} {full : Feed} (front : Text)
    (each : ∀ cell ∈ front, ∃ char : Char, cell = .scalar char ∧ char.toNat < 0x80)
    (shown : full.Shows (front ++ rest)) (atHand : front.length ≤ full.ahead.length)
    (long : 4 ≤ front.length) (behind : full.behind = start + 2) (char : Char) :
    ∃ next, putScalar start full (char, front.length) = .ok ([.scalar char], next) ∧
      next.Shows rest := by
  have smaller : start + char.utf8Size ≤ (full.advance front.length front.length).behind := by
    have size := char.utf8Size_le_four
    change _ ≤ full.behind + front.length
    omega
  have roomy := shown.roomy
  refine ⟨_, ?_, (shown.advance_ascii front each atHand).moveTo smaller⟩
  rw [putScalar]
  exact if_pos (by dsimp only; omega)

theorem passes_alone (shown : feed.Shows (.scalar '\\' :: .scalar 'u' :: (digits ++ rest)))
    (present : feed.ahead ≠ []) (isUnit : IsUnit digits) (more : rest ≠ [])
    (lone : ∀ full : Feed, full.Shows (digits ++ rest) →
      (11 ≤ (toBytes (digits ++ rest)).length → 11 ≤ full.claimed ∧ 10 ≤ full.ahead.length) →
      4 ≤ full.ahead.length → scanPair full (hexCode digits) = ('�', 4)) :
    Passes feed (charOfCode (hexCode digits)) rest := by
  obtain ⟨full, fullShown, atHand, behind, escape⟩ :=
    scanEscape_unicode shown present isUnit more
  have ascii := isUnit.ascii
  rw [charOfCode]
  split at escape
  · rename_i surrogate
    have nonempty : full.ahead ≠ [] := length_pos_iff.mp (by omega)
    obtain ⟨paired, sameBehind, grown, enough⟩ := fullShown.forPair nonempty
    have longer : 4 ≤ (forPair full).ahead.length := Nat.le_trans atHand grown
    rw [lone _ paired enough longer] at escape
    obtain ⟨_, put, passed⟩ := putScalar_shows digits ascii paired (isUnit.four ▸ longer)
      (Nat.le_of_eq isUnit.four.symm) (sameBehind.trans behind) '�'
    rw [isUnit.four] at put
    rw [if_pos surrogate]
    exact passes_escape shown present (escape.trans put) passed
  · rename_i plain
    obtain ⟨_, put, passed⟩ := putScalar_shows digits ascii fullShown (isUnit.four ▸ atHand)
      (Nat.le_of_eq isUnit.four.symm) behind (Char.ofNat (hexCode digits))
    rw [isUnit.four] at put
    rw [if_neg plain]
    exact passes_escape shown present (escape.trans put) passed

private theorem scanPair_other (code : Nat) {full : Feed} (shown : full.Shows (digits ++ rest))
    (isUnit : IsUnit digits) (atHand : 4 ≤ full.ahead.length)
    (other : ∀ later, rest ≠ .scalar '\\' :: .scalar 'u' :: later) :
    scanPair full code = ('�', 4) := by
  have length := (isUnit.hexNumber []).1
  obtain ⟨beyond, ahead⟩ := shown.front_prefix digits (by rw [length]; exact atHand)
  have following : beyond ++ full.pending = toBytes rest := by
    have whole := shown.split
    rw [ahead, toBytes_append, append_assoc] at whole
    exact append_cancel_left whole
  rw [scanPair, if_pos]
  simp only [Bool.or_eq_true, bne_iff_ne]
  right
  intro pair
  rw [ahead, ← length, drop_left] at pair
  obtain ⟨more, rfl⟩ : ∃ more, beyond = 92 :: 117 :: more := by
    match beyond, pair with
    | first :: second :: more, pair =>
      cases pair
      exact ⟨more, rfl⟩
  obtain ⟨tail, slash, tailBytes⟩ := shown.canonical.append.ascii following.symm (by decide)
  have canonical : Text.Canonical tail := by
    have whole := shown.canonical.append
    rw [slash] at whole
    exact whole.cons.1
  obtain ⟨later, unit, _⟩ := canonical.ascii tailBytes (by decide)
  rw [unit] at slash
  exact other later slash

theorem toBytes_unit (text : Text) :
    toBytes (.scalar '\\' :: .scalar 'u' :: text) = 92 :: 117 :: toBytes text := rfl

theorem length_two_units {partner later : Text} (isUnit : IsUnit digits) (alsoUnit : IsUnit partner)
    (more : later ≠ []) :
    11 ≤ (toBytes (digits ++ (.scalar '\\' :: .scalar 'u' :: (partner ++ later)))).length := by
  have positive := length_pos_iff.mpr (toBytes_ne_nil more)
  rw [toBytes_append, toBytes_unit, toBytes_append, length_append, length_cons,
    length_cons, length_append, (isUnit.hexNumber []).1, (alsoUnit.hexNumber []).1]
  omega

theorem scanPair_unit (code : Nat) {full : Feed} {partner later : Text}
    (shown : full.Shows (digits ++ (.scalar '\\' :: .scalar 'u' :: (partner ++ later))))
    (isUnit : IsUnit digits)
    (alsoUnit : IsUnit partner)
    (claims : 11 ≤ full.claimed) (atHand : 10 ≤ full.ahead.length) :
    scanPair full code =
      match pairScalar? code (hexCode partner) with
      | some char => (char, 10)
      | none => ('�', 4) := by
  obtain ⟨length, _⟩ := isUnit.hexNumber []
  obtain ⟨alsoLength, _⟩ := alsoUnit.hexNumber []
  obtain ⟨beyond, ahead⟩ : ∃ more, full.ahead =
      digits.toBytes ++ (92 :: 117 :: (partner.toBytes ++ more)) := by
    have grouped := shown
    rw [← cons_append, ← cons_append, ← append_assoc] at grouped
    obtain ⟨more, whole⟩ := grouped.front_prefix _ (by
      rw [toBytes_append, toBytes_unit, length_append, length_cons, length_cons]
      omega)
    refine ⟨more, ?_⟩
    rw [whole, toBytes_append, append_assoc]
    rfl
  have follows : (full.ahead.drop 4).take 2 = [92, 117] := by
    rw [ahead, ← length, drop_left]
    rfl
  have number : hexNumber full.ahead 6 = hexCode partner := by
    have grouped : full.ahead = (digits.toBytes ++ [92, 117]) ++ (partner.toBytes ++ beyond) := by
      rw [ahead, append_assoc]
      rfl
    have six : (digits.toBytes ++ [92, 117]).length = 6 := by
      rw [length_append, length]
      rfl
    rw [grouped, ← six, hexNumber_append_right]
    exact (alsoUnit.hexNumber beyond).2
  have many : ¬ (decide (full.claimed < 11) || (full.ahead.drop 4).take 2 != [92, 117]) = true := by
    simp only [follows, Bool.or_eq_true, decide_eq_true_eq, bne_self_eq_false, Bool.false_eq_true,
      or_false]
    omega
  rw [← number]
  exact if_neg many

private theorem passes_pair {partner later : Text}
    (shown : feed.Shows (.scalar '\\' :: .scalar 'u' ::
      (digits ++ (.scalar '\\' :: .scalar 'u' :: (partner ++ later)))))
    (present : feed.ahead ≠ []) (isUnit : IsUnit digits) (alsoUnit : IsUnit partner)
    (more : later ≠ [])
    (pair : pairScalar? (hexCode digits) (hexCode partner) = some char) :
    Passes feed char later := by
  obtain ⟨full, fullShown, atHand, behind, escape⟩ :=
    scanEscape_unicode shown present isUnit (cons_ne_nil _ _)
  have surrogate : isSurrogate (hexCode digits) = true := by
    rw [pairScalar?] at pair
    split at pair
    · rename_i bounds
      simp only [Bool.and_eq_true, decide_eq_true_eq] at bounds
      simp only [isSurrogate, Bool.and_eq_true, decide_eq_true_eq]
      omega
    · cases pair
  have nonempty : full.ahead ≠ [] := length_pos_iff.mp (by omega)
  obtain ⟨paired, sameBehind, _, enough⟩ := fullShown.forPair nonempty
  obtain ⟨claims, longer⟩ := enough (length_two_units isUnit alsoUnit more)
  have meant := scanPair_unit (hexCode digits) paired isUnit alsoUnit claims longer
  rw [if_pos surrogate, meant, pair] at escape
  have ascii : ∀ cell ∈ digits ++ (.scalar '\\' :: .scalar 'u' :: partner),
      ∃ char : Char, cell = .scalar char ∧ char.toNat < 0x80 := by
    refine forall_mem_append.mpr ⟨isUnit.ascii, ?_⟩
    refine forall_mem_cons.mpr ⟨⟨'\\', rfl, by decide⟩, ?_⟩
    exact forall_mem_cons.mpr ⟨⟨'u', rfl, by decide⟩, alsoUnit.ascii⟩
  have ten : (digits ++ (.scalar '\\' :: .scalar 'u' :: partner)).length = 10 := by
    rw [length_append, length_cons, length_cons, isUnit.four, alsoUnit.four]
  rw [← cons_append, ← cons_append, ← append_assoc] at paired
  obtain ⟨_, put, passed⟩ := putScalar_shows _ ascii paired (by rw [ten]; exact longer)
    (by rw [ten]; decide) (sameBehind.trans behind) char
  rw [ten] at put
  exact passes_escape shown present (escape.trans put) passed

end Passing

theorem Quoted.ne_nil (quoted : Quoted inner) : inner ≠ [] := by
  cases quoted <;> exact cons_ne_nil _ _

theorem Quoted.closes (quoted : Quoted inner) : .scalar '"' ∈ inner := by
  induction quoted with
  | close => exact mem_cons_self
  | plain _ _ _ _ ih => exact mem_cons_of_mem _ ih
  | letter _ _ ih => exact mem_cons_of_mem _ (mem_cons_of_mem _ ih)
  | unit _ _ ih =>
    exact mem_cons_of_mem _ (mem_cons_of_mem _ (mem_append_right _ ih))

theorem Quoted.next (quoted : Quoted inner) :
    (∃ digits later, inner = .scalar '\\' :: .scalar 'u' :: (digits ++ later) ∧ IsUnit digits ∧
      Quoted later) ∨
    (∃ char parts, pieces inner = .scalar char :: parts) ∧
      ∀ rest later, inner ++ rest ≠ .scalar '\\' :: .scalar 'u' :: later := by
  cases quoted with
  | close =>
    refine .inr ⟨⟨'"', [], rfl⟩, ?_⟩
    intro rest later same
    cases same
  | plain _ _ noSlash =>
    refine .inr ⟨⟨_, _, pieces_plain _ noSlash⟩, ?_⟩
    intro rest later same
    exact noSlash (List.cons.inj same).1
  | letter found =>
    refine .inr ⟨⟨_, _, pieces_letter _ found⟩, ?_⟩
    intro rest later same
    rw [(List.cons.inj (List.cons.inj same).2).1] at found
    cases found
  | unit isUnit follows => exact .inl ⟨_, _, rfl, isUnit, follows⟩

theorem passes_plain {feed : Feed} (shown : feed.Shows (cell :: rest)) (present : feed.ahead ≠ [])
    (noQuote : cell ≠ .scalar '"') (noSlash : cell ≠ .scalar '\\') (closes : .scalar '"' ∈ rest) :
    Passes feed cell.shown rest := by
  cases cell with
  | stray => exact passes_stray shown present closes
  | scalar char =>
    by_cases ascii : char.toNat < 0x80
    · exact passes_ascii shown present ascii (fun quote => noQuote (congrArg _ quote))
        (fun slash => noSlash (congrArg _ slash))
    · exact passes_wide shown present (Nat.le_of_not_lt ascii)

def ReadsAs (feed : Feed) (text rest : Text) : Prop :=
  ∃ content after, scanString feed = .ok (content, after) ∧ after.Shows rest ∧
    text = content ++ [.scalar '"']

theorem Passes.readsAs {feed : Feed} {char : Char} (passes : Passes feed char inner)
    (later : ∀ next : Feed, next.Shows inner → ReadsAs next.settle text rest) :
    ReadsAs feed (.scalar char :: text) rest := by
  obtain ⟨next, shown, read⟩ := passes
  obtain ⟨content, after, found, afterShown, rfl⟩ := later next shown
  exact ⟨_, after, read _ _ found, afterShown, rfl⟩

/-- The reader of documents takes a string up to its closing quote, with the pairs joined. -/
theorem scanString_joined {feed : Feed} (quoted : Quoted inner) (shown : feed.Shows (inner ++ rest))
    :
    ReadsAs feed.settle (joined (pieces inner)) rest := by
  -- the induction is on the length: a pair takes two pieces at once
  induction length : inner.length using Nat.strongRecOn generalizing inner feed with
  | ind _ ih =>
    have nonempty : inner ++ rest ≠ [] := append_ne_nil_of_left_ne_nil quoted.ne_nil rest
    obtain ⟨settled, presentIf, _⟩ := shown.settle
    have present := presentIf nonempty
    subst length
    cases quoted with
    | close =>
      obtain ⟨same, next⟩ := settled.ascii present (by decide)
      refine ⟨[], _, ?_, next 1 (Nat.le_refl 1), rfl⟩
      rw [scanString, dif_neg (settled.head_ne_zero present),
        if_pos ((isByte_iff same).mpr rfl)]
    | plain noQuote _ noSlash follows =>
      have closes := mem_append_left rest follows.closes
      rw [pieces_plain _ noSlash]
      apply (passes_plain settled present noQuote noSlash closes).readsAs
      intro next nextShown
      exact ih _ (Nat.lt_succ_self _) follows nextShown rfl
    | letter found follows =>
      rw [pieces_letter _ found]
      apply (passes_letter settled present found).readsAs
      intro next nextShown
      exact ih _ (by simp only [length_cons]; omega) follows nextShown rfl
    | unit isUnit follows =>
      rename_i digits tail
      rw [cons_append, cons_append, append_assoc] at settled
      have more : tail ++ rest ≠ [] := append_ne_nil_of_left_ne_nil follows.ne_nil rest
      have later (next : Feed) (nextShown : next.Shows (tail ++ rest)) :
          ReadsAs next.settle (joined (pieces tail)) rest := by
        refine ih _ ?_ follows nextShown rfl
        simp only [length_cons, length_append]
        omega
      rw [pieces_unit _ isUnit]
      rcases follows.next with
        ⟨partner, after, rfl, alsoUnit, afterQuoted⟩ | ⟨⟨char, parts, same⟩, other⟩
      · rw [pieces_unit _ alsoUnit] at later ⊢
        simp only [cons_append, append_assoc] at settled more later
        have following : after ++ rest ≠ [] :=
          append_ne_nil_of_left_ne_nil afterQuoted.ne_nil rest
        cases pair : pairScalar? (hexCode digits) (hexCode partner) with
        | some char =>
          have whole : joined (.unit (hexCode digits) :: .unit (hexCode partner) :: pieces after) =
              .scalar char :: joined (pieces after) := by
            rw [joined, pair]
          rw [whole]
          apply (passes_pair settled present isUnit alsoUnit following pair).readsAs
          intro next nextShown
          refine ih _ ?_ afterQuoted nextShown rfl
          simp only [length_cons, length_append]
          omega
        | none =>
          have apart : joined (.unit (hexCode digits) :: .unit (hexCode partner) :: pieces after) =
              .scalar (charOfCode (hexCode digits)) ::
                joined (.unit (hexCode partner) :: pieces after) := by
            rw [joined, pair]
          rw [apart]
          refine (passes_alone settled present isUnit more ?_).readsAs later
          intro full fullShown enough _
          obtain ⟨claims, atHand⟩ := enough (length_two_units isUnit alsoUnit following)
          rw [scanPair_unit _ fullShown isUnit alsoUnit claims atHand, pair]
      · rw [same] at later ⊢
        refine (passes_alone settled present isUnit more ?_).readsAs later
        intro full fullShown _ atHand
        exact scanPair_other _ fullShown isUnit atHand (other rest)

/-! ## The reader of inline values -/

section Inline

variable {opening position : Position}

theorem readHex_digits (each : ∀ digit ∈ digits, (hexValue? digit).isSome = true) (value : Nat)
    (rest : Text) : ∃ after,
      readHex digits.length value position (digits ++ rest) =
        .ok (digits.foldl (fun code digit => code * 16 + (hexValue? digit).getD 0) value, after,
          rest) := by
  induction digits generalizing value position with
  | nil => exact ⟨position, rfl⟩
  | cons digit _ ih =>
    obtain ⟨here, others⟩ := forall_mem_cons.mp each
    obtain ⟨number, found⟩ := Option.isSome_iff_exists.mp here
    obtain ⟨after, read⟩ := @ih (position.advance digit) others (value * 16 + number)
    refine ⟨after, ?_⟩
    rw [length_cons, cons_append, readHex, foldl_cons, found]
    exact read

theorem Quoted.read (quoted : Quoted inner) (rest : Text) :
    ∃ content after, readQuoted opening position (inner ++ rest) =
      .ok (content, after, rest) ∧ (pieces inner).map Piece.alone = content ++ [.scalar '"'] := by
  have slash : Cell.isChar (.scalar '\\') '\\' = true := rfl
  induction quoted generalizing position with
  | close =>
    refine ⟨[], position.advance (.scalar '"'), ?_, rfl⟩
    rw [readQuoted.eq_def]
    exact if_pos (isChar_iff.mpr rfl)
  | @plain cell inner noQuote noBreak noSlash _ ih =>
    obtain ⟨content, after, read, spelled⟩ := @ih (position.advance cell)
    refine ⟨.scalar cell.shown :: content, after, ?_, ?_⟩
    · rw [cons_append, readQuoted.eq_def]
      dsimp only
      rw [if_neg fun is => noQuote (isChar_iff.mp is), if_neg fun is => noBreak (isChar_iff.mp is),
        if_neg fun is => noSlash (isChar_iff.mp is), read]
      rfl
    · rw [pieces_plain inner noSlash, map_cons, spelled]
      rfl
  | @letter letter char inner found _ ih =>
    have noUnit : ¬ letter.isChar 'u' = true := by
      intro isUnit
      rw [isChar_iff.mp isUnit] at found
      cases found
    obtain ⟨content, after, read, spelled⟩ :=
      @ih ((position.advance (.scalar '\\')).advance letter)
    refine ⟨.scalar char :: content, after, ?_, ?_⟩
    · rw [cons_append, cons_append, readQuoted]
      simp only [noUnit, found, read, Bool.false_eq_true, if_false]
      rfl
    · rw [pieces_letter inner found, map_cons, spelled]
      rfl
  | @unit digits inner isUnit _ ih =>
    have enough : ¬ byteLength (digits ++ (inner ++ rest)) < 4 := by
      rw [byteLength_eq, toBytes_append, length_append, (isUnit.hexNumber []).1]
      omega
    obtain ⟨next, hex⟩ := @readHex_digits digits
      ((position.advance (.scalar '\\')).advance (.scalar 'u')) isUnit.each 0 (inner ++ rest)
    rw [isUnit.four] at hex
    obtain ⟨content, after, read, spelled⟩ := @ih next
    refine ⟨.scalar (charOfCode (hexCode digits)) :: content, after, ?_, ?_⟩
    · rw [cons_append, cons_append, append_assoc, readQuoted, if_neg (by decide),
        if_neg (by decide), if_pos slash]
      simp only [show Cell.isChar (.scalar 'u') 'u' = true from rfl, if_true, enough, if_false]
      split
      · rename_i failed
        rw [hex] at failed
        cases failed
      · rename_i passed
        rw [hex] at passed
        cases passed
        rw [read]
        rfl
    · rw [pieces_unit inner isUnit, map_cons, spelled]
      rfl

end Inline

end Avro.Idl
