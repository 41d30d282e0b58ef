import Avro.Proofs.Text.Utf8

/-!
# A document with stray bytes

A stray byte that is replaced is counted once too often and moves the position by three, so the
count drifts. A document that is short or has a single stray byte is still seen as it is:
`Feed.Shows` says so, and every move of the scanner keeps it.
-/

set_option autoImplicit false

open List

namespace Avro.Json

variable {byte : UInt8} {char : Char} {feed : Feed}

theorem Feed.settle_of_present (present : feed.head ≠ 0) : feed.settle = feed := by
  rw [settle, if_pos (bne_iff_ne.mpr present)]

theorem bytes_ascii (ascii : char.toNat < 0x80) :
    ∃ byte : UInt8, Cell.bytes (.scalar char) = [byte] ∧ byte.toNat = char.toNat := by
  cases found : Cell.bytes (.scalar char) with
  | nil =>
    have shape := Text.encode_shape char
    rw [show String.utf8EncodeChar char = [] from found] at shape
    cases shape
  | cons byte rest =>
    have shape := Text.encode_shape char
    rw [show String.utf8EncodeChar char = byte :: rest from found] at shape
    cases shape with
    | one _ same => exact ⟨byte, rfl, same⟩
    | two | three | four => omega

theorem asciiCell_of_toNat (same : byte.toNat = char.toNat) : asciiCell byte = .scalar char := by
  rw [asciiCell, same, Char.ofNat_toNat]

theorem isByte_iff {other : Char} (same : byte.toNat = char.toNat) :
    isByte byte other = true ↔ char = other := by
  rw [isByte, beq_iff_eq, same]
  exact ⟨fun codes => Char.toNat_inj.mp codes, fun chars => by rw [chars]⟩

theorem bytes_asciiCell (ascii : byte.toNat < 0x80) : (asciiCell byte).bytes = [byte] := by
  have code : ∀ code < 0x80, (Char.ofNat code).toNat = code := by decide
  have small : (Char.ofNat byte.toNat).toNat < 0x80 := by rwa [code _ ascii]
  obtain ⟨other, bytes, same⟩ := bytes_ascii small
  rw [code _ ascii] at same
  rw [asciiCell, bytes, UInt8.toNat_inj.mp same]

theorem toBytes_cons (cell : Cell) (text : Text) :
    Text.toBytes (cell :: text) = cell.bytes ++ Text.toBytes text := rfl

theorem toBytes_append (first second : Text) :
    Text.toBytes (first ++ second) = Text.toBytes first ++ Text.toBytes second :=
  flatMap_append

/-! ## Strings -/

theorem isByte_of_high (high : ¬ byte < 0x80) (ascii : char.toNat < 0x80) :
    isByte byte char = false := by
  simp only [UInt8.lt_iff_toNat_lt, UInt8.reduceToNat] at high
  exact beq_false_of_ne (by omega)

theorem scanString_of_high (high : ¬ feed.head < 0x80) :
    (∀ more, feed.isCut = true → feed.refill? = some more →
      scanString feed = scanString more.settle) ∧
    (∀ text left, feed.isCut = false →
      scanString (scanWide feed).2.settle = .ok (text, left) →
      scanString feed = .ok (.scalar (scanWide feed).1 :: text, left)) := by
  have nonzero : feed.head ≠ 0 := fun zero => high (zero ▸ by decide)
  have noQuote : ¬ isByte feed.head '"' = true :=
    Bool.eq_false_iff.mp (isByte_of_high high (by decide))
  have noBackslash : ¬ isByte feed.head '\\' = true :=
    Bool.eq_false_iff.mp (isByte_of_high high (by decide))
  constructor
  · intro more cut filled
    rw [scanString, dif_neg nonzero, if_neg noQuote, if_neg noBackslash, if_neg high, if_pos cut]
    split
    · rename_i exhausted
      rw [filled] at exhausted
      cases exhausted
    · rename_i other same
      rw [filled] at same
      cases same
      rfl
  · intro text left whole read
    rw [scanString, dif_neg nonzero, if_neg noQuote, if_neg noBackslash, if_neg high,
      if_neg (Bool.eq_false_iff.mp whole), read]
    rfl

/-! ## Numbers and words -/

theorem isDigit_code (digit : char.isDigit = true) : 48 ≤ char.toNat ∧ char.toNat ≤ 57 := by
  simp only [Char.isDigit, Bool.and_eq_true, decide_eq_true_eq, ge_iff_le,
    UInt32.le_iff_toNat_le] at digit
  exact digit

theorem bytes_numberCell {cell : Cell} (inside : isNumberCell cell = true) :
    ∃ byte : UInt8, cell.bytes = [byte] ∧ byte ≠ 0 ∧ asciiCell byte = cell := by
  cases cell with
  | stray => cases inside
  | scalar char =>
    have bounds : 0 < char.toNat ∧ char.toNat < 0x80 := by
      simp only [isNumberCell, Bool.or_eq_true, beq_iff_eq] at inside
      rcases inside with ((((digit | rfl) | rfl) | rfl) | rfl) | rfl
      · have := isDigit_code digit
        omega
      all_goals decide
    obtain ⟨byte, bytes, same⟩ := bytes_ascii bounds.2
    refine ⟨byte, bytes, fun zero => ?_, asciiCell_of_toNat same⟩
    rw [zero] at same
    rw [← same] at bounds
    exact absurd bounds.1 (by decide)

/-- The text of a number: what the scanner takes for one from its first byte on. -/
inductive IsLiteral : Text → Prop
  | intro {first : UInt8} {digits : Text} (starts : startsNumber first = true)
      (inside : ∀ cell ∈ digits, isNumberCell cell = true) : IsLiteral (asciiCell first :: digits)

theorem startsNumber_only (starts : startsNumber byte = true) :
    byte ≠ 0 ∧ byte.toNat < 0x80 ∧ isSeparator byte = false ∧ bracket? byte = none ∧
      isByte byte '"' = false := by
  have code : byte.toNat = 45 ∨ (48 ≤ byte.toNat ∧ byte.toNat ≤ 57) := by
    simp only [startsNumber, isByte, Bool.or_eq_true, beq_iff_eq, Bool.and_eq_true,
      decide_eq_true_eq, UInt8.le_iff_toNat_le] at starts
    exact starts
  have other (char : Char) (differs : char.toNat ≠ 45 ∧ ¬ (48 ≤ char.toNat ∧ char.toNat ≤ 57)) :
      isByte byte char = false := beq_false_of_ne (by omega)
  refine ⟨fun zero => ?_, by omega, ?_, ?_, other '"' (by decide)⟩
  · rw [zero] at code
    exact absurd code (by decide)
  · simp only [isSeparator, other ' ' (by decide), other '\t' (by decide), other '\n' (by decide),
      other '\r' (by decide), other ',' (by decide), other ':' (by decide), Bool.or_self]
  · simp only [bracket?, other '\x7b' (by decide), other '\x7d' (by decide),
      other '[' (by decide), other ']' (by decide), Bool.false_eq_true, if_false]

theorem Word.ascii_tail (word : Word) :
    ∀ letter ∈ word.tail, letter.toNat < 0x80 := by
  cases word <;> simp [Word.tail]

end Avro.Json

namespace Avro

open Text

variable {byte : UInt8}

namespace Text

def strays : Text → Nat
  | [] => 0
  | .scalar _ :: rest => strays rest
  | .stray _ :: rest => strays rest + 1

@[simp] theorem strays_scalar (char : Char) (rest : Text) :
    strays (.scalar char :: rest) = strays rest := rfl

@[simp] theorem strays_stray (byte : UInt8) (rest : Text) :
    strays (.stray byte :: rest) = strays rest + 1 := rfl

/-- A text that is read from its own bytes as it is. -/
def Canonical (text : Text) : Prop := ofBytes text.toBytes = text

theorem canonical_ofBytes (bytes : List UInt8) : Canonical (ofBytes bytes) := by
  rw [Canonical, toBytes_ofBytes]

theorem bytes_ne_nil (cell : Cell) : cell.bytes ≠ [] := by
  intro none
  have positive := width_pos cell
  rw [Cell.width, none] at positive
  exact Nat.lt_irrefl 0 positive

theorem toBytes_ne_nil {text : Text} (nonempty : text ≠ []) : text.toBytes ≠ [] := by
  intro none
  cases text with
  | nil => exact nonempty rfl
  | cons cell =>
    rw [Json.toBytes_cons] at none
    exact bytes_ne_nil cell (append_eq_nil_iff.mp none).1

theorem Canonical.cons {cell : Cell} {rest : Text} (canonical : Canonical (cell :: rest)) :
    Canonical rest ∧ ∀ first others, toBytes (cell :: rest) = first :: others →
      firstCell first others = cell := by
  obtain ⟨byte, bytes, written⟩ := exists_cons_of_ne_nil (bytes_ne_nil cell)
  have whole : toBytes (cell :: rest) = byte :: (bytes ++ toBytes rest) := by
    rw [Json.toBytes_cons, written, cons_append]
  rw [Canonical, whole, ofBytes] at canonical
  obtain ⟨same, later⟩ := List.cons.inj canonical
  constructor
  · have width : cell.width - 1 = bytes.length := by
      rw [Cell.width, written, length_cons, Nat.add_sub_cancel]
    rwa [same, width, drop_left] at later
  · intro first others eq
    obtain ⟨rfl, rfl⟩ := List.cons.inj (whole.symm.trans eq)
    exact same

theorem canonical_of_scalars {text : Text} (clean : ∀ cell ∈ text, ∃ char : Char, cell = .scalar char) :
    Canonical text := by
  induction text with
  | nil => exact ofBytes.eq_1
  | cons _ rest ih =>
    obtain ⟨⟨char, rfl⟩, others⟩ := forall_mem_cons.mp clean
    obtain ⟨byte, bytes, written⟩ := exists_cons_of_ne_nil (bytes_ne_nil (.scalar char))
    have encodes := encode_shape char
    have read := scalar?_encode char
    rw [show String.utf8EncodeChar char = byte :: bytes from written] at encodes read
    have here : firstCell byte (bytes ++ toBytes rest) = .scalar char := by
      rw [firstCell, encodes.claimedLength_eq, ← cons_append, take_left, read]
    have width : (Cell.scalar char).width - 1 = bytes.length := by
      rw [Cell.width, written, length_cons, Nat.add_sub_cancel]
    rw [Canonical, Json.toBytes_cons, written, cons_append, ofBytes, here, width,
      drop_left, ih others]

theorem firstCell_ascii (small : byte < 0x80) (others : List UInt8) :
    firstCell byte others = Json.asciiCell byte := by
  have written := Json.bytes_asciiCell (show byte.toNat < 0x80 from small)
  rw [Json.asciiCell, Cell.bytes] at written
  have read := scalar?_encode (Char.ofNat byte.toNat)
  rw [written] at read
  have one : claimedLength byte = 1 := if_pos small
  rw [firstCell, one, take_succ_cons, take_zero, read]
  rfl

theorem Canonical.append {front rest : Text} (canonical : Canonical (front ++ rest)) :
    Canonical rest := by
  induction front with
  | nil => exact canonical
  | cons _ _ ih => exact ih canonical.cons.1

theorem Canonical.ascii {text others} (canonical : Canonical text)
    (written : text.toBytes = byte :: others) (small : byte < 0x80) :
    ∃ rest : Text, text = Json.asciiCell byte :: rest ∧ rest.toBytes = others := by
  cases text with
  | nil => cases written
  | cons _ rest =>
    have first := canonical.cons.2 byte others written
    rw [firstCell_ascii small] at first
    subst first
    rw [Json.toBytes_cons, Json.bytes_asciiCell (show byte.toNat < 0x80 from small)] at written
    exact ⟨rest, rfl, (List.cons.inj written).2⟩

end Text

namespace Json.Feed

private theorem advance_advance (feed : Feed) (count more output further : Nat) :
    (feed.advance count output).advance more further =
      feed.advance (count + more) (output + further) := by
  simp only [advance, drop_drop, Nat.sub_sub, Nat.add_assoc]

/-- What is not in the buffer yet can be had by a refill, also after some stray bytes. -/
structure Supplies (feed : Feed) (strays : Nat) : Prop where
  slack : feed.claimed + strays ≤ feed.ahead.length + 1
  unfinished : feed.isOver = false
  source : feed.isFull = true ∨ (feed.ahead = [] ∧ feed.behind + feed.room ≤ feed.capacity)

/-- A feed stands at the start of a text, and nothing of it will be lost. -/
structure Shows (feed : Feed) (text : Text) : Prop where
  split : feed.ahead ++ feed.pending = text.toBytes
  canonical : text.Canonical
  noNul : 0 ∉ text.toBytes
  counted : feed.ahead.length ≤ feed.claimed
  supply : feed.pending ≠ [] → feed.Supplies text.strays
  roomy : (!feed.isFull).toNat < feed.room
  fits : feed.isFull = true → feed.behind + feed.ahead.length + 2 * text.strays < feed.capacity + 2
  large : 512 ≤ feed.capacity

namespace Shows

variable {feed : Feed} {text rest : Text} {char : Char}

theorem kept_eq (shown : feed.Shows text) : feed.kept = feed.ahead := by
  have clean : ∀ byte ∈ feed.ahead, (byte != 0) = true := by
    intro byte member
    rw [bne_iff_ne]
    intro zero
    exact shown.noNul (by rw [← shown.split, ← zero]; exact mem_append_left _ member)
  have whole : (feed.ahead ++ []).takeWhile (· != 0) = feed.ahead ++ [].takeWhile (· != 0) :=
    takeWhile_append_of_pos clean
  rw [append_nil, takeWhile_nil, append_nil] at whole
  rw [kept, take_of_length_le shown.counted, whole]

theorem space_of_full (shown : feed.Shows text) (full : feed.isFull = true) :
    feed.extent = feed.capacity * 2 ∧ 510 ≤ feed.space := by
  have fits := shown.fits full
  have large := shown.large
  have doubled : feed.extent = feed.capacity * 2 := by
    rw [extent, if_pos full, nextCapacity, shown.kept_eq]
    exact if_neg (by omega)
  rw [space, doubled, shown.kept_eq]
  omega

theorem space_eq (shown : feed.Shows text) :
    0 < feed.space ∧ feed.extent = feed.behind + feed.ahead.length + feed.space + 1 := by
  cases full : feed.isFull with
  | false =>
    have roomy := shown.roomy
    rw [full, Bool.not_false, Bool.toNat_true] at roomy
    rw [space, shown.kept_eq, extent, full]
    simp only [Bool.false_eq_true, if_false]
    omega
  | true =>
    obtain ⟨doubled, wide⟩ := shown.space_of_full full
    rw [space, shown.kept_eq] at wide ⊢
    omega

theorem inRange (shown : feed.Shows text) : feed.isLost = false := by
  rw [isLost, beq_false_of_ne (Nat.pos_iff_ne_zero.mp shown.space_eq.1), Bool.and_false]

theorem full_of_present (shown : feed.Shows text) (missing : feed.pending ≠ [])
    (present : feed.ahead ≠ []) : feed.isFull = true := by
  rcases (shown.supply missing).source with full | ⟨empty, _⟩
  · exact full
  · exact absurd empty present

theorem ahead_refilled (shown : feed.Shows text) :
    feed.refilled.ahead = feed.ahead ++ feed.piece := by
  simp only [Feed.refilled, filled, shown.kept_eq]
  rw [drop_eq_nil_of_le (Nat.le_add_right _ _), append_nil]

theorem claimed_refilled (shown : feed.Shows text) :
    feed.refilled.claimed = feed.refilled.ahead.length := by
  rw [shown.ahead_refilled, length_append, ← shown.kept_eq]
  rfl

private theorem piece_of_full (shown : feed.Shows text) (full : feed.refilled.isFull = true) :
    feed.piece.length = feed.space ∧ feed.pending ≠ [] := by
  have same : feed.piece.length = feed.space := beq_iff_eq.mp full
  refine ⟨same, fun none => ?_⟩
  rw [piece, none, take_nil] at same
  exact Nat.ne_of_lt shown.space_eq.1 same

private theorem fits_refilled (shown : feed.Shows text) (full : feed.refilled.isFull = true) :
    feed.behind + feed.refilled.ahead.length + 2 * text.strays < feed.refilled.capacity + 2 := by
  obtain ⟨length, missing⟩ := shown.piece_of_full full
  obtain ⟨slack, _, source⟩ := shown.supply missing
  have counted := shown.counted
  have spaced := shown.space_eq.2
  have reached : feed.extent ≤ feed.refilled.capacity := by
    rw [extent, Feed.refilled]
    rcases source with isFull | ⟨empty, within⟩
    · simp only [isFull, if_true, Nat.le_refl]
    · rw [empty] at spaced
      split <;> simp_all
  rw [shown.ahead_refilled, length_append, length]
  omega

theorem refilled (shown : feed.Shows text) : feed.refilled.Shows text where
  split := by
    rw [shown.ahead_refilled, ← shown.split, append_assoc]
    exact congrArg (feed.ahead ++ ·) (take_append_drop feed.space feed.pending)
  canonical := shown.canonical
  noNul := shown.noNul
  counted := Nat.le_of_eq shown.claimed_refilled.symm
  supply missing := by
    have long : feed.space < feed.pending.length := by
      rw [← Nat.sub_pos_iff_lt, ← length_drop]
      exact length_pos_iff.mpr missing
    have before : feed.pending ≠ [] := length_pos_iff.mp (by omega)
    have slack := (shown.supply before).slack
    have counted := shown.counted
    refine ⟨?_, isEmpty_eq_false_iff.mpr before, .inl (beq_iff_eq.mpr ?_)⟩
    · rw [shown.claimed_refilled]
      omega
    · rw [piece, length_take, Nat.min_eq_left (Nat.le_of_lt long)]
  roomy := by
    have spaced := shown.space_eq.2
    have room : feed.refilled.room = feed.extent - feed.behind - feed.refilled.ahead.length := rfl
    have within : feed.piece.length ≤ feed.space := by
      rw [piece, length_take]
      exact Nat.min_le_left ..
    rw [room, shown.ahead_refilled, length_append]
    cases full : feed.refilled.isFull with
    | true =>
      rw [Bool.not_true, Bool.toNat_false]
      omega
    | false =>
      have short : feed.piece.length ≠ feed.space := beq_eq_false_iff_ne.mp full
      rw [Bool.not_false, Bool.toNat_true]
      omega
  fits := shown.fits_refilled
  large := by
    have large := shown.large
    simp only [Feed.refilled, nextCapacity]
    split
    · split <;> omega
    · exact large

theorem refill (shown : feed.Shows text) (missing : feed.pending ≠ []) :
    feed.refill? = some feed.refilled ∧ feed.ahead.length < feed.refilled.ahead.length := by
  have positive := shown.space_eq.1
  constructor
  · rw [refill?, (shown.supply missing).unfinished,
      beq_false_of_ne (Nat.pos_iff_ne_zero.mp positive), Bool.or_false]
    exact if_neg Bool.false_ne_true
  · have some := length_pos_iff.mpr missing
    rw [shown.ahead_refilled, length_append, piece, length_take]
    omega

theorem present_refilled (shown : feed.Shows text) (missing : feed.pending ≠ []) :
    feed.refilled.ahead ≠ [] :=
  length_pos_iff.mp (Nat.lt_of_le_of_lt (Nat.zero_le _) (shown.refill missing).2)

theorem pending_refilled_lt (shown : feed.Shows text) (missing : feed.pending ≠ []) :
    feed.refilled.pending.length < feed.pending.length := by
  have longer := (shown.refill missing).2
  have before := congrArg List.length shown.split
  have after := congrArg List.length shown.refilled.split
  simp only [length_append] at before after
  omega

theorem of_refill? (shown : feed.Shows text) {more : Feed} (filled : feed.refill? = some more) :
    more.Shows text ∧ more.behind = feed.behind := by
  rw [refill?] at filled
  split at filled
  · cases filled
  · cases filled
    exact ⟨shown.refilled, rfl⟩

theorem head_eq (shown : feed.Shows text) (present : feed.ahead ≠ []) :
    feed.head = text.toBytes.headD 0 := by
  rw [head, ← shown.split]
  cases ahead : feed.ahead with
  | nil => exact absurd ahead present
  | cons => rfl

theorem head_ne_zero (shown : feed.Shows text) (present : feed.ahead ≠ []) : feed.head ≠ 0 := by
  intro zero
  cases ahead : feed.ahead with
  | nil => exact present ahead
  | cons byte =>
    rw [head, ahead] at zero
    refine shown.noNul ?_
    rw [← shown.split, ahead, ← (zero : byte = 0)]
    exact mem_cons_self

theorem pending_of_short (shown : feed.Shows text)
    (short : feed.ahead.length < text.toBytes.length) : feed.pending ≠ [] := by
  intro none
  rw [← shown.split, none, append_nil] at short
  exact Nat.lt_irrefl _ short

theorem settle (shown : feed.Shows text) :
    feed.settle.Shows text ∧ (text ≠ [] → feed.settle.ahead ≠ []) ∧
      feed.settle.behind = feed.behind := by
  fun_induction Feed.settle feed with
  | case1 feed present =>
    refine ⟨shown, ?_, rfl⟩
    intro _ empty
    rw [head, empty] at present
    exact absurd present (by decide)
  | case2 feed absent exhausted =>
    refine ⟨shown, ?_, rfl⟩
    intro nonempty empty
    have missing : feed.pending ≠ [] := by
      intro none
      exact toBytes_ne_nil nonempty (by rw [← shown.split, empty, none]; rfl)
    rw [(shown.refill missing).1] at exhausted
    cases exhausted
  | case3 feed absent more filled ih =>
    obtain ⟨shownMore, behind⟩ := shown.of_refill? filled
    obtain ⟨settled, present, kept⟩ := ih shownMore
    exact ⟨settled, present, kept.trans behind⟩

/-- A cell is passed. A stray byte stays in the count of bytes at hand, and is written as three. -/
private theorem pass {cell : Cell} {claimed output : Nat} (shown : feed.Shows (cell :: rest))
    (positive : 0 < cell.bytes.length) (atHand : cell.bytes.length ≤ feed.ahead.length)
    (counts : claimed + cell.bytes.length + rest.strays = feed.claimed + strays (cell :: rest))
    (moves : output + 2 * rest.strays ≤ cell.bytes.length + 2 * strays (cell :: rest)) :
    Shows { feed with
      ahead := feed.ahead.drop cell.bytes.length
      claimed := claimed
      behind := feed.behind + output } rest := by
  have left : (feed.ahead.drop cell.bytes.length).length + cell.bytes.length =
      feed.ahead.length := by
    rw [length_drop]
    omega
  have counted := shown.counted
  have fewer : rest.strays ≤ strays (cell :: rest) := by
    cases cell with
    | scalar => exact Nat.le_refl _
    | stray => exact Nat.le_succ _
  refine ⟨?_, shown.canonical.cons.1, ?_, by dsimp only; omega, ?_, shown.roomy, ?_, shown.large⟩
  · have whole := congrArg (List.drop cell.bytes.length) shown.split
    rwa [drop_append_of_le_length atHand, toBytes_cons, drop_left] at whole
  · exact fun member => shown.noNul (mem_append_right _ member)
  · intro missing
    obtain ⟨slack, unfinished, _⟩ := shown.supply missing
    have present := length_pos_iff.mp (Nat.lt_of_lt_of_le positive atHand)
    exact ⟨by dsimp only; omega, unfinished, .inl (shown.full_of_present missing present)⟩
  · intro full
    have fits := shown.fits full
    dsimp only
    omega

theorem advance {output : Nat} (shown : feed.Shows (.scalar char :: rest))
    (atHand : char.utf8Size ≤ feed.ahead.length) (smaller : output ≤ char.utf8Size) :
    (feed.advance char.utf8Size output).Shows rest := by
  have length : (Cell.scalar char).bytes.length = char.utf8Size := String.length_utf8EncodeChar char
  have counted := shown.counted
  have counts : feed.claimed - char.utf8Size + char.utf8Size = feed.claimed := by omega
  rw [← length] at atHand smaller counts ⊢
  refine shown.pass (length ▸ char.utf8Size_pos) atHand ?_ (Nat.add_le_add_right smaller _)
  rw [counts, strays_scalar]

theorem moveTo (shown : feed.Shows text) {behind : Nat} (smaller : behind ≤ feed.behind) :
    (feed.moveTo behind).Shows text where
  split := shown.split
  canonical := shown.canonical
  noNul := shown.noNul
  counted := shown.counted
  supply missing := by
    obtain ⟨slack, unfinished, source⟩ := shown.supply missing
    refine ⟨slack, unfinished, source.imp_right fun ⟨empty, within⟩ => ⟨empty, ?_⟩⟩
    exact Nat.le_trans (Nat.add_le_add_right smaller _) within
  roomy := shown.roomy
  fits full := by
    have fits := shown.fits full
    change behind + feed.ahead.length + _ < feed.capacity + 2
    omega
  large := shown.large

theorem skipStray (shown : feed.Shows (.stray byte :: rest)) (present : feed.ahead ≠ []) :
    feed.skipStray.Shows rest := by
  refine shown.pass Nat.one_pos (length_pos_iff.mpr present) ?_ ?_
  · rw [strays_stray, Nat.add_assoc, Nat.add_comm rest.strays]
    rfl
  · change 3 + _ ≤ 1 + 2 * (rest.strays + 1)
    omega

theorem length_of_claimed (shown : feed.Shows text) {count : Nat} (claims : count + 1 ≤ feed.claimed)
    (enough : count ≤ text.toBytes.length) : count ≤ feed.ahead.length := by
  by_cases missing : feed.pending = []
  · rwa [← shown.split, missing, append_nil] at enough
  · have slack := (shown.supply missing).slack
    omega

theorem fetch (shown : feed.Shows text) {count : Nat} (enough : count + 1 ≤ text.toBytes.length) :
    ∃ more, feed.fetch? (count + 1) = some more ∧ more.Shows text ∧
      count ≤ more.ahead.length ∧ more.behind = feed.behind := by
  fun_induction Feed.fetch? feed (count + 1) with
  | case1 feed atHand =>
    exact ⟨feed, rfl, shown, shown.length_of_claimed atHand (by omega), rfl⟩
  | case2 feed short exhausted =>
    have counted := shown.counted
    rw [(shown.refill (shown.pending_of_short (by omega))).1] at exhausted
    cases exhausted
  | case3 feed short more filled ih =>
    obtain ⟨shownMore, behind⟩ := shown.of_refill? filled
    obtain ⟨final, fetched, finalShown, length, kept⟩ := ih shownMore
    exact ⟨final, fetched, finalShown, length, kept.trans behind⟩

private theorem length_le_refilled (shown : feed.Shows text) :
    feed.ahead.length ≤ feed.refilled.ahead.length := by
  rw [shown.ahead_refilled, length_append]
  exact Nat.le_add_right _ _

theorem forPair (shown : feed.Shows text) (present : feed.ahead ≠ []) :
    (Json.forPair feed).Shows text ∧ (Json.forPair feed).behind = feed.behind ∧
      feed.ahead.length ≤ (Json.forPair feed).ahead.length ∧
      (11 ≤ text.toBytes.length →
        11 ≤ (Json.forPair feed).claimed ∧ 10 ≤ (Json.forPair feed).ahead.length) := by
  have counted := shown.counted
  rw [Json.forPair]
  split
  · rename_i few
    cases filled : feed.refill? with
    | none =>
      refine ⟨shown, rfl, Nat.le_refl _, ?_⟩
      intro long
      rw [(shown.refill (shown.pending_of_short (by omega))).1] at filled
      cases filled
    | some more =>
      obtain rfl : feed.refilled = more := by
        rw [refill?] at filled
        split at filled <;> cases filled
        rfl
      refine ⟨shown.refilled, rfl, shown.length_le_refilled, ?_⟩
      intro long
      have missing := shown.pending_of_short (by omega)
      have space := (shown.space_of_full (shown.full_of_present missing present)).2
      have whole := congrArg List.length shown.split
      have length : feed.refilled.ahead.length =
          feed.ahead.length + min feed.space feed.pending.length := by
        rw [shown.ahead_refilled, length_append, piece, length_take]
      rw [length_append] at whole
      rw [Option.getD_some, shown.claimed_refilled, length]
      omega
  · rename_i many
    refine ⟨shown, rfl, Nat.le_refl _, ?_⟩
    intro long
    exact ⟨by omega, shown.length_of_claimed (by omega) (by omega)⟩

theorem ahead_prefix (shown : feed.Shows text) : feed.ahead <+: text.toBytes :=
  ⟨feed.pending, shown.split⟩

theorem front_prefix (front : Text) (shown : feed.Shows (front ++ rest))
    (atHand : front.toBytes.length ≤ feed.ahead.length) :
    ∃ more, feed.ahead = front.toBytes ++ more := by
  have within := shown.ahead_prefix
  rw [toBytes_append] at within
  obtain ⟨more, whole⟩ := prefix_of_prefix_length_le (prefix_append _ _) within atHand
  exact ⟨more, whole.symm⟩

theorem ascii (shown : feed.Shows (.scalar char :: rest)) (present : feed.ahead ≠ [])
    (small : char.toNat < 0x80) :
    feed.head.toNat = char.toNat ∧ ∀ output ≤ 1, (feed.advance 1 output).Shows rest := by
  obtain ⟨byte, written, same⟩ := bytes_ascii small
  have size : char.utf8Size = 1 := by
    rw [← String.length_utf8EncodeChar]
    exact congrArg List.length written
  have positive := length_pos_iff.mpr present
  constructor
  · rw [shown.head_eq present, toBytes_cons, written]
    exact same
  · intro output smaller
    rw [← size] at smaller ⊢
    exact shown.advance (size ▸ positive) smaller

theorem advance_ascii (front : Text)
    (each : ∀ cell ∈ front, ∃ char : Char, cell = .scalar char ∧ char.toNat < 0x80)
    (shown : feed.Shows (front ++ rest)) (atHand : front.length ≤ feed.ahead.length) :
    (feed.advance front.length front.length).Shows rest := by
  induction front generalizing feed with
  | nil => exact shown
  | cons _ front ih =>
    obtain ⟨⟨char, rfl, small⟩, later⟩ := forall_mem_cons.mp each
    rw [length_cons] at atHand ⊢
    have present : feed.ahead ≠ [] := length_pos_iff.mp (by omega)
    have passed := (shown.ascii present small).2 1 (Nat.le_refl 1)
    have enough : front.length ≤ (feed.advance 1 1).ahead.length := by
      change _ ≤ (feed.ahead.drop 1).length
      rw [length_drop]
      omega
    have further := ih later passed enough
    rwa [advance_advance, Nat.add_comm] at further

theorem settle_ascii (shown : feed.Shows (.scalar char :: rest)) (small : char.toNat < 0x80) :
    feed.settle.head.toNat = char.toNat ∧
      ∀ output ≤ 1, (feed.settle.advance 1 output).Shows rest := by
  obtain ⟨settled, present, _⟩ := shown.settle
  exact settled.ascii (present (cons_ne_nil _ _)) small

theorem settle_head_ne_zero (shown : feed.Shows text) (nonempty : text ≠ []) :
    feed.settle.head ≠ 0 := by
  obtain ⟨settled, present, _⟩ := shown.settle
  exact settled.head_ne_zero (present nonempty)

theorem isCut_iff (shown : feed.Shows (.scalar char :: rest)) (present : feed.ahead ≠ [])
    (wide : 0x80 ≤ char.toNat) : feed.isCut = true ↔ feed.ahead.length < char.utf8Size := by
  have encodes := encode_shape char
  have within : feed.ahead <+: String.utf8EncodeChar char ++ toBytes rest := shown.ahead_prefix
  rw [← String.length_utf8EncodeChar]
  by_cases short : feed.ahead.length < (String.utf8EncodeChar char).length
  · have missing : feed.pending ≠ [] := by
      apply shown.pending_of_short
      rw [toBytes_cons, length_append]
      exact Nat.lt_add_right _ short
    obtain ⟨back, whole⟩ : feed.ahead <+: String.utf8EncodeChar char :=
      prefix_of_prefix_length_le within (prefix_append _ _) (Nat.le_of_lt short)
    have cut : back ≠ [] := by
      intro nothing
      rw [← whole, nothing, append_nil] at short
      exact Nat.lt_irrefl _ short
    rw [← whole] at encodes
    have wideStart : isNeverFirst feed.head = false := by
      cases ahead : feed.ahead with
      | nil => exact absurd ahead present
      | cons =>
        rw [ahead] at encodes
        rw [head, ahead]
        exact (encodes.starts_wide wide).2
    simp only [isCut, shown.full_of_present missing present, wideStart, encodes.undecided cut,
      Bool.not_false, Bool.and_self, short]
  · obtain ⟨more, whole⟩ : String.utf8EncodeChar char <+: feed.ahead :=
      prefix_of_prefix_length_le (prefix_append _ _) within (Nat.le_of_not_lt short)
    have decided : isDecided feed.ahead = true := whole ▸ encodes.decided more
    simp only [isCut, decided, Bool.not_true, Bool.and_false, Bool.false_eq_true, short]

theorem stray (shown : feed.Shows (.stray byte :: rest)) (present : feed.ahead ≠ []) :
    ¬ feed.head < 0x80 ∧ scalar? (feed.ahead.take (claimedLength feed.head)) = none := by
  have first := shown.canonical.cons.2 byte (toBytes rest) rfl
  have headIs : feed.head = byte := shown.head_eq present
  have unread : scalar? ((byte :: toBytes rest).take (claimedLength byte)) = none := by
    rw [firstCell] at first
    split at first
    · cases first
    · assumption
  obtain ⟨others, ahead⟩ : ∃ others, feed.ahead = byte :: others := by
    cases ahead : feed.ahead with
    | nil => exact absurd ahead present
    | cons _ others =>
      rw [head, ahead] at headIs
      exact ⟨others, congrArg (· :: others) headIs⟩
  rw [headIs]
  constructor
  · intro small
    rw [firstCell_ascii small] at first
    cases first
  · by_cases enough : claimedLength byte ≤ feed.ahead.length
    · have same : (byte :: toBytes rest).take (claimedLength byte) =
          feed.ahead.take (claimedLength byte) := by
        have whole : byte :: toBytes rest = feed.ahead ++ feed.pending := shown.split.symm
        rw [whole, take_append_of_le_length enough]
      rwa [← same]
    · rw [take_of_length_le (Nat.le_of_not_le enough)]
      cases found : scalar? feed.ahead with
      | none => rfl
      | some char =>
        -- a scalar has as many bytes as its first one claims
        have encodes := encode_shape char
        rw [scalar?_eq_some found, ahead] at encodes
        rw [ahead] at enough
        exact absurd (Nat.le_of_eq encodes.claimedLength_eq) enough

end Shows

/-- A document that is short, or has at most one stray byte, is shown from its start on. -/
theorem shows_start {bytes : List UInt8} (noNul : 0 ∉ bytes)
    (harmless : bytes.length < 511 ∨ (ofBytes bytes).strays ≤ 1) :
    ∃ feed : Feed, feed.Shows (ofBytes bytes) ∧ (start bytes).settle = feed.settle := by
  have canonical := canonical_ofBytes bytes
  rw [← toBytes_ofBytes bytes] at noNul
  rcases harmless with short | few
  · -- the first piece is the whole document, and does not fill the buffer
    have whole : bytes.take 511 = bytes := take_of_length_le (by omega)
    have rest : bytes.drop 511 = [] := drop_eq_nil_of_le (by omega)
    have unfilled : (start bytes).refilled.isFull = false := by
      change ((bytes.take 511).length == 511) = false
      rw [whole]
      exact beq_false_of_ne (by omega)
    have ahead : (start bytes).refilled.ahead = bytes := by
      change bytes.take 511 ++ ([] : List UInt8).drop _ = bytes
      rw [drop_nil, append_nil, whole]
    refine ⟨(start bytes).refilled, ⟨?_, canonical, noNul, ?_, fun missing => absurd rest missing,
      ?_, fun full => ?_, Nat.le_refl 512⟩, ?_⟩
    · rw [toBytes_ofBytes, ahead]
      change bytes ++ bytes.drop 511 = bytes
      rw [rest, append_nil]
    · rw [ahead]
      change bytes.length ≤ 0 + (bytes.take 511).length
      rw [whole]
      exact Nat.le_add_left _ _
    · rw [unfilled]
      change 1 < 512 - 0 - (start bytes).refilled.ahead.length
      rw [ahead]
      omega
    · rw [unfilled] at full
      cases full
    · have absent : ¬ ((start bytes).head != 0) = true := by
        change ¬ ((0 : UInt8) != 0) = true
        decide
      rw [settle, if_neg absent]
      rfl
  · refine ⟨start bytes, ⟨?_, canonical, noNul, Nat.le_refl 0, fun _ => ⟨?_, rfl, .inr ⟨rfl, ?_⟩⟩,
      (by decide : 1 < 512), nofun, Nat.le_refl 512⟩, rfl⟩
    · rw [toBytes_ofBytes]
      rfl
    · change 0 + _ ≤ 0 + 1
      omega
    · change 0 + 512 ≤ 512
      decide

end Json.Feed

end Avro
