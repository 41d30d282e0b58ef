import Avro.Json.Write
import Avro.Proofs.Json.Scans

/-!
# What is written

The text of a value spells a sequence of atoms: marks, words, strings and numbers, with blanks
between them. Every reader of written values can start from it.
-/

set_option autoImplicit false

open List

namespace Avro.Json

open Text

open Idl (IsUnit Quoted hexCode joined pieces)

mutual

/-- What is read where a value was written. -/
def asRead : Json → Json
  | .null => .null
  | .bool value => .bool value
  | .str text => .str text.sanitize
  | .num literal => .num literal
  | .int value => .num (ofInt value)
  | .arr items => .arr (itemsAsRead items)
  | .obj members => .obj (membersAsRead members)

def itemsAsRead : List Json → List Json
  | [] => []
  | item :: items => item.asRead :: itemsAsRead items

def membersAsRead : List (Text × Json) → Members
  | [] => []
  | (key, value) :: members => (key.sanitize, value.asRead) :: membersAsRead members

end

theorem itemsAsRead_eq (items : List Json) : itemsAsRead items = items.map asRead := by
  induction items with
  | nil => rw [itemsAsRead, map_nil]
  | cons _ _ ih => rw [itemsAsRead, map_cons, ih]

theorem membersAsRead_eq (members : Members) :
    membersAsRead members = members.map fun member => (member.1.sanitize, member.2.asRead) := by
  induction members with
  | nil => rw [membersAsRead, map_nil]
  | cons _ _ ih => rw [membersAsRead, map_cons, ih]

/-- A value whose text can be read: its number literals are numbers to the scanner, and no object
repeats a key, not even after its stray bytes have been replaced. -/
inductive Legible : Json → Prop
  | null : Legible .null
  | bool (value : Bool) : Legible (.bool value)
  | str (text : Text) : Legible (.str text)
  | num {literal} (isLiteral : IsLiteral literal) : Legible (.num literal)
  | int (value : Int) : Legible (.int value)
  | arr {items} (each : ∀ item ∈ items, Legible item) : Legible (.arr items)
  | obj {members : Members} (distinct : (members.map fun member => member.1.sanitize).Nodup)
      (each : ∀ member ∈ members, Legible member.2) : Legible (.obj members)

/-! ## Atoms -/

inductive Atom where
  | mark (char : Char)
  | word (word : Word)
  | str (text : Text)
  | num (literal : Text)
deriving DecidableEq, Repr

mutual

/-- The atoms of a value before those that follow it. -/
def atoms : Json → List Atom → List Atom
  | .null, rest => .word .null :: rest
  | .bool true, rest => .word .true :: rest
  | .bool false, rest => .word .false :: rest
  | .str text, rest => .str text :: rest
  | .num literal, rest => .num literal :: rest
  | .int value, rest => .num (ofInt value) :: rest
  | .arr [], rest => .mark '[' :: .mark ']' :: rest
  | .arr (item :: items), rest => .mark '[' :: item.atoms (itemAtoms items (.mark ']' :: rest))
  | .obj [], rest => .mark '\x7b' :: .mark '\x7d' :: rest
  | .obj ((key, value) :: members), rest =>
    .mark '\x7b' :: .str key :: .mark ':' ::
      value.atoms (memberAtoms members (.mark '\x7d' :: rest))

def itemAtoms : List Json → List Atom → List Atom
  | [], rest => rest
  | item :: items, rest => .mark ',' :: item.atoms (itemAtoms items rest)

def memberAtoms : List (Text × Json) → List Atom → List Atom
  | [], rest => rest
  | (key, value) :: members, rest =>
    .mark ',' :: .str key :: .mark ':' :: value.atoms (memberAtoms members rest)

end

/-- No number and no word runs on into the text. -/
def Ends (text : Text) : Prop :=
  ∀ cell rest, text = cell :: rest → isNumberCell cell = false ∧ Idl.isIdentifierPart cell = false

/-- The atoms that a text spells, with only the literals that are allowed. -/
inductive Spelled (Allows : Text → Prop) : Text → List Atom → Prop
  | nil : Spelled Allows [] []
  | blank {char rest atoms} (isBlank : char = ' ' ∨ char = '\n')
      (follows : Spelled Allows rest atoms) : Spelled Allows (.scalar char :: rest) atoms
  | mark {char rest atoms} (isMark : (markJson? char).isSome = true)
      (follows : Spelled Allows rest atoms) :
      Spelled Allows (.scalar char :: rest) (.mark char :: atoms)
  | word (word : Word) {rest atoms} (ends : Ends rest) (follows : Spelled Allows rest atoms) :
      Spelled Allows (word.text ++ rest) (.word word :: atoms)
  | str (text : Text) {rest atoms} (follows : Spelled Allows rest atoms) :
      Spelled Allows (writeString text ++ rest) (.str text.sanitize :: atoms)
  | num {literal rest atoms} (isLiteral : IsLiteral literal) (allowed : Allows literal)
      (ends : Ends rest) (follows : Spelled Allows rest atoms) :
      Spelled Allows (literal ++ rest) (.num literal :: atoms)

/-! ## Strings -/

inductive Escapes (cell : Cell) : Text → Prop
  | plain {char} (same : cell = .scalar char) (noQuote : char ≠ '"') (noSlash : char ≠ '\\')
      (noControl : 0x20 ≤ char.toNat) : Escapes cell [.scalar char]
  | letter {letter} (found : escaped? letter = some cell.shown) :
      Escapes cell [.scalar '\\', letter]
  | unit {digits} (isUnit : IsUnit digits) (code : hexCode digits = cell.shown.toNat) :
      Escapes cell (.scalar '\\' :: .scalar 'u' :: digits)

private theorem hexCode_hex {code : Nat} (special : code < 0x20 ∨ code = 0x2028 ∨ code = 0x2029) :
    IsUnit (hex 4 code) ∧ hexCode (hex 4 code) = code := by
  have controls : ∀ code < 0x20, ((hex 4 code).length = 4 ∧
      ∀ digit ∈ hex 4 code, (Idl.hexValue? digit).isSome = true) ∧
      hexCode (hex 4 code) = code := by decide
  rcases special with small | rfl | rfl
  · obtain ⟨⟨four, each⟩, same⟩ := controls code small
    exact ⟨⟨four, each⟩, same⟩
  · exact ⟨⟨by decide, by decide⟩, by decide⟩
  · exact ⟨⟨by decide, by decide⟩, by decide⟩

theorem escapes_escapeCell (cell : Cell) : Escapes cell (escapeCell cell) := by
  cases cell with
  | stray byte =>
    have code : hexCode "fffd" = (Cell.stray byte).shown.toNat := by
      change _ = 0xFFFD
      decide
    exact .unit ⟨by decide, by decide⟩ code
  | scalar char =>
    simp only [escapeCell]
    split
    · rename_i special
      rw [Bool.or_eq_true, beq_iff_eq, beq_iff_eq] at special
      rcases special with rfl | rfl <;> exact .letter rfl
    split
    · rename_i special
      rw [beq_iff_eq.mp special]
      exact .letter rfl
    split
    · rename_i special
      rw [beq_iff_eq.mp special]
      exact .letter rfl
    split
    · rename_i special
      rw [beq_iff_eq.mp special]
      exact .letter rfl
    split
    · rename_i special
      simp only [Bool.or_eq_true, decide_eq_true_eq, beq_iff_eq] at special
      obtain ⟨isUnit, code⟩ := @hexCode_hex char.toNat (by omega)
      exact .unit isUnit code
    · rename_i ordinary _ _ _ high
      simp only [Bool.or_eq_true, decide_eq_true_eq, beq_iff_eq, not_or] at ordinary high
      exact .plain rfl ordinary.1 ordinary.2 (Nat.le_of_not_lt high.1.1)

section Strings

variable {cell : Cell} {escape inner : Text}

theorem Escapes.quoted (escapes : Escapes cell escape) (follows : Quoted inner) :
    Quoted (escape ++ inner) := by
  cases escapes with
  | plain _ noQuote noSlash noControl =>
    refine .plain (fun quote => noQuote (Cell.scalar.inj quote)) ?_
      (fun slash => noSlash (Cell.scalar.inj slash)) follows
    rintro ⟨⟩
    exact absurd noControl (by decide)
  | letter found => exact .letter found follows
  | unit isUnit => exact .unit isUnit follows

private theorem not_isSurrogate (char : Char) : isSurrogate char.toNat = false := by
  have valid := char.valid
  rw [isSurrogate, Bool.and_eq_false_iff, decide_eq_false_iff_not, decide_eq_false_iff_not]
  rcases valid with low | ⟨high, _⟩
  · exact .inl (Nat.not_le_of_lt low)
  · exact .inr (Nat.not_lt_of_le high)

/-- A code unit that a written string has is a scalar of its own, so it is never half of a pair. -/
private theorem Escapes.pieces_append (escapes : Escapes cell escape) :
    ∃ piece : Idl.Piece, pieces (escape ++ inner) = piece :: pieces inner ∧
      piece.alone = .scalar cell.shown ∧
      joined (piece :: pieces inner) = .scalar cell.shown :: joined (pieces inner) := by
  cases escapes with
  | plain same _ noSlash =>
    subst same
    refine ⟨_, Idl.pieces_plain inner fun slash => noSlash (Cell.scalar.inj slash), rfl, ?_⟩
    rw [joined]
    · rfl
    · intro high low rest unit
      cases unit
  | letter found =>
    refine ⟨_, Idl.pieces_letter inner found, rfl, ?_⟩
    rw [joined]
    · rfl
    · intro high low rest unit
      cases unit
  | unit isUnit code =>
    rename_i digits
    have whole := not_isSurrogate cell.shown
    have alone : Idl.charOfCode (hexCode digits) = cell.shown := by
      rw [Idl.charOfCode, code, whole, if_neg Bool.false_ne_true, Char.ofNat_toNat]
    refine ⟨_, Idl.pieces_unit inner isUnit, congrArg _ alone, ?_⟩
    cases behind : pieces inner with
    | nil => exact congrArg (fun char => [Cell.scalar char]) alone
    | cons piece parts =>
      cases piece with
      | scalar char =>
        rw [joined]
        · exact congrArg (fun char => Cell.scalar char :: _) alone
        · intro high low rest unit parts
          cases parts
      | unit low =>
        have lone : pairScalar? (hexCode digits) low = none := by
          rw [code, pairScalar?]
          simp only [isSurrogate, Bool.and_eq_false_iff, decide_eq_false_iff_not] at whole
          refine if_neg ?_
          simp only [Bool.and_eq_true, decide_eq_true_eq]
          omega
        rw [joined]
        simp only [lone, alone]

theorem quoted_written (text : Text) :
    Quoted (text.flatMap escapeCell ++ [.scalar '"']) ∧
      joined (pieces (text.flatMap escapeCell ++ [.scalar '"'])) = text.sanitize ++ [.scalar '"'] ∧
      (pieces (text.flatMap escapeCell ++ [.scalar '"'])).map Idl.Piece.alone =
        text.sanitize ++ [.scalar '"'] := by
  induction text with
  | nil => exact ⟨.close, rfl, rfl⟩
  | cons cell text ih =>
    obtain ⟨quoted, whole, apart⟩ := ih
    have escapes := escapes_escapeCell cell
    obtain ⟨piece, split, alone, joins⟩ :=
      @Escapes.pieces_append cell _ (text.flatMap escapeCell ++ [.scalar '"']) escapes
    rw [flatMap_cons, append_assoc]
    refine ⟨escapes.quoted quoted, ?_, ?_⟩
    · rw [split, joins, whole]
      rfl
    · rw [split, map_cons, alone, apart]
      rfl

theorem printed_of_test {test : Cell → Bool} {char : Char} (passes : test (.scalar char) = true)
    (refuses : ∀ code < 0x20, test (.scalar (Char.ofNat code)) = false) : 0x20 ≤ char.toNat := by
  apply Nat.le_of_not_lt
  intro control
  have refused := refuses char.toNat control
  rw [Char.ofNat_toNat, passes] at refused
  cases refused

theorem Escapes.printed (escapes : Escapes cell escape) :
    ∀ other ∈ escape, ∃ char : Char, other = .scalar char ∧ 0x20 ≤ char.toNat := by
  have slash : ∃ char : Char, Cell.scalar '\\' = .scalar char ∧ 0x20 ≤ char.toNat :=
    ⟨_, rfl, by decide⟩
  cases escapes with
  | plain _ _ _ noControl => exact forall_mem_singleton.mpr ⟨_, rfl, noControl⟩
  | letter found =>
    obtain ⟨letter, rfl, _⟩ := Idl.escaped?_ascii found
    have passes : (escaped? (.scalar letter)).isSome = true := by rw [found, Option.isSome_some]
    refine forall_mem_cons.mpr ⟨slash, forall_mem_singleton.mpr ⟨letter, rfl, ?_⟩⟩
    exact @printed_of_test (fun cell => (escaped? cell).isSome) letter passes (by decide)
  | unit isUnit =>
    refine forall_mem_cons.mpr ⟨slash, forall_mem_cons.mpr ⟨⟨_, rfl, by decide⟩, ?_⟩⟩
    intro digit member
    obtain ⟨char, rfl, _⟩ := isUnit.ascii digit member
    refine ⟨char, rfl, ?_⟩
    exact @printed_of_test (fun cell => (Idl.hexValue? cell).isSome) char (isUnit.each _ member)
      (by decide)

end Strings

theorem writeString_append (text rest : Text) :
    writeString text ++ rest =
      .scalar '"' :: ((text.flatMap escapeCell ++ [.scalar '"']) ++ rest) := by
  rw [writeString, append_assoc, append_assoc, append_assoc]
  rfl

/-! ## Numbers -/

theorem isNumberCell_digit {cell : Cell} {number : Nat} (member : cell ∈ ofNat number) :
    ∃ char : Char, cell = .scalar char ∧ char.isDigit = true ∧ isNumberCell cell = true := by
  obtain ⟨char, among, rfl⟩ := mem_map.mp member
  have digit := Nat.isDigit_of_mem_toDigits (by decide) (by decide) among
  exact ⟨char, rfl, digit, by simp only [isNumberCell, digit, Bool.true_or]⟩

theorem isLiteral_digit {char : Char} {digits : Text} (digit : char.isDigit = true)
    (inside : ∀ cell ∈ digits, isNumberCell cell = true) : IsLiteral (.scalar char :: digits) := by
  have code := isDigit_code digit
  obtain ⟨byte, _, same⟩ := @bytes_ascii char (by omega)
  have starts : startsNumber byte = true := by
    simp only [startsNumber, Bool.or_eq_true, Bool.and_eq_true, decide_eq_true_eq,
      UInt8.le_iff_toNat_le, same]
    exact .inr code
  rw [← asciiCell_of_toNat same]
  exact .intro starts inside

theorem isLiteral_minus {digits : Text} (inside : ∀ cell ∈ digits, isNumberCell cell = true) :
    IsLiteral (.scalar '-' :: digits) := by
  have starts : startsNumber 45 = true := rfl
  exact .intro starts inside

private theorem isLiteral_ofNat (number : Nat) : IsLiteral (ofNat number) := by
  have all := fun cell member => @isNumberCell_digit cell number member
  cases spelled : ofNat number with
  | nil => exact absurd (map_eq_nil_iff.mp spelled) Nat.toDigits_ne_nil
  | cons cell =>
    rw [spelled] at all
    obtain ⟨char, rfl, digit, _⟩ := all cell mem_cons_self
    exact isLiteral_digit digit fun cell member =>
      (all cell (mem_cons_of_mem _ member)).elim fun _ is => is.2.2

theorem isLiteral_ofInt (value : Int) : IsLiteral (ofInt value) := by
  cases value with
  | ofNat number => exact isLiteral_ofNat number
  | negSucc =>
    exact isLiteral_minus fun cell member => (isNumberCell_digit member).elim fun _ is => is.2.2

/-! ## Values -/

/-- A text that atoms spell, and that nothing before it runs on into. -/
structure Follows (Allows : Text → Prop) (text : Text) (atoms : List Atom) : Prop where
  spelled : Spelled Allows text atoms
  ends : Ends text

theorem ends_cons {char : Char} {rest : Text} (noNumber : isNumberCell (.scalar char) = false)
    (noPart : Idl.isIdentifierPart (.scalar char) = false) : Ends (.scalar char :: rest) := by
  intro cell later same
  cases same
  exact ⟨noNumber, noPart⟩

theorem follows_nil {Allows : Text → Prop} : Follows Allows [] [] := ⟨.nil, fun _ _ same => nomatch same⟩

section Values

variable {Allows : Text → Prop} {rest : Text} {atoms : List Atom}

theorem Spelled.follows_mark (char : Char) (spelled : Spelled Allows rest atoms)
    (isMark : (markJson? char).isSome = true) :
    Follows Allows (.scalar char :: rest) (.mark char :: atoms) := by
  refine ⟨.mark isMark spelled, ?_⟩
  unfold markJson? at isMark
  split at isMark
  case h_7 => cases isMark
  all_goals exact ends_cons (by decide) (by decide)

def IsBlank (text : Text) : Prop :=
  ∀ cell ∈ text, ∃ char : Char, cell = .scalar char ∧ (char = ' ' ∨ char = '\n')

theorem Spelled.blanks {blank : Text} (spelled : Spelled Allows rest atoms) (isBlank : IsBlank blank) :
    Spelled Allows (blank ++ rest) atoms := by
  induction blank with
  | nil => exact spelled
  | cons _ blank ih =>
    obtain ⟨⟨char, rfl, isSpace⟩, others⟩ := forall_mem_cons.mp isBlank
    exact .blank isSpace (ih others)

theorem Follows.blanks {blank : Text} (follows : Follows Allows rest atoms) (isBlank : IsBlank blank) :
    Follows Allows (blank ++ rest) atoms := by
  refine ⟨follows.spelled.blanks isBlank, ?_⟩
  cases blank with
  | nil => exact follows.ends
  | cons cell =>
    obtain ⟨char, rfl, rfl | rfl⟩ := isBlank cell mem_cons_self
    · exact ends_cons (by decide) (by decide)
    · exact ends_cons (by decide) (by decide)

theorem isBlank_pad (layout : Layout) : IsBlank (pad layout) := by
  cases layout with
  | compact => exact forall_mem_nil _
  | spacious => exact forall_mem_singleton.mpr ⟨' ', rfl, .inl rfl⟩

theorem isBlank_lineBreak (layout : Layout) (level : Nat) : IsBlank (lineBreak layout level) := by
  cases layout with
  | compact => exact forall_mem_nil _
  | spacious =>
    refine forall_mem_cons.mpr ⟨⟨'\n', rfl, .inr rfl⟩, fun cell member => ?_⟩
    obtain ⟨piece, among, inside⟩ := mem_flatten.mp member
    rw [eq_of_mem_replicate among] at inside
    have spaces : ∀ cell ∈ ofString "  ", cell = .scalar ' ' := by decide
    exact ⟨' ', spaces cell inside, .inl rfl⟩

theorem Spelled.key (key : Text) (layout : Layout) (spelled : Spelled Allows rest atoms) :
    Spelled Allows (writeString key ++ colon layout ++ rest)
      (.str key.sanitize :: .mark ':' :: atoms) := by
  rw [append_assoc]
  refine .str key ?_
  cases layout with
  | compact => exact .mark rfl spelled
  | spacious => exact .blank (.inl rfl) (.mark rfl (.blank (.inl rfl) spelled))

/-- The text of a value spells its atoms, at every level and whatever follows. -/
def Spells (Allows : Text → Prop) (value : Json) : Prop :=
  ∀ (layout : Layout) (level : Nat) {rest : Text} {atoms : List Atom}, Follows Allows rest atoms →
    Spelled Allows (write layout level value rest) (value.asRead.atoms atoms)

private theorem follows_writeItems {items : List Json} (layout : Layout) (level : Nat)
    (each : ∀ item ∈ items, Spells Allows item) (follows : Follows Allows rest atoms) :
    Follows Allows (writeItems layout level items rest) (itemAtoms (itemsAsRead items) atoms) := by
  induction items with
  | nil =>
    rw [writeItems, itemsAsRead, itemAtoms]
    exact follows
  | cons _ _ ih =>
    obtain ⟨here, others⟩ := forall_mem_cons.mp each
    rw [writeItems, itemsAsRead, itemAtoms, append_assoc]
    exact ((here layout level (ih others)).blanks (isBlank_pad layout)).follows_mark ',' rfl

private theorem follows_writeMembers {members : Members} (layout : Layout) (level : Nat)
    (each : ∀ member ∈ members, Spells Allows member.2) (follows : Follows Allows rest atoms) :
    Follows Allows (writeMembers layout level members rest)
      (memberAtoms (membersAsRead members) atoms) := by
  induction members with
  | nil =>
    rw [writeMembers, membersAsRead, memberAtoms]
    exact follows
  | cons member _ ih =>
    obtain ⟨key, value⟩ := member
    obtain ⟨here, others⟩ := forall_mem_cons.mp each
    have spelled := ((here layout level (ih others)).key key layout).blanks
      (isBlank_lineBreak layout level)
    rw [writeMembers, membersAsRead, memberAtoms]
    simp only [append_assoc] at spelled ⊢
    exact spelled.follows_mark ',' rfl

theorem spells_array {items : List Json} (each : ∀ item ∈ items, Spells Allows item) :
    Spells Allows (.arr items) := by
  intro layout level rest atoms follows
  have closed := (follows.spelled.follows_mark ']' rfl).blanks (isBlank_pad layout)
  rw [asRead]
  cases items with
  | nil =>
    rw [write, itemsAsRead, Json.atoms, append_assoc]
    exact .mark rfl closed.spelled
  | cons =>
    obtain ⟨here, others⟩ := forall_mem_cons.mp each
    have later := follows_writeItems layout level others closed
    rw [write, itemsAsRead, Json.atoms, append_assoc]
    exact .mark rfl ((here layout level later).blanks (isBlank_pad layout))

theorem spells_object {members : Members} (each : ∀ member ∈ members, Spells Allows member.2) :
    Spells Allows (.obj members) := by
  intro layout level rest atoms follows
  have closed := follows.spelled.follows_mark '\x7d' rfl
  rw [asRead]
  cases members with
  | nil =>
    rw [write, membersAsRead, Json.atoms, append_assoc]
    exact .mark rfl (closed.blanks (isBlank_pad layout)).spelled
  | cons member =>
    obtain ⟨key, value⟩ := member
    obtain ⟨here, others⟩ := forall_mem_cons.mp each
    have later := follows_writeMembers layout (level + 1) others
      (closed.blanks (isBlank_lineBreak layout level))
    have spelled := ((here layout (level + 1) later).key key layout).blanks
      (isBlank_lineBreak layout (level + 1))
    rw [write, membersAsRead, Json.atoms]
    simp only [append_assoc] at spelled ⊢
    exact .mark rfl spelled

theorem spells_null : Spells Allows .null :=
  fun _ _ _ _ follows => .word .null follows.ends follows.spelled

theorem spells_bool (value : Bool) : Spells Allows (.bool value) := by
  intro layout level rest atoms follows
  cases value with
  | false => exact .word .false follows.ends follows.spelled
  | true => exact .word .true follows.ends follows.spelled

theorem spells_str (text : Text) : Spells Allows (.str text) :=
  fun _ _ _ _ follows => .str text follows.spelled

theorem spells_num {literal : Text} (isLiteral : IsLiteral literal) (allowed : Allows literal) :
    Spells Allows (.num literal) :=
  fun _ _ _ _ follows => .num isLiteral allowed follows.ends follows.spelled

end Values

theorem Legible.spells {value : Json} (legible : Legible value) : Spells (fun _ => True) value := by
  induction legible with
  | null => exact spells_null
  | bool value => exact spells_bool value
  | str text => exact spells_str text
  | num isLiteral => exact spells_num isLiteral trivial
  | int value =>
    exact fun _ _ _ _ follows =>
      .num (isLiteral_ofInt value) trivial follows.ends follows.spelled
  | arr _ each => exact spells_array each
  | obj _ _ each => exact spells_object each

end Avro.Json
