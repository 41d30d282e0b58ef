import Avro.Proofs.Idl.Spelling

/-!
# Scanning tokens

Every token of a text that the buffer shows is scanned as what it stands for, wherever the buffer
happens to end.
-/

set_option autoImplicit false

open List

namespace Avro.Json

open Idl (Quoted joined pieces scanString_joined)

def Scan.pushAll (tokens : List Token) (scan : Scan) : Scan := ⟨tokens ++ scan.tokens, scan.failure⟩

def markJson? : Char → Option (List Token)
  | '[' => some [.openArray]
  | ']' => some [.closeArray]
  | '\x7b' => some [.openObject]
  | '\x7d' => some [.closeObject]
  | ',' => some []
  | ':' => some []
  | _ => none

def Word.text : Word → Text
  | .true => "true"
  | .false => "false"
  | .null => "null"

/-- Some tokens are scanned, and the rest of the text is left to be scanned. -/
def Scanned (feed : Feed) (json : List Token) (rest : Text) : Prop :=
  ∃ next : Feed, next.Shows rest ∧
    scanFrom feed.settle = (scanFrom next.settle).pushAll json

section Scanning

variable {feed : Feed} {rest : Text}

theorem shows_byte (byte : UInt8) (shown : feed.Shows (asciiCell byte :: rest))
    (small : byte.toNat < 0x80) :
    feed.settle.head = byte ∧ feed.settle.head ≠ 0 ∧ (feed.settle.advance 1 1).Shows rest := by
  have code : ∀ code < 0x80, (Char.ofNat code).toNat = code := by decide
  have ascii : (Char.ofNat byte.toNat).toNat < 0x80 := by rwa [code _ small]
  obtain ⟨same, next⟩ := shown.settle_ascii ascii
  rw [code _ small] at same
  exact ⟨UInt8.toNat_inj.mp same, shown.settle_head_ne_zero (cons_ne_nil _ _),
    next 1 (Nat.le_refl 1)⟩

theorem scanned_separator (byte : UInt8) (shown : feed.Shows (asciiCell byte :: rest))
    (small : byte.toNat < 0x80)
    (separates : isSeparator byte = true) : Scanned feed [] rest := by
  obtain ⟨same, nonzero, next⟩ := shows_byte byte shown small
  refine ⟨_, next, ?_⟩
  rw [scanFrom, dif_neg nonzero, same, if_pos separates]
  rfl

theorem scanned_bracket (byte : UInt8) {token : Token}
    (shown : feed.Shows (asciiCell byte :: rest))
    (small : byte.toNat < 0x80) (noSeparator : isSeparator byte = false)
    (isBracket : bracket? byte = some token) : Scanned feed [token] rest := by
  obtain ⟨same, nonzero, next⟩ := shows_byte byte shown small
  refine ⟨_, next, ?_⟩
  rw [scanFrom, dif_neg nonzero, same, noSeparator, if_neg Bool.false_ne_true]
  simp only [isBracket]
  rfl

theorem scanned_string {inner content : Text} (shown : feed.Shows (.scalar '"' :: (inner ++ rest)))
    (quoted : Quoted inner) (spelled : joined (pieces inner) = content ++ [.scalar '"']) :
    Scanned feed [.str content] rest := by
  obtain ⟨same, nonzero, next⟩ := shows_byte 34 shown (by decide)
  obtain ⟨read, after, scanned, afterShown, alsoSpelled⟩ := scanString_joined quoted next
  obtain rfl : content = read := append_cancel_right (spelled.symm.trans alsoSpelled)
  refine ⟨after, afterShown, ?_⟩
  rw [scanFrom, dif_neg nonzero, same, if_neg (by decide)]
  simp only [show bracket? 34 = none from rfl, show isByte 34 '"' = true from rfl, if_true]
  split
  · rename_i found behind passed
    rw [scanned] at passed
    cases passed
    rfl
  · rename_i error failed
    rw [scanned] at failed
    cases failed

theorem lt_of_isNumberCell {byte : UInt8} (inside : isNumberCell (asciiCell byte) = true) :
    byte.toNat < 0x80 := by
  have small : ∀ code < 256, isNumberCell (.scalar (Char.ofNat code)) = true → code < 0x80 := by
    decide +kernel
  exact small byte.toNat byte.toNat_lt inside

theorem scanNumber_shown (digits : Text) (inside : ∀ cell ∈ digits, isNumberCell cell = true)
    (shown : feed.Shows (digits ++ rest))
    (ends : ∀ cell later, rest = cell :: later → isNumberCell cell = false) :
    ∃ left, scanNumber feed.settle = (digits, left) ∧ left.Shows rest := by
  induction digits generalizing feed with
  | nil =>
    refine ⟨feed.settle, ?_, shown.settle.1⟩
    rw [scanNumber]
    split
    · rfl
    · rename_i present
      split
      · rename_i number
        have small : feed.settle.head < 0x80 := lt_of_isNumberCell number
        cases written : Text.toBytes rest with
        | nil =>
          have nothing : feed.settle.ahead = [] := by
            have whole := shown.settle.1.split
            rw [nil_append, written] at whole
            exact (append_eq_nil_iff.mp whole).1
          rw [Feed.head, nothing] at present
          exact absurd rfl present
        | cons =>
          obtain ⟨settled, presentIf, _⟩ := shown.settle
          rw [nil_append] at settled presentIf
          have nonempty : rest ≠ [] := fun none => by rw [none] at written; cases written
          have same := settled.head_eq (presentIf nonempty)
          rw [written, headD_cons] at same
          rw [same] at number small
          obtain ⟨later, rfl, _⟩ := settled.canonical.ascii written small
          rw [ends _ later rfl] at number
          cases number
      · rfl
  | cons _ _ ih =>
    obtain ⟨here, later⟩ := forall_mem_cons.mp inside
    obtain ⟨byte, _, _, rfl⟩ := bytes_numberCell here
    obtain ⟨same, nonzero, next⟩ := shows_byte byte shown (lt_of_isNumberCell here)
    obtain ⟨left, read, leftShown⟩ := ih later next
    refine ⟨left, ?_, leftShown⟩
    rw [scanNumber, dif_neg nonzero, same, here, if_pos rfl, read]

theorem scanned_number {literal : Text} (isLiteral : IsLiteral literal)
    (shown : feed.Shows (literal ++ rest))
    (ends : ∀ cell later, rest = cell :: later → isNumberCell cell = false) :
    Scanned feed [.num literal] rest := by
  obtain ⟨starts, inside⟩ := isLiteral
  rename_i first digits
  obtain ⟨_, ascii, meaningful, noBracket, noString⟩ := startsNumber_only starts
  obtain ⟨same, nonzero, next⟩ := shows_byte first shown ascii
  obtain ⟨left, read, leftShown⟩ := scanNumber_shown digits inside next ends
  refine ⟨left, leftShown, ?_⟩
  rw [scanFrom, dif_neg nonzero, same, meaningful, if_neg Bool.false_ne_true]
  simp only [noBracket, noString, starts, Bool.false_eq_true, if_false, if_true, read]
  rfl

private theorem scanWord_shown (word : Word) (letters : List Char)
    (ascii : ∀ letter ∈ letters, letter.toNat < 0x80)
    (shown : feed.Shows (letters.map .scalar ++ rest)) :
    ∃ left, scanWord word letters feed = .ok left ∧ left.Shows rest := by
  induction letters generalizing feed with
  | nil => exact ⟨feed, rfl, shown⟩
  | cons letter _ ih =>
    obtain ⟨small, others⟩ := forall_mem_cons.mp ascii
    by_cases empty : feed.ahead = []
    · have absent : feed.head = 0 := by
        rw [Feed.head, empty]
        rfl
      have missing : feed.pending ≠ [] := by
        apply shown.pending_of_short
        rw [empty]
        exact length_pos_iff.mpr (Text.toBytes_ne_nil (cons_ne_nil _ _))
      have present := shown.present_refilled missing
      obtain ⟨same, next⟩ := shown.refilled.ascii present small
      have mismatch : ¬ isByte feed.head letter = true := by
        rw [isByte, beq_iff_eq, absent, ← same]
        exact fun zero => shown.refilled.head_ne_zero present (UInt8.toNat_inj.mp zero.symm)
      obtain ⟨left, read, leftShown⟩ := ih others (next 1 (Nat.le_refl 1))
      refine ⟨left, ?_, leftShown⟩
      rw [scanWord, if_neg mismatch, if_pos (beq_iff_eq.mpr absent), (shown.refill missing).1]
      exact read
    · obtain ⟨same, next⟩ := shown.ascii empty small
      obtain ⟨left, read, leftShown⟩ := ih others (next 1 (Nat.le_refl 1))
      refine ⟨left, ?_, leftShown⟩
      rw [scanWord, if_pos ((isByte_iff same).mpr rfl)]
      exact read

theorem scanned_letters (byte : UInt8) {word : Word}
    (shown : feed.Shows (asciiCell byte :: (word.tail.map .scalar ++ rest)))
    (small : byte.toNat < 0x80) (starts : word? byte = some word)
    (noSeparator : isSeparator byte = false) (noBracket : bracket? byte = none)
    (noString : isByte byte '"' = false) (noNumber : startsNumber byte = false) :
    Scanned feed [word.token] rest := by
  obtain ⟨same, nonzero, next⟩ := shows_byte byte shown small
  obtain ⟨left, read, leftShown⟩ := scanWord_shown word word.tail word.ascii_tail next
  refine ⟨left, leftShown, ?_⟩
  rw [scanFrom, dif_neg nonzero, same, noSeparator, if_neg Bool.false_ne_true]
  simp only [noBracket, noString, noNumber, starts, Bool.false_eq_true, if_false]
  split
  · rename_i behind passed
    rw [read] at passed
    cases passed
    rfl
  · rename_i error failed
    rw [read] at failed
    cases failed

theorem scanned_word (word : Word) (shown : feed.Shows (word.text ++ rest)) :
    Scanned feed [word.token] rest := by
  cases word with
  | true => exact scanned_letters 116 shown (by decide) rfl rfl rfl rfl rfl
  | false => exact scanned_letters 102 shown (by decide) rfl rfl rfl rfl rfl
  | null => exact scanned_letters 110 shown (by decide) rfl rfl rfl rfl rfl

theorem scanned_mark {mark json} (shown : feed.Shows (.scalar mark :: rest))
    (means : markJson? mark = some json) : Scanned feed json rest := by
  unfold markJson? at means
  split at means <;> cases means
  · exact scanned_bracket 91 shown (by decide) (by decide) (by decide)
  · exact scanned_bracket 93 shown (by decide) (by decide) (by decide)
  · exact scanned_bracket 123 shown (by decide) (by decide) (by decide)
  · exact scanned_bracket 125 shown (by decide) (by decide) (by decide)
  · exact scanned_separator 44 shown (by decide) (by decide)
  · exact scanned_separator 58 shown (by decide) (by decide)

theorem scanFrom_nothing (shown : feed.Shows []) : scanFrom feed.settle = ⟨[], none⟩ := by
  have nothing : feed.settle.ahead = [] := (append_eq_nil_iff.mp shown.settle.1.split).1
  have absent : feed.settle.head = 0 := by
    rw [Feed.head, nothing]
    rfl
  rw [scanFrom, dif_pos absent, shown.settle.1.inRange]
  rfl

end Scanning

end Avro.Json
