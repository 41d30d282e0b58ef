import Avro.Proofs.Idl.Layout
import Mathlib.Data.List.DropRight

/-!
# Where tokens stand

At a token the position of the lexer is that of the offset at which the token stands, as the bytes
before it tell.
-/

set_option autoImplicit false

open List

namespace Avro

open Text

variable {front text : Text} {cell : Cell} {bytes : List UInt8}

theorem Text.Canonical.no_stray_newline (canonical : Canonical text) : .stray 10 ∉ text := by
  induction text with
  | nil => exact not_mem_nil
  | cons cell rest ih =>
    refine not_mem_cons_of_ne_of_not_mem ?_ (ih canonical.cons.1)
    rintro rfl
    have read := canonical.cons.2 10 (toBytes rest) rfl
    rw [firstCell_ascii (by decide)] at read
    cases read

private theorem Cell.newline_not_mem (noStray : cell ≠ .stray 10) (other : cell ≠ .scalar '\n') :
    10 ∉ cell.bytes := by
  intro member
  cases cell with
  | stray byte =>
    cases mem_singleton.mp member
    exact noStray rfl
  | scalar char =>
    have encodes := encode_shape char
    have narrow : ∀ byte ∈ String.utf8EncodeChar char, byte.toNat < 0x80 →
        byte.toNat = char.toNat := by
      generalize String.utf8EncodeChar char = bytes at encodes
      cases encodes <;>
        simp only [forall_mem_cons, not_mem_nil, false_implies, implies_true, and_true] <;> omega
    exact other (congrArg Cell.scalar (Char.toNat_inj.mp (narrow 10 member (by decide)).symm))

namespace Idl

variable {position : Position} {doc : Text} {tokens : List Token} {last : Token}

/-- The line and the column of an offset, counted in the bytes before it. -/
def Position.ofOffset (bytes : List UInt8) (offset : Nat) : Position where
  line := 1 + (bytes.take offset).count 10
  column := 1 + (ofBytes ((bytes.take offset).rtakeWhile (· != 10))).length

structure Token.StandsAt (bytes : List UInt8) (token : Token) (offset : Nat) : Prop where
  occurs : token.raw.toBytes <+: bytes.drop offset
  position : token.position = .ofOffset bytes offset

/-- The last line of a text, in cells and in bytes, and the position behind it. -/
private theorem past_start (clean : .stray 10 ∉ text) : ∃ above line, text = above ++ line ∧
    text.toBytes.rtakeWhile (· != 10) = line.toBytes ∧
      Position.start.past text = ⟨1 + text.toBytes.count 10, 1 + line.length⟩ := by
  induction text using reverseRecOn with
  | nil => exact ⟨[], [], rfl, rfl, rfl⟩
  | append_singleton text cell ih =>
    rw [mem_append, not_or] at clean
    obtain ⟨above, line, rfl, bytes, past⟩ := ih clean.1
    have step : Position.start.past (above ++ line ++ [cell]) =
        (Position.start.past (above ++ line)).advance cell := foldl_append
    have split : toBytes (above ++ line ++ [cell]) = toBytes (above ++ line) ++ cell.bytes := by
      simp [toBytes]
    rw [step, past, split, count_append]
    by_cases newline : cell = .scalar '\n'
    · subst newline
      exact ⟨_, [], (append_nil _).symm, rtakeWhile_concat_neg _ _ _ (by decide), rfl⟩
    · have absent := Cell.newline_not_mem (fun same => clean.2 (mem_singleton.mpr same.symm)) newline
      have inside : ∀ byte ∈ cell.bytes.reverse, (byte != 10) = true := fun byte member =>
        bne_iff_ne.mpr fun same => absent (same ▸ mem_reverse.mp member)
      refine ⟨above, line ++ [cell], append_assoc .., ?_, ?_⟩
      · rw [rtakeWhile, reverse_append, takeWhile_append_of_pos inside, reverse_append,
          reverse_reverse, ← rtakeWhile, bytes, Json.toBytes_append]
        simp [toBytes]
      · have other : cell.isChar '\n' = false := by simpa [Cell.isChar] using newline
        rw [count_eq_zero_of_not_mem absent, length_append]
        simp [Position.advance, other, Nat.add_assoc]

/-- The position of the lexer before a text that it reads is the position of the offset there. -/
theorem Run.ofOffset (run : Run position doc text tokens last)
    (whole : ofBytes bytes = front ++ text) :
    Position.start.past front = .ofOffset bytes front.toBytes.length ∧
      bytes.drop front.toBytes.length = text.toBytes := by
  have spelled : bytes = front.toBytes ++ text.toBytes := by
    rw [← Json.toBytes_append, ← whole, toBytes_ofBytes]
  have canonical : Canonical (front ++ text) := whole ▸ canonical_ofBytes bytes
  have before : Canonical front := by
    have apart := run.apart canonical.append front.toBytes
    rw [← spelled, whole] at apart
    exact (append_cancel_right apart).symm
  have taken : bytes.take front.toBytes.length = front.toBytes := by rw [spelled, take_left]
  refine ⟨?_, by rw [spelled, drop_left]⟩
  obtain ⟨above, line, rfl, last, past⟩ := past_start before.no_stray_newline
  rw [past, Position.ofOffset, taken, last, before.append]

/-- One token stands before another and ends there at the latest. -/
def Precedes (one other : Token × Nat) : Prop :=
  one.2 < other.2 ∧ one.2 + one.1.raw.toBytes.length ≤ other.2

/-- From where the lexer stands in a source, the tokens that it reads stand one behind another. -/
theorem Run.placed (run : Run position doc text tokens last)
    (whole : ofBytes bytes = front ++ text) (here : position = Position.start.past front) :
    ∃ placed : List (Token × Nat), placed.map Prod.fst = tokens ∧
      (placed ++ [(last, bytes.length)]).Pairwise Precedes ∧
      ∀ entry ∈ placed ++ [(last, bytes.length)],
        entry.1.StandsAt bytes entry.2 ∧ front.toBytes.length ≤ entry.2 := by
  induction run generalizing front with
  | @finish position doc =>
    obtain ⟨past, _⟩ := (@Run.finish position doc).ofOffset whole
    have length : front.toBytes.length = bytes.length := by
      rw [← append_nil front, ← whole, toBytes_ofBytes]
    rw [length] at past
    refine ⟨[], rfl, pairwise_singleton .., forall_mem_singleton.mpr ⟨?_, length.le⟩⟩
    exact ⟨ nil_prefix, here.trans past⟩
  | gap _ _ ih =>
    rw [← append_assoc] at whole
    obtain ⟨placed, same, apart, stand⟩ := ih whole (here ▸ foldl_append.symm)
    refine ⟨placed, same, apart, fun entry member => ?_⟩
    obtain ⟨stands, later⟩ := stand entry member
    rw [Json.toBytes_append, length_append] at later
    exact ⟨stands, Nat.le_of_add_right_le later⟩
  | @lexeme position doc inner rest first lexeme tokens last reads run ih =>
    obtain ⟨past, behind⟩ := (Run.lexeme reads run : Run position doc _ _ _).ofOffset whole
    rw [← append_assoc] at whole
    obtain ⟨placed, same, apart, stand⟩ := ih whole (here ▸ foldl_append.symm)
    have nonempty := length_pos_iff.mpr (toBytes_ne_nil (cons_ne_nil first inner))
    have later {entry : Token × Nat} (member : entry ∈ placed ++ [(last, bytes.length)]) :
        front.toBytes.length + (toBytes (first :: inner)).length ≤ entry.2 := by
      have bound := (stand entry member).2
      rwa [Json.toBytes_append, length_append] at bound
    refine ⟨(lexeme.token (first :: inner) doc position, front.toBytes.length) :: placed,
      congrArg (_ :: ·) same, pairwise_cons.mpr ⟨fun entry member => ⟨?_, later member⟩, apart⟩,
      forall_mem_cons.mpr ⟨⟨⟨?_, here.trans past⟩, Nat.le_refl _⟩, fun entry member => ?_⟩⟩
    · have bound := later member
      dsimp only
      omega
    · rw [behind, Json.toBytes_append]
      exact prefix_append ..
    · exact ⟨(stand entry member).1, Nat.le_of_add_right_le (later member)⟩

theorem Run.kinds (run : Run position doc text tokens last) :
    last.kind = .endOfFile ∧ ∀ token ∈ tokens, token.kind ≠ .endOfFile := by
  induction run with
  | finish => exact ⟨rfl, nofun⟩
  | gap _ _ ih => exact ih
  | lexeme reads _ ih =>
    refine ⟨ih.1, forall_mem_cons.mpr ⟨?_, ih.2⟩⟩
    cases reads <;> nofun

/-- The tokens of a source stand at offsets that increase, and no token reaches into the next one.
Each has the position of its offset. The last token, and no other, is the end of the source. -/
theorem lex_positions {bytes : List UInt8} {tokens : List Token} {last : Token}
    (read : lex (ofBytes bytes) = .ok (tokens, last)) :
    ∃ placed : List (Token × Nat), placed.map Prod.fst = tokens ∧
      (∀ entry ∈ placed ++ [(last, bytes.length)], entry.1.StandsAt bytes entry.2) ∧
      (placed ++ [(last, bytes.length)]).Pairwise Precedes ∧
      last.kind = .endOfFile ∧ ∀ token ∈ tokens, token.kind ≠ .endOfFile := by
  have run := run_of_readTokens read
  obtain ⟨placed, same, apart, stand⟩ := run.placed (nil_append (ofBytes bytes)).symm rfl
  exact ⟨placed, same, fun entry member => (stand entry member).1, apart, run.kinds⟩

/-- A quoted identifier goes on behind a line end, with a stray byte in it that is one column. -/
theorem lex_positions_stray :
    let bytes := toBytes "`a\n" ++ 0xFF :: toBytes "` ;"
    ∃ tokens last, lex (ofBytes bytes) = .ok (tokens, last) ∧
      (tokens ++ [last]).map Token.position = [⟨1, 1⟩, ⟨2, 4⟩, ⟨2, 5⟩] ∧
      ∃ placed : List (Token × Nat), placed.map Prod.fst = tokens ∧
        (∀ entry ∈ placed ++ [(last, 7)], entry.1.StandsAt bytes entry.2) ∧
        (placed ++ [(last, 7)]).Pairwise Precedes := by
  intro bytes
  obtain ⟨⟨tokens, last⟩, read, positions⟩ : ∃ result, lex (ofBytes bytes) = .ok result ∧
      (result.1 ++ [result.2]).map Token.position = [⟨1, 1⟩, ⟨2, 4⟩, ⟨2, 5⟩] :=
    exists_ok (by decide +kernel)
  obtain ⟨placed, same, stand, apart, _⟩ := lex_positions read
  exact ⟨tokens, last, read, positions, placed, same, stand, apart⟩

end Idl

end Avro
