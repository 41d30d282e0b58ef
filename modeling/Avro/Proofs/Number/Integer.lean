import Avro.Number.Decimal

/-!
# Integers in decimal

A number in range is read from its decimal digits.
-/

set_option autoImplicit false

open List

namespace Avro.Number

private theorem foldlM_addDigit? {chars : List Char} (digits : ∀ char ∈ chars, char.isDigit = true)
    (start : Nat) :
    (chars.map Cell.scalar).foldlM addDigit? start = some (Nat.ofDigitChars 10 chars start) := by
  induction chars generalizing start with
  | nil => rfl
  | cons _ _ ih =>
    obtain ⟨digit, others⟩ := forall_mem_cons.mp digits
    rw [map_cons, foldlM_cons, addDigit?, if_pos digit, Nat.ofDigitChars_cons,
      Nat.mul_comm 10]
    exact ih others _

theorem digits?_ofNat (number : Nat) : digits? (Text.ofNat number) = some number := by
  have nonempty : (Text.ofNat number).isEmpty = false := by
    rw [isEmpty_eq_false_iff, Text.ofNat, Ne, map_eq_nil_iff]
    exact Nat.toDigits_ne_nil
  rw [digits?, nonempty, if_neg Bool.false_ne_true, Text.ofNat,
    foldlM_addDigit? fun _ => Nat.isDigit_of_mem_toDigits (by decide) (by decide),
    Nat.ofDigitChars_toDigits (by decide) (by decide)]

private theorem takeSign_digit {char : Char} {rest : Text} (digit : char.isDigit = true) :
    takeSign (.scalar char :: rest) = (false, .scalar char :: rest) := by
  unfold takeSign
  split
  · rename_i same
    cases same
    cases digit
  · rename_i same
    cases same
    cases digit
  · rfl

private theorem takeSign_ofNat (number : Nat) :
    takeSign (Text.ofNat number) = (false, Text.ofNat number) := by
  rw [Text.ofNat]
  cases spelled : Nat.toDigits 10 number with
  | nil => exact absurd spelled Nat.toDigits_ne_nil
  | cons char =>
    have first : char ∈ Nat.toDigits 10 number := by
      rw [spelled]
      exact mem_cons_self
    exact takeSign_digit (Nat.isDigit_of_mem_toDigits (by decide) (by decide) first)

theorem readInt64_ofNat {number : Nat} (small : (number : Int) ≤ maxInt64) :
    readInt64 (Text.ofNat number) = .value number := by
  rw [readInt64, takeSign_ofNat]
  simp only [digits?_ofNat, Bool.false_eq_true, if_false]
  exact if_neg (Int.not_lt.mpr small)

theorem le_maxInt64_of_readInt64 {literal : Text} {number : Int}
    (read : readInt64 literal = .value number) : number ≤ maxInt64 := by
  simp only [readInt64] at read
  split at read
  · cases read
  · rename_i value _
    split at read
    · split at read
      · cases read
      · cases read
        have : (0 : Int) ≤ (value : Int) := Int.natCast_nonneg value
        unfold maxInt64
        omega
    · split at read
      · cases read
      · rename_i small
        cases read
        exact Int.not_lt.mp small

end Avro.Number
