import Avro.Json.Token

/-!
# The encoding of a scalar

How many bytes a scalar has, which may stand first, second and third, and that their payload is its
code. Only `encode_shape` looks into the encoding itself.
-/

set_option autoImplicit false

open List

namespace Avro.Text

variable {code : Nat} {bytes rest : List UInt8} {first : UInt8}

/-- The bytes of a scalar with some code, by their number. -/
inductive Encodes (code : Nat) : List UInt8 → Prop
  | one {first : UInt8} (small : code < 0x80) (firstIs : first.toNat = code) :
      Encodes code [first]
  | two {first second : UInt8} (low : 0x80 ≤ code) (high : code < 0x800)
      (firstIs : first.toNat = 0xC0 + code / 64) (secondIs : second.toNat = 0x80 + code % 64) :
      Encodes code [first, second]
  | three {first second third : UInt8} (low : 0x800 ≤ code) (high : code < 0x10000)
      (noSurrogate : code < 0xD800 ∨ 0xE000 ≤ code)
      (firstIs : first.toNat = 0xE0 + code / 4096)
      (secondIs : second.toNat = 0x80 + code / 64 % 64)
      (thirdIs : third.toNat = 0x80 + code % 64) :
      Encodes code [first, second, third]
  | four {first second third fourth : UInt8} (low : 0x10000 ≤ code) (high : code < 0x110000)
      (firstIs : first.toNat = 0xF0 + code / 262144)
      (secondIs : second.toNat = 0x80 + code / 4096 % 64)
      (thirdIs : third.toNat = 0x80 + code / 64 % 64)
      (fourthIs : fourth.toNat = 0x80 + code % 64) :
      Encodes code [first, second, third, fourth]

theorem encode_shape (char : Char) : Encodes char.toNat (String.utf8EncodeChar char) := by
  have valid : char.toNat < 0xD800 ∨ 0xDFFF < char.toNat ∧ char.toNat < 0x110000 := char.valid
  have byte (number : Nat) (small : number < 256) : (UInt8.ofNat number).toNat = number := by
    rw [UInt8.toNat_ofNat']
    exact Nat.mod_eq_of_lt small
  have code : char.val.toNat = char.toNat := rfl
  simp only [String.utf8EncodeChar, code]
  split
  · exact .one (by omega) (byte _ (by omega))
  · split
    · refine .two (by omega) (by omega) ?_ ?_ <;> rw [byte _ (by omega)] <;> omega
    · split
      · refine .three (by omega) (by omega) (by omega) ?_ ?_ ?_ <;>
          rw [byte _ (by omega)] <;> omega
      · refine .four (by omega) (by omega) ?_ ?_ ?_ ?_ <;> rw [byte _ (by omega)] <;> omega

private theorem Encodes.payload_eq (encodes : Encodes code bytes) : payload bytes = code := by
  cases encodes <;> simp only [payload] <;> omega

theorem scalar?_encode (char : Char) : scalar? (String.utf8EncodeChar char) = some char := by
  simp only [scalar?, (encode_shape char).payload_eq, Char.ofNat_toNat, if_pos]

theorem Encodes.claimedLength_eq (encodes : Encodes code (first :: rest)) :
    claimedLength first = (first :: rest).length := by
  cases encodes <;>
    simp only [claimedLength, UInt8.lt_iff_toNat_lt, UInt8.reduceToNat, length_cons,
      length_nil] <;>
    grind

theorem Encodes.zero_not_mem (encodes : Encodes code bytes) (positive : code ≠ 0) : 0 ∉ bytes := by
  have nonzero : ∀ byte ∈ bytes, byte.toNat ≠ 0 := by
    cases encodes <;>
      simp only [forall_mem_cons, not_mem_nil, false_implies, implies_true, and_true] <;>
      omega
  intro member
  exact nonzero 0 member rfl

theorem Encodes.starts_wide (encodes : Encodes code (first :: rest)) (wide : 0x80 ≤ code) :
    ¬ first < 0x80 ∧ Json.Feed.isNeverFirst first = false := by
  simp only [Json.Feed.isNeverFirst, UInt8.lt_iff_toNat_lt, UInt8.reduceToNat,
    Bool.or_eq_false_iff, decide_eq_false_iff_not]
  cases encodes <;> omega

theorem Encodes.isSecond {second : UInt8} (encodes : Encodes code (first :: second :: rest)) :
    Json.Feed.isSecond first second = true := by
  simp only [Json.Feed.isSecond, beq_iff_eq, Bool.and_eq_true, decide_eq_true_eq,
    ← UInt8.toNat_inj, UInt8.le_iff_toNat_le, apply_ite UInt8.toNat, UInt8.reduceToNat]
  cases encodes <;> grind

private theorem Encodes.third_continues {second third : UInt8}
    (encodes : Encodes code (first :: second :: third :: rest)) :
    (third < 0x80 || 0xBF < third) = false := by
  simp only [UInt8.lt_iff_toNat_lt, UInt8.reduceToNat, Bool.or_eq_false_iff,
    decide_eq_false_iff_not]
  cases encodes <;> omega

theorem Encodes.undecided {front back : List UInt8} (encodes : Encodes code (front ++ back))
    (cut : back ≠ []) : Json.Feed.isDecided front = false := by
  cases front with
  | nil => rfl
  | cons first rest =>
    have short : ¬ claimedLength first ≤ (first :: rest).length := by
      have whole : claimedLength first = (first :: rest ++ back).length :=
        encodes.claimedLength_eq
      have positive := length_pos_iff.mpr cut
      rw [whole, length_append]
      omega
    simp only [Json.Feed.isDecided, decide_eq_false short, Bool.false_or]
    cases rest with
    | nil => rfl
    | cons _ rest =>
      simp only [encodes.isSecond, Bool.not_true, Bool.false_or]
      cases rest with
      | nil => rfl
      | cons => exact encodes.third_continues

theorem Encodes.decided (encodes : Encodes code bytes) (more : List UInt8) :
    Json.Feed.isDecided (bytes ++ more) = true := by
  cases bytes with
  | nil => cases encodes
  | cons first rest =>
    have whole : claimedLength first ≤ (first :: rest ++ more).length := by
      rw [encodes.claimedLength_eq, length_append]
      exact Nat.le_add_right _ _
    rw [cons_append] at whole ⊢
    simp only [Json.Feed.isDecided, whole, decide_true, Bool.true_or]

theorem Encodes.continues (encodes : Encodes code (first :: rest)) :
    ∀ byte ∈ rest, ¬(byte < 0x80 ∨ 0xC0 ≤ byte) := by
  simp only [UInt8.lt_iff_toNat_lt, UInt8.le_iff_toNat_le, UInt8.reduceToNat]
  cases encodes <;> simp only [forall_mem_cons, not_mem_nil, false_implies, implies_true,
    and_true] <;> omega

/-- Where a byte stands that goes on with no scalar, nothing before it is read together with it. -/
theorem firstCell_append {back : List UInt8} (apart : ∀ byte ∈ back.head?, byte < 0x80 ∨ 0xC0 ≤ byte) :
    firstCell first (rest ++ back) = firstCell first rest := by
  have found {bytes : List UInt8} {char : Char}
      (read : scalar? ((first :: bytes).take (claimedLength first)) = some char) :
      ∃ later, (first :: bytes).take (claimedLength first) = first :: later ∧
        Encodes char.toNat (first :: later) := by
    have encodes := encode_shape char
    rw [scalar?_eq_some read] at encodes
    cases length : claimedLength first with
    | zero =>
      rw [length] at encodes
      cases encodes
    | succ =>
      rw [length] at encodes
      exact ⟨_, take_succ_cons, encodes⟩
  by_cases fits : claimedLength first ≤ (first :: rest).length
  · rw [firstCell, firstCell, ← cons_append, take_append_of_le_length fits]
  · -- neither reading finds a scalar: its bytes end too early, or go on behind the border
    have alone : scalar? ((first :: rest).take (claimedLength first)) = none := by
      rw [Option.eq_none_iff_forall_ne_some]
      intro char read
      obtain ⟨later, same, encodes⟩ := found read
      have length := congrArg List.length same
      rw [← encodes.claimedLength_eq, length_take] at length
      omega
    have together : scalar? ((first :: (rest ++ back)).take (claimedLength first)) = none := by
      cases back with
      | nil => rwa [append_nil]
      | cons byte =>
        rw [Option.eq_none_iff_forall_ne_some]
        intro char read
        obtain ⟨later, same, encodes⟩ := found read
        refine encodes.continues byte ?_ (apart byte rfl)
        obtain ⟨count, length⟩ := Nat.exists_eq_add_of_lt (Nat.lt_of_not_le fits)
        rw [length, ← cons_append, take_append, take_of_length_le (by omega)] at same
        have more : (first :: rest).length + count + 1 - (first :: rest).length = count + 1 := by omega
        rw [more, take_succ_cons, cons_append] at same
        rw [← (List.cons.inj same).2]
        exact mem_append_right _ mem_cons_self
    rw [firstCell, firstCell, alone, together]

theorem ofBytes_append {back : List UInt8} (front : List UInt8)
    (apart : ∀ byte ∈ back.head?, byte < 0x80 ∨ 0xC0 ≤ byte) :
    ofBytes (front ++ back) = ofBytes front ++ ofBytes back := by
  fun_induction ofBytes front with
  | case1 => rfl
  | case2 first rest ih =>
    have whole := congrArg List.length (firstCell_bytes first rest)
    rw [length_append, length_drop] at whole
    have fits : (firstCell first rest).width - 1 ≤ rest.length := by
      rw [length_cons] at whole
      change (firstCell first rest).width + _ = _ at whole
      omega
    rw [cons_append, ofBytes, firstCell_append apart, drop_append_of_le_length fits, ih]
    rfl

end Avro.Text
