import Avro.Text.Basic

/-!
# Reading bytes as text

A scalar is read exactly where its own encoding stands; any other byte is stray. So overlong
forms, surrogates and cut-off sequences fall apart into stray bytes, and writing a text gives
the bytes it was read from (`toBytes_ofBytes`).
-/

set_option autoImplicit false

namespace Avro.Text

def payload : List UInt8 → Nat
  | [a] => a.toNat
  | [a, b] => (a.toNat % 32) * 64 + b.toNat % 64
  | [a, b, c] => (a.toNat % 16) * 4096 + (b.toNat % 64) * 64 + c.toNat % 64
  | [a, b, c, d] =>
    (a.toNat % 8) * 262144 + (b.toNat % 64) * 4096 + (c.toNat % 64) * 64 + d.toNat % 64
  | _ => 0

def scalar? (bytes : List UInt8) : Option Char :=
  let char := Char.ofNat (payload bytes)
  if String.utf8EncodeChar char = bytes then some char else none

def claimedLength (byte : UInt8) : Nat :=
  if byte < 0x80 then 1 else if byte < 0xE0 then 2 else if byte < 0xF0 then 3 else 4

def firstCell (first : UInt8) (rest : List UInt8) : Cell :=
  match scalar? ((first :: rest).take (claimedLength first)) with
  | some char => .scalar char
  | none => .stray first

theorem scalar?_eq_some {bytes : List UInt8} {char : Char} (found : scalar? bytes = some char) :
    String.utf8EncodeChar char = bytes := by
  simp only [scalar?] at found
  split at found
  · rename_i same
    cases found
    exact same
  · simp at found

theorem firstCell_bytes (first : UInt8) (rest : List UInt8) :
    (firstCell first rest).bytes ++ (first :: rest).drop (firstCell first rest).width =
      first :: rest := by
  unfold firstCell
  split
  · rename_i char found
    have same := scalar?_eq_some found
    simp only [Cell.bytes, Cell.width, same]
    have short : ((first :: rest).take (claimedLength first)).length ≤ (first :: rest).length := by
      rw [List.length_take]
      exact Nat.min_le_right _ _
    generalize first :: rest = all at short ⊢
    rw [List.length_take]
    by_cases fits : claimedLength first ≤ all.length
    · rw [Nat.min_eq_left fits, List.take_append_drop]
    · rw [Nat.min_eq_right (by omega), List.drop_length, List.append_nil,
        List.take_of_length_le (by omega)]
  · simp [Cell.bytes, Cell.width]

def ofBytes : List UInt8 → Text
  | [] => []
  | first :: rest =>
    firstCell first rest :: ofBytes (rest.drop ((firstCell first rest).width - 1))
termination_by bytes => bytes.length
decreasing_by simp only [List.length_drop, List.length_cons]; omega

theorem toBytes_ofBytes (bytes : List UInt8) : (ofBytes bytes).toBytes = bytes := by
  fun_induction ofBytes bytes with
  | case1 => rfl
  | case2 first rest ih =>
    have whole := firstCell_bytes first rest
    have positive := width_pos (firstCell first rest)
    obtain ⟨less, eq⟩ : ∃ less, (firstCell first rest).width = less + 1 :=
      ⟨(firstCell first rest).width - 1, by omega⟩
    rw [eq, List.drop_succ_cons] at whole
    rw [eq, Nat.add_sub_cancel] at ih
    simp only [toBytes, List.flatMap_cons] at ih ⊢
    rw [eq, Nat.add_sub_cancel, ih, whole]

/-!
## Bytes written in base 64

Four characters stand for three bytes. At the end two or three characters stand for one or two
bytes, and equals signs fill the four.
-/

def sixBits? (char : Char) : Option Nat :=
  if 'A' ≤ char && char ≤ 'Z' then some (char.toNat - 'A'.toNat)
  else if 'a' ≤ char && char ≤ 'z' then some (char.toNat - 'a'.toNat + 26)
  else if char.isDigit then some (char.toNat - '0'.toNat + 52)
  else if char = '+' then some 62
  else if char = '/' then some 63
  else none

def leadingBytes (count : Nat) (bits : Nat) : List UInt8 :=
  [UInt8.ofNat (bits / 65536), UInt8.ofNat (bits / 256), UInt8.ofNat bits].take count

def joinSixes (first second third fourth : Nat) : Nat :=
  ((first * 64 + second) * 64 + third) * 64 + fourth

def bytesOfBase64? : List Char → Option (List UInt8)
  | [] => some []
  | [first, second, '=', '='] => do
    return leadingBytes 1 (joinSixes (← sixBits? first) (← sixBits? second) 0 0)
  | [first, second, third, '='] => do
    return leadingBytes 2 (joinSixes (← sixBits? first) (← sixBits? second) (← sixBits? third) 0)
  | first :: second :: third :: fourth :: rest => do
    let bits := joinSixes (← sixBits? first) (← sixBits? second) (← sixBits? third)
      (← sixBits? fourth)
    return leadingBytes 3 bits ++ (← bytesOfBase64? rest)
  | _ => none

def ofBase64? (text : Text) : Option Text :=
  let chars := (text.filter fun cell => !cell.isChar '\n' && !cell.isChar '\x0d').map Cell.shown
  (bytesOfBase64? chars).map ofBytes

end Avro.Text
