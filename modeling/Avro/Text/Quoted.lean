import Avro.Text.Character

/-!
# Quoted text

How messages and generated sources show a text between quotes: the quote and the backslash are
escaped, so are characters that do not print, and a stray byte is shown by its value.
-/

set_option autoImplicit false

namespace Avro.Text

def hex (width number : Nat) : Text :=
  let digits := Nat.toDigits 16 number
  (List.replicate (width - digits.length) '0' ++ digits).map Cell.scalar

def controlEscape? : Char → Option Char
  | '\x07' => some 'a'
  | '\x08' => some 'b'
  | '\x0c' => some 'f'
  | '\n' => some 'n'
  | '\r' => some 'r'
  | '\t' => some 't'
  | '\x0b' => some 'v'
  | _ => none

def quoteCell (mark : Char) : Cell → Text
  | .stray byte => "\\x" ++ hex 2 byte.toNat
  | .scalar char =>
    if char == mark || char == '\\' then [.scalar '\\', .scalar char]
    else if isPrintable char then [.scalar char]
    else
      match controlEscape? char with
      | some letter => [.scalar '\\', .scalar letter]
      | none =>
        if char.toNat < 0x20 || char.toNat == 0x7F then "\\x" ++ hex 2 char.toNat
        else if char.toNat < 0x10000 then "\\u" ++ hex 4 char.toNat
        else "\\U" ++ hex 8 char.toNat

def quote (text : Text) : Text := "\"" ++ text.flatMap (quoteCell '"') ++ "\""

def quoteOne (cell : Cell) : Text := "'" ++ quoteCell '\'' (.scalar cell.shown) ++ "'"

end Avro.Text
