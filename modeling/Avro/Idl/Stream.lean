import Avro.Idl.Fault
import Avro.Number.Decimal

/-!
# Token streams

A stream is the list of tokens still to be read; the end token is passed along apart, so that a
fault at the end has a place. Every reader returns what is left together with the fact that this is
an end of what it was given, and a shorter one if it used up a token, so loops over it end.
-/

set_option autoImplicit false

namespace Avro.Idl

structure Consumed (tokens : List Token) (α : Type) where
  value : α
  rest : List Token
  suffix : rest <:+ tokens
  shorter : rest.length < tokens.length

structure Passed (tokens : List Token) (α : Type) where
  value : α
  rest : List Token
  suffix : rest <:+ tokens

namespace Consumed

variable {α β : Type} {tokens rest : List Token} {token : Token}

def next (value : α) : Consumed (token :: rest) α :=
  ⟨value, rest, List.suffix_cons token rest, Nat.lt_succ_self _⟩

def give (result : Consumed tokens α) (value : β) : Consumed tokens β :=
  ⟨value, result.rest, result.suffix, result.shorter⟩

def andThen (first : Consumed tokens α) (later : Consumed first.rest β) : Consumed tokens β :=
  ⟨later.value, later.rest, later.suffix.trans first.suffix,
    Nat.lt_trans later.shorter first.shorter⟩

def andPass (first : Consumed tokens α) (later : Passed first.rest β) : Consumed tokens β :=
  ⟨later.value, later.rest, later.suffix.trans first.suffix,
    Nat.lt_of_le_of_lt later.suffix.length_le first.shorter⟩

def later (result : Consumed rest α) : Consumed (token :: rest) α :=
  ⟨result.value, result.rest, result.suffix.trans (List.suffix_cons token rest),
    Nat.lt_succ_of_lt result.shorter⟩

theorem tail_shorter (result : Consumed tokens α) : result.rest.tail.length < tokens.length :=
  Nat.lt_of_le_of_lt (List.tail_suffix _).length_le result.shorter

def skip (result : Consumed tokens α) : Consumed tokens α :=
  ⟨result.value, result.rest.tail, (List.tail_suffix _).trans result.suffix, result.tail_shorter⟩

def passed (result : Consumed tokens α) : Passed tokens α :=
  ⟨result.value, result.rest, result.suffix⟩

end Consumed

namespace Passed

variable {α β : Type} {tokens rest : List Token} {token : Token}

def next (value : α) : Passed (token :: rest) α := ⟨value, rest, List.suffix_cons token rest⟩

def stay (value : α) : Passed tokens α := ⟨value, tokens, List.suffix_refl tokens⟩

theorem noLonger (result : Passed tokens α) : result.rest.length ≤ tokens.length :=
  result.suffix.length_le

def andThen (first : Passed tokens α) (later : Consumed first.rest β) : Consumed tokens β :=
  ⟨later.value, later.rest, later.suffix.trans first.suffix,
    Nat.lt_of_lt_of_le later.shorter first.noLonger⟩

def skip (result : Passed tokens α) : Passed tokens α :=
  ⟨result.value, result.rest.tail, (List.tail_suffix _).trans result.suffix⟩

end Passed

def require (condition : Bool) (fault : Fault) : Except Fault Unit :=
  if condition then .ok () else .error fault

def peek (last : Token) (tokens : List Token) : Token := tokens.headD last

def nextIsMark (mark : Char) : List Token → Bool
  | [] => false
  | token :: _ => token.isMark mark

def accept (test : Token → Bool) (problem : Text → Problem) (last : Token) (tokens : List Token) :
    Except Fault (Consumed tokens Token) :=
  match tokens with
  | [] => .error ⟨last.position, problem last.describe⟩
  | token :: _ =>
    if test token then .ok (.next token)
    else .error ⟨token.position, problem token.describe⟩

def acceptMark (mark : Char) : (last : Token) → (tokens : List Token) →
    Except Fault (Consumed tokens Token) :=
  accept (·.isMark mark) (.expectedMark mark)

def acceptKeyword (word : Text) : (last : Token) → (tokens : List Token) →
    Except Fault (Consumed tokens Token) :=
  accept (·.isKeyword word) (.expectedKeyword word)

def acceptIdentifier : (last : Token) → (tokens : List Token) →
    Except Fault (Consumed tokens Token) :=
  accept (·.kind = .identifier) .expectedIdentifier

def acceptString : (last : Token) → (tokens : List Token) →
    Except Fault (Consumed tokens Token) :=
  accept (·.kind = .string) .expectedString

/-- What stands between two elements of a list, or ends it: a comma is used up, the closing mark is
left, and anything else is a fault. -/
def passSeparator (closing : Char) (last : Token) (tokens : List Token) :
    Except Fault (Passed tokens Unit) :=
  match tokens with
  | [] => .error ⟨last.position, .expectedSeparator closing last.describe⟩
  | token :: _ =>
    if token.isMark ',' then .ok (.next ())
    else if token.isMark closing then .ok (.stay ())
    else .error ⟨token.position, .expectedSeparator closing token.describe⟩

/-!
## Inline values and annotations

Default values and the arguments of annotations are JSON values written with the tokens of the
interface language. A comma may follow the last element of a list.
-/

mutual

def readJson (last : Token) (tokens : List Token) : Except Fault (Consumed tokens Json) :=
  match tokens with
  | [] => .error ⟨last.position, .expectedJson last.describe⟩
  | token :: rest =>
    if token.kind = .string then .ok (.next (.str token.text))
    else if token.kind = .number then
      if (Number.readDouble? token.text).isSome then .ok (.next (.num token.text))
      else .error ⟨token.position, .badNumber token.text⟩
    else if token.isKeyword "true" then .ok (.next (.bool true))
    else if token.isKeyword "false" then .ok (.next (.bool false))
    else if token.isKeyword "null" then .ok (.next .null)
    else if token.isMark '[' then
      (readItems last rest).map fun items => (items.give (.arr items.value)).later
    else if token.isMark '\x7b' then
      (readMembers last [] rest).map fun members => (members.give (.obj members.value)).later
    else .error ⟨token.position, .expectedJson token.describe⟩
termination_by (tokens.length, 0)

def readItems (last : Token) (tokens : List Token) :
    Except Fault (Consumed tokens (List Json)) :=
  match tokens with
  | [] => .error ⟨last.position, .expectedJson last.describe⟩
  | token :: rest =>
    if token.isMark ']' then .ok (.next [])
    else do
      let item ← readJson last (token :: rest)
      let next ← passSeparator ']' last item.rest
      let items ← readItems last next.rest
      return ((item.andPass next).andThen items).give (item.value :: items.value)
termination_by (tokens.length, 1)
decreasing_by
  · simp [Prod.lex_def]
  · exact Prod.Lex.left _ _ (item.andPass next).shorter

def readMembers (last : Token) (before : Members) (tokens : List Token) :
    Except Fault (Consumed tokens Members) :=
  match tokens with
  | [] => .error ⟨last.position, .expectedString last.describe⟩
  | token :: rest =>
    if token.isMark '\x7d' then .ok (.next before)
    else do
      let key ← acceptString last (token :: rest)
      let colon ← acceptMark ':' last key.rest
      let value ← readJson last colon.rest
      require (!before.has key.value.text) ⟨key.value.position, .duplicateKey key.value.text⟩
      let next ← passSeparator '\x7d' last value.rest
      let members ← readMembers last (before ++ [(key.value.text, value.value)]) next.rest
      return (((key.andThen colon).andThen value).andPass next).andThen members
termination_by (tokens.length, 1)
decreasing_by
  · exact Prod.Lex.left _ _ (key.andThen colon).shorter
  · exact Prod.Lex.left _ _ (((key.andThen colon).andThen value).andPass next).shorter

end

def readAnnotationsAfter (last : Token) (before : Members) (tokens : List Token) :
    Except Fault (Passed tokens Members) :=
  match tokens with
  | [] => .ok (.stay before)
  | token :: rest =>
    if token.isMark '@' then do
      let name ← acceptIdentifier last rest
      let opening ← acceptMark '(' last name.rest
      let value ← readJson last opening.rest
      let closing ← acceptMark ')' last value.rest
      require (!before.has name.value.text) ⟨token.position, .annotatedTwice name.value.text⟩
      let all ← readAnnotationsAfter last (before ++ [(name.value.text, value.value)]) closing.rest
      return ((((name.andThen opening).andThen value).andThen closing).andPass all).later.passed
    else .ok (.stay before)
termination_by tokens.length
decreasing_by exact (((name.andThen opening).andThen value).andThen closing).later.shorter

def readAnnotations (last : Token) (tokens : List Token) : Except Fault (Passed tokens Members) :=
  readAnnotationsAfter last [] tokens

def readInteger (last : Token) (tokens : List Token) : Except Fault (Consumed tokens Nat) := do
  let token ← accept (·.kind = .number) .expectedInteger last tokens
  match Number.readInt64 token.value.text with
  | .value (.ofNat number) => .ok (token.give number)
  | _ => .error ⟨token.value.position, .badInteger token.value.text⟩

end Avro.Idl
