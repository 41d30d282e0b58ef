import Avro.Json.Basic
import Avro.Json.Token
import Avro.Text.Quoted

/-!
# Reading JSON

Tokens build a value from left to right. What is still open is a stack of holes, so the state after
some tokens is exactly the part of a value that they spell. An object refuses a key that it has.
-/

set_option autoImplicit false

namespace Avro.Json

/-- A value under construction with a place for the next part: an array after some items, or an
object after some members and the next key. -/
inductive Hole where
  | item (before : List Json)
  | member (before : Members) (key : Text)
deriving Repr

def escapePointer (key : Text) : Text :=
  (key.replaceChar '~' "~0").replaceChar '/' "~1"

def Hole.step : Hole → Text
  | .item before => Text.ofNat before.length
  | .member _ key => escapePointer key

def pointer (holes : List Hole) : Text :=
  holes.reverse.flatMap fun hole => "/" ++ hole.step

def shownPointer (holes : List Hole) : Text :=
  if holes.isEmpty then "/" else pointer holes

inductive DecodeError where
  | malformed (cause : ScanError)
  | unexpectedEnd
  | trailingData
  | duplicateKey (key path : Text)
deriving DecidableEq, Repr

namespace DecodeError

def message : DecodeError → Text
  | .malformed cause => cause.message
  | .unexpectedEnd => "unexpected EOF"
  | .trailingData => "jsontree: unexpected data after top-level value"
  | .duplicateKey key path => "duplicate key " ++ Text.quote key ++ " at " ++ path

end DecodeError

inductive Progress where
  | wantsValue (holes : List Hole)
  | wantsKey (before : Members) (holes : List Hole)
  | complete (value : Json)
deriving Repr

def fill (value : Json) : List Hole → Progress
  | [] => .complete value
  | .item before :: holes => .wantsValue (.item (before ++ [value]) :: holes)
  | .member before key :: holes => .wantsKey (before ++ [(key, value)]) holes

def Progress.step : Progress → Token → Except DecodeError Progress
  | .wantsValue holes, .openObject => .ok (.wantsKey [] holes)
  | .wantsValue holes, .openArray => .ok (.wantsValue (.item [] :: holes))
  | .wantsValue holes, .str text => .ok (fill (.str text) holes)
  | .wantsValue holes, .num literal => .ok (fill (.num literal) holes)
  | .wantsValue holes, .bool value => .ok (fill (.bool value) holes)
  | .wantsValue holes, .null => .ok (fill .null holes)
  | .wantsValue (.item before :: holes), .closeArray => .ok (fill (.arr before) holes)
  | .wantsValue _, _ => .error .unexpectedEnd
  | .wantsKey before holes, .closeObject => .ok (fill (.obj before) holes)
  | .wantsKey before holes, .str key =>
    if before.has key then .error (.duplicateKey key (shownPointer holes))
    else .ok (.wantsValue (.member before key :: holes))
  | .wantsKey _ _, _ => .error .unexpectedEnd
  | .complete _, _ => .error .trailingData

def Progress.take : Progress → Token × Bool → Except DecodeError Progress
  | .wantsValue _, (.str _, true) => .error .unexpectedEnd
  | .wantsKey _ _, (.str _, false) => .error .unexpectedEnd
  | progress, (token, _) => progress.step token

def Progress.takeAll : Progress → List (Token × Bool) → Except DecodeError Progress
  | progress, [] => .ok progress
  | progress, token :: rest =>
    match progress.take token with
    | .ok next => next.takeAll rest
    | .error error => .error error

def decode (text : Text) : Except DecodeError Json :=
  let scanned := scan text
  match (Progress.wantsValue []).takeAll (roles [] scanned.tokens) with
  | .error error => .error error
  | .ok progress =>
    match scanned.failure with
    | some failure => .error (.malformed failure)
    | none =>
      match progress with
      | .complete value => .ok value
      | _ => .error .unexpectedEnd

end Avro.Json
