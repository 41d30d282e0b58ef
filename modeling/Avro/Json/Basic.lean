import Avro.Text.Basic

/-!
# Ordered JSON

A JSON value keeps the order of its object members and the text of its numbers. The type itself
allows an object to repeat a key; `Json.DistinctKeys` says that no object does.
-/

set_option autoImplicit false

namespace Avro

/-- A JSON value. A number that was read keeps its literal; an integer that the program itself
computed is kept as such and is written in decimal. -/
inductive Json where
  | null
  | bool (value : Bool)
  | str (text : Text)
  | num (literal : Text)
  | int (value : Int)
  | arr (items : List Json)
  | obj (members : List (Text × Json))
deriving Repr, Inhabited

abbrev Members := List (Text × Json)

namespace Members

def one (key : Text) (value : Json) : Members := [(key, value)]

def keys (members : Members) : List Text := members.map Prod.fst

def get? : Members → Text → Option Json
  | [], _ => none
  | (key, value) :: rest, wanted => if key = wanted then some value else get? rest wanted

def has (members : Members) (key : Text) : Bool := (members.get? key).isSome

def set : Members → Text → Json → Members
  | [], key, value => [(key, value)]
  | (other, old) :: rest, key, value =>
    if other = key then (key, value) :: rest else (other, old) :: set rest key value

def setAll (members more : Members) : Members :=
  more.foldl (fun acc member => acc.set member.1 member.2) members

def without (members : Members) (key : Text) : Members :=
  members.filter fun member => member.1 ≠ key

def text? (members : Members) (key : Text) : Option Text :=
  match members.get? key with
  | some (.str text) => some text
  | _ => none

theorem sizeOf_get? {members : Members} {key : Text} {value : Json}
    (found : members.get? key = some value) : sizeOf value < sizeOf members := by
  induction members with
  | nil => simp [get?] at found
  | cons member rest ih =>
    obtain ⟨other, stored⟩ := member
    simp only [get?] at found
    split at found
    · cases found
      simp
      omega
    · have := ih found
      simp
      omega

end Members

end Avro
