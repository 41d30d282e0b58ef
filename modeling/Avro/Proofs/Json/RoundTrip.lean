import Avro.Json.Decode
import Avro.Proofs.Json.Written
import Avro.Proofs.Json.Members

/-!
# Reading what was written

A written value is read as itself, but a stray byte comes back as the replacement character, and an
integer as its decimal literal.
-/

set_option autoImplicit false

open List

namespace Avro.Json

/-!
## Keys and nesting

Which strings are keys is told by a stack that every closing bracket pops. The decoder keeps a stack
of its own, and the two are in step, so that the roles never decide anything.
-/

def Hole.nesting : Hole → Nesting
  | .item _ => .array
  | .member _ _ => .object false

def Progress.nesting : Progress → List Nesting
  | .wantsValue holes => holes.map Hole.nesting
  | .wantsKey _ holes => .object true :: holes.map Hole.nesting
  | .complete _ => []

def Progress.run : Progress → List Token → Except DecodeError Progress
  | progress, [] => .ok progress
  | progress, token :: rest =>
    match progress.step token with
    | .ok next => next.run rest
    | .error error => .error error

theorem nesting_fill (value : Json) (holes : List Hole) :
    (fill value holes).nesting = valueDone (holes.map Hole.nesting) := by
  cases holes with
  | nil => rfl
  | cons hole => cases hole <;> rfl

private theorem roles_str (holes : List Hole) (text : Text) (rest : List Token) :
    roles (holes.map Hole.nesting) (.str text :: rest) =
      (.str text, false) :: roles (valueDone (holes.map Hole.nesting)) rest := by
  cases holes with
  | nil => rfl
  | cons hole => cases hole <;> rfl

private theorem roles_step (progress : Progress) (token : Token) (rest : List Token) :
    ∃ role stack, roles progress.nesting (token :: rest) = (token, role) :: roles stack rest ∧
      progress.take (token, role) = progress.step token ∧
      ∀ next, progress.step token = .ok next → stack = next.nesting := by
  cases progress with
  | complete =>
    -- nothing may follow a complete value, a key as little as anything else
    cases token <;> exact ⟨_, _, rfl, rfl, fun _ stepped => nomatch stepped⟩
  | wantsKey _ holes =>
    cases token with
    | str =>
      refine ⟨true, .object false :: holes.map Hole.nesting, rfl, rfl, ?_⟩
      intro next stepped
      rw [Progress.step] at stepped
      split at stepped
      · cases stepped
      · cases stepped
        rfl
    | closeObject =>
      refine ⟨false, _, rfl, rfl, ?_⟩
      intro next stepped
      cases stepped
      exact (nesting_fill _ _).symm
    | _ => exact ⟨_, _, rfl, rfl, fun _ stepped => nomatch stepped⟩
  | wantsValue holes =>
    cases token with
    | str text =>
      refine ⟨false, _, roles_str holes text rest, rfl, ?_⟩
      intro next stepped
      cases stepped
      exact (nesting_fill _ _).symm
    | openObject | openArray =>
      refine ⟨false, _, rfl, rfl, ?_⟩
      intro next stepped
      cases stepped
      rfl
    | closeObject => cases holes <;> exact ⟨_, _, rfl, rfl, fun _ stepped => nomatch stepped⟩
    | closeArray =>
      refine ⟨false, _, rfl, rfl, ?_⟩
      intro next stepped
      cases holes with
      | nil => cases stepped
      | cons hole =>
        cases hole with
        | member => cases stepped
        | item =>
          cases stepped
          exact (nesting_fill _ _).symm
    | num | bool | null =>
      refine ⟨false, valueDone (holes.map Hole.nesting), ?_, rfl, ?_⟩
      · cases holes with
        | nil => rfl
        | cons hole => cases hole <;> rfl
      · intro next stepped
        cases stepped
        exact (nesting_fill _ _).symm

/-- The roles that the brackets give to tokens change nothing. -/
private theorem takeAll_roles (progress : Progress) (tokens : List Token) :
    progress.takeAll (roles progress.nesting tokens) = progress.run tokens := by
  induction tokens generalizing progress with
  | nil =>
    rw [roles]
    rfl
  | cons token rest ih =>
    obtain ⟨role, stack, marked, taken, moved⟩ := roles_step progress token rest
    rw [marked, Progress.takeAll, taken, Progress.run]
    cases stepped : progress.step token with
    | error => rfl
    | ok next =>
      rw [moved next stepped]
      exact ih next

theorem decode_eq (text : Text) :
    decode text =
      match (Progress.wantsValue []).run (scan text).tokens with
      | .error error => .error error
      | .ok progress =>
        match (scan text).failure with
        | some failure => .error (.malformed failure)
        | none =>
          match progress with
          | .complete value => .ok value
          | _ => .error .unexpectedEnd := by
  have same := takeAll_roles (.wantsValue []) (scan text).tokens
  rw [decode, ← same]
  rfl

/-! ## Readable values -/

open Progress

variable {text : Text} {Allows : Text → Prop} {atoms : List Atom}

mutual

def tokens : Json → List Token
  | .null => [.null]
  | .bool value => [.bool value]
  | .str text => [.str text]
  | .num literal => [.num literal]
  | .int value => [.num (Text.ofInt value)]
  | .arr items => .openArray :: (itemTokens items ++ [.closeArray])
  | .obj members => .openObject :: (memberTokens members ++ [.closeObject])

def itemTokens : List Json → List Token
  | [] => []
  | item :: items => item.tokens ++ itemTokens items

def memberTokens : List (Text × Json) → List Token
  | [] => []
  | (key, value) :: members => .str key :: (value.tokens ++ memberTokens members)

end

/-- A value that a document may stand for: no object repeats a key, and every number is a literal. -/
inductive Keyed : Json → Prop
  | null : Keyed .null
  | bool (value : Bool) : Keyed (.bool value)
  | str (text : Text) : Keyed (.str text)
  | num (literal : Text) : Keyed (.num literal)
  | arr {items} (each : ∀ item ∈ items, Keyed item) : Keyed (.arr items)
  | obj {members : Members} (distinct : (members.map Prod.fst).Nodup)
      (each : ∀ member ∈ members, Keyed member.2) : Keyed (.obj members)

/-! ## From the text to its tokens -/

def Atom.tokens : Atom → List Token
  | .mark char => (markJson? char).getD []
  | .word known => [known.token]
  | .str text => [.str text]
  | .num literal => [.num literal]

theorem Scanned.followed {feed json more rest} (scanned : Scanned feed json rest)
    (later : ∀ next : Feed, next.Shows rest → scanFrom next.settle = ⟨more, none⟩) :
    scanFrom feed.settle = ⟨json ++ more, none⟩ := by
  obtain ⟨next, shown, same⟩ := scanned
  rw [same, later next shown]
  rfl

private theorem Spelled.scanFrom_eq (spelled : Spelled Allows text atoms) {feed : Feed}
    (shown : feed.Shows text) : scanFrom feed.settle = ⟨atoms.flatMap Atom.tokens, none⟩ := by
  induction spelled generalizing feed with
  | nil => exact scanFrom_nothing shown
  | blank isBlank _ ih =>
    rcases isBlank with rfl | rfl
    · exact (scanned_separator 32 shown (by decide) rfl).followed fun next => ih
    · exact (scanned_separator 10 shown (by decide) rfl).followed fun next => ih
  | mark isMark _ ih =>
    obtain ⟨json, means⟩ := Option.isSome_iff_exists.mp isMark
    rw [flatMap_cons, Atom.tokens, means]
    exact (scanned_mark shown means).followed fun next => ih
  | word word _ _ ih => exact (scanned_word word shown).followed fun next => ih
  | str text _ ih =>
    obtain ⟨quoted, whole, _⟩ := quoted_written text
    rw [writeString_append] at shown
    exact (scanned_string shown quoted whole).followed fun next => ih
  | num isLiteral _ ends _ ih =>
    have stops := fun cell later same => (ends cell later same).1
    exact (scanned_number isLiteral shown stops).followed fun next => ih

mutual

theorem flatMap_atoms (value : Json) (rest : List Atom) :
    (value.atoms rest).flatMap Atom.tokens = value.tokens ++ rest.flatMap Atom.tokens := by
  match value with
  | .null | .bool true | .bool false | .str _ | .num _ | .int _ =>
    rw [atoms, flatMap_cons, tokens]
    rfl
  | .arr [] =>
    rw [atoms, flatMap_cons, flatMap_cons, tokens, itemTokens]
    rfl
  | .arr (item :: items) =>
    rw [atoms, flatMap_cons, flatMap_atoms item, flatMap_itemAtoms items, flatMap_cons,
      tokens, itemTokens]
    simp only [cons_append, append_assoc]
    rfl
  | .obj [] =>
    rw [atoms, flatMap_cons, flatMap_cons, tokens, memberTokens]
    rfl
  | .obj ((key, value) :: members) =>
    rw [atoms, flatMap_cons, flatMap_cons, flatMap_cons, flatMap_atoms value,
      flatMap_memberAtoms members, flatMap_cons, tokens, memberTokens]
    simp only [cons_append, append_assoc]
    rfl

theorem flatMap_itemAtoms (items : List Json) (rest : List Atom) :
    (itemAtoms items rest).flatMap Atom.tokens =
      itemTokens items ++ rest.flatMap Atom.tokens := by
  match items with
  | [] => rw [itemAtoms, itemTokens, nil_append]
  | item :: items =>
    rw [itemAtoms, flatMap_cons, flatMap_atoms item, flatMap_itemAtoms items, itemTokens,
      append_assoc]
    rfl

theorem flatMap_memberAtoms (members : List (Text × Json)) (rest : List Atom) :
    (memberAtoms members rest).flatMap Atom.tokens =
      memberTokens members ++ rest.flatMap Atom.tokens := by
  match members with
  | [] => rw [memberAtoms, memberTokens, nil_append]
  | (key, value) :: members =>
    rw [memberAtoms, flatMap_cons, flatMap_cons, flatMap_cons, flatMap_atoms value,
      flatMap_memberAtoms members, memberTokens, cons_append, append_assoc]
    rfl

end

/-- A character that a text can have where no byte is stray and none is NUL. -/
def IsSound (cell : Cell) : Prop := ∃ char : Char, cell = .scalar char ∧ char.toNat ≠ 0

theorem isSound_asciiCell {byte : UInt8} (small : byte.toNat < 0x80) (nonzero : byte ≠ 0) :
    IsSound (asciiCell byte) := by
  have code : ∀ code < 0x80, (Char.ofNat code).toNat = code := by decide
  refine ⟨_, rfl, ?_⟩
  rw [code _ small]
  exact fun zero => nonzero (UInt8.toNat_inj.mp zero)

theorem IsLiteral.sound {literal : Text} (isLiteral : IsLiteral literal) :
    ∀ cell ∈ literal, IsSound cell := by
  obtain ⟨starts, inside⟩ := isLiteral
  obtain ⟨nonzero, small, _⟩ := startsNumber_only starts
  refine forall_mem_cons.mpr ⟨isSound_asciiCell small nonzero, fun cell member => ?_⟩
  obtain ⟨byte, _, nonzero, rfl⟩ := bytes_numberCell (inside cell member)
  exact isSound_asciiCell (lt_of_isNumberCell (inside _ member)) nonzero

theorem Spelled.sound (spelled : Spelled Allows text atoms) : ∀ cell ∈ text, IsSound cell := by
  induction spelled with
  | nil => exact forall_mem_nil _
  | blank isBlank _ ih =>
    refine forall_mem_cons.mpr ⟨⟨_, rfl, ?_⟩, ih⟩
    rcases isBlank with rfl | rfl <;> decide
  | mark isMark _ ih =>
    refine forall_mem_cons.mpr ⟨⟨_, rfl, fun zero => ?_⟩, ih⟩
    rw [show _ = Char.ofNat 0 from Char.toNat_inj.mp zero] at isMark
    exact absurd isMark (by decide)
  | word word _ _ ih =>
    have letters : ∀ cell ∈ word.text, IsSound cell := by
      cases word <;> simp [Word.text, Text.ofString, IsSound]
    exact forall_mem_append.mpr ⟨letters, ih⟩
  | str _ _ ih =>
    have quote : IsSound (.scalar '"') := ⟨_, rfl, by decide⟩
    rw [writeString_append]
    refine forall_mem_cons.mpr ⟨quote, forall_mem_append.mpr ⟨?_, ih⟩⟩
    refine forall_mem_append.mpr ⟨fun cell member => ?_, forall_mem_singleton.mpr quote⟩
    obtain ⟨written, _, inside⟩ := mem_flatMap.mp member
    obtain ⟨char, rfl, printed⟩ := (escapes_escapeCell written).printed cell inside
    exact ⟨char, rfl, by omega⟩
  | num isLiteral _ _ _ ih => exact forall_mem_append.mpr ⟨isLiteral.sound, ih⟩

private theorem strays_of_scalars (clean : ∀ cell ∈ text, IsSound cell) : text.strays = 0 := by
  induction text with
  | nil => rfl
  | cons _ _ ih =>
    obtain ⟨⟨char, rfl, _⟩, others⟩ := forall_mem_cons.mp clean
    rw [Text.strays_scalar, ih others]

private theorem Spelled.scan_eq (spelled : Spelled Allows text atoms) :
    scan text = ⟨atoms.flatMap Atom.tokens, none⟩ := by
  have sound := spelled.sound
  have same : Text.ofBytes text.toBytes = text :=
    Text.canonical_of_scalars fun cell member => (sound cell member).imp fun _ is => is.1
  have noNul : 0 ∉ text.toBytes := by
    intro member
    obtain ⟨cell, among, inside⟩ := mem_flatMap.mp member
    obtain ⟨char, rfl, nonzero⟩ := sound cell among
    exact (Text.encode_shape char).zero_not_mem nonzero inside
  obtain ⟨feed, shown, start⟩ := Feed.shows_start noNul (.inr (by
    rw [same, strays_of_scalars sound]
    exact Nat.zero_le 1))
  rw [same] at shown
  rw [scan, start]
  exact spelled.scanFrom_eq shown

/-! ## From the tokens to the value -/

/-- The tokens of a value put the value into the innermost hole. -/
def Builds (value : Json) : Prop :=
  ∀ (holes : List Hole) (more : List Token),
    (wantsValue holes).run (value.tokens ++ more) = (fill value holes).run more

theorem run_itemTokens {items : List Json} (each : ∀ item ∈ items, Builds item)
    (before : List Json) (holes : List Hole) (more : List Token) :
    (wantsValue (.item before :: holes)).run (itemTokens items ++ more) =
      (wantsValue (.item (before ++ items) :: holes)).run more := by
  induction items generalizing before with
  | nil => rw [itemTokens, append_nil, nil_append]
  | cons item _ ih =>
    rw [itemTokens, append_assoc, each item mem_cons_self, fill,
      ih fun item member => each item (mem_cons_of_mem _ member), append_assoc,
      singleton_append]

theorem run_memberTokens {members : Members} (each : ∀ member ∈ members, Builds member.2)
    (before : Members) (distinct : ((before ++ members).map Prod.fst).Nodup) (holes : List Hole)
    (more : List Token) :
    (wantsKey before holes).run (memberTokens members ++ more) =
      (wantsKey (before ++ members) holes).run more := by
  induction members generalizing before with
  | nil => rw [memberTokens, append_nil, nil_append]
  | cons member members ih =>
    obtain ⟨key, value⟩ := member
    have split : before ++ (key, value) :: members = before ++ [(key, value)] ++ members := by
      rw [append_assoc, singleton_append]
    have fresh : before.has key = false := by
      rw [Members.has_eq_false_iff]
      rw [map_append, map_cons, nodup_append] at distinct
      exact fun member => distinct.2.2 key member key mem_cons_self rfl
    rw [memberTokens, cons_append, append_assoc, run, step, fresh,
      if_neg Bool.false_ne_true]
    dsimp only
    rw [each _ mem_cons_self, fill, split]
    rw [split] at distinct
    exact ih (fun member among => each member (mem_cons_of_mem _ among)) _ distinct

theorem Keyed.builds {value : Json} (keyed : Keyed value) : Builds value := by
  induction keyed with
  | null | bool _ | str _ | num _ => exact fun holes more => rfl
  | arr _ each =>
    intro holes more
    rw [tokens, cons_append, append_assoc, run, step]
    dsimp only
    rw [run_itemTokens each]
    rfl
  | obj distinct _ each =>
    intro holes more
    rw [tokens, cons_append, append_assoc, run, step]
    dsimp only
    rw [run_memberTokens each [] distinct]
    rfl

theorem Legible.keyed {value : Json} (legible : Legible value) : Keyed value.asRead := by
  induction legible with
  | null => exact .null
  | bool value => exact .bool value
  | str => exact .str _
  | num | int => exact .num _
  | arr _ each =>
    rw [asRead, itemsAsRead_eq]
    refine .arr fun item member => ?_
    obtain ⟨written, among, rfl⟩ := mem_map.mp member
    exact each written among
  | obj distinct _ each =>
    rw [asRead, membersAsRead_eq]
    refine .obj ?_ fun member found => ?_
    · rw [map_map]
      exact distinct
    · obtain ⟨written, among, rfl⟩ := mem_map.mp found
      exact each written among

theorem Legible.decode_render {value : Json} (legible : Legible value) (layout : Layout) :
    decode (render layout value) = .ok value.asRead := by
  have scanned := (legible.spells layout 0 follows_nil).scan_eq
  rw [flatMap_atoms, flatMap_nil, append_nil] at scanned
  have built := legible.keyed.builds [] []
  rw [append_nil] at built
  simp only [decode_eq, render, scanned, built, fill, run]

end Avro.Json
