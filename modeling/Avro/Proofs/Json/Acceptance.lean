import Avro.Proofs.Json.Tidy

/-!
# Which documents are accepted

The tokens of an accepted document spell its value, and nothing follows them. So no text is accepted
whose brackets do not match, however lenient the scanner is.
-/

set_option autoImplicit false

open List

namespace Avro.Json

private theorem itemTokens_append (first second : List Json) :
    itemTokens (first ++ second) = itemTokens first ++ itemTokens second := by
  induction first with
  | nil => simp [itemTokens]
  | cons _ _ ih => simp [itemTokens, ih]

private theorem memberTokens_append (first second : Members) :
    memberTokens (first ++ second) = memberTokens first ++ memberTokens second := by
  induction first with
  | nil => simp [memberTokens]
  | cons _ _ ih => simp [memberTokens, ih]

def Hole.tokens : Hole → List Token
  | .item before => .openArray :: itemTokens before
  | .member before key => .openObject :: (memberTokens before ++ [.str key])

def holeTokens (holes : List Hole) : List Token := holes.reverse.flatMap Hole.tokens

def Progress.tokens : Progress → List Token
  | .wantsValue holes => holeTokens holes
  | .wantsKey before holes => holeTokens holes ++ .openObject :: memberTokens before
  | .complete value => value.tokens

theorem holeTokens_cons (hole : Hole) (holes : List Hole) :
    holeTokens (hole :: holes) = holeTokens holes ++ hole.tokens := by
  simp [holeTokens]

theorem tokens_fill (value : Json) (holes : List Hole) :
    (fill value holes).tokens = holeTokens holes ++ value.tokens := by
  cases holes with
  | nil => rfl
  | cons hole =>
    cases hole with
    | item =>
      simp [fill, Progress.tokens, holeTokens_cons, Hole.tokens, itemTokens_append, itemTokens]
    | member =>
      simp [fill, Progress.tokens, holeTokens_cons, Hole.tokens, memberTokens_append, memberTokens]

private theorem tokens_step {progress next : Progress} {token : Token}
    (stepped : progress.step token = .ok next) : next.tokens = progress.tokens ++ [token] := by
  cases progress with
  | complete => cases stepped
  | wantsKey =>
    cases token with
    | closeObject =>
      cases stepped
      rw [tokens_fill]
      simp [Progress.tokens, tokens]
    | str =>
      rw [Progress.step] at stepped
      split at stepped
      · cases stepped
      · cases stepped
        simp [Progress.tokens, holeTokens_cons, Hole.tokens]
    | _ => cases stepped
  | wantsValue holes =>
    cases token with
    | openObject =>
      cases stepped
      simp [Progress.tokens, memberTokens]
    | openArray =>
      cases stepped
      simp [Progress.tokens, holeTokens_cons, Hole.tokens, itemTokens]
    | str text | num literal | bool value | null =>
      cases stepped
      rw [tokens_fill]
      rfl
    | closeObject => cases holes <;> cases stepped
    | closeArray =>
      cases holes with
      | nil => cases stepped
      | cons hole =>
        cases hole with
        | member => cases stepped
        | item =>
          cases stepped
          rw [tokens_fill]
          simp [Progress.tokens, holeTokens_cons, Hole.tokens, tokens]

theorem tokens_run {progress final : Progress} {tokens : List Token}
    (ran : progress.run tokens = .ok final) : final.tokens = progress.tokens ++ tokens := by
  induction tokens generalizing progress with
  | nil =>
    cases ran
    exact (append_nil _).symm
  | cons _ _ ih =>
    rw [Progress.run] at ran
    split at ran
    · rename_i next stepped
      rw [ih ran, tokens_step stepped, append_assoc, singleton_append]
    · cases ran

theorem Tidy.keyed {value : Json} (plain : Plain value) : Keyed value := by
  induction plain with
  | null => exact .null
  | bool value => exact .bool value
  | str => exact .str _
  | num => exact .num _
  | int allowed => exact allowed.elim
  | arr _ each => exact .arr each
  | obj _ distinct _ each => exact .obj distinct each

/-- A text is read as a value exactly if it is scanned to its end, its tokens are those that spell
the value, and no object of the value repeats a key. -/
theorem decode_eq_ok_iff (text : Text) (value : Json) :
    decode text = .ok value ↔
      (scan text).failure = none ∧ (scan text).tokens = value.tokens ∧ Keyed value := by
  constructor
  · intro read
    have keyed := (plain_of_decode read).keyed
    rw [decode_eq] at read
    split at read
    · cases read
    · rename_i progress ran
      split at read
      · cases read
      · rename_i ended
        split at read
        · cases read
          exact ⟨ended, (tokens_run ran).symm, keyed⟩
        · cases read
  · rintro ⟨ended, spelled, keyed⟩
    have built := keyed.builds [] []
    rw [append_nil] at built
    rw [decode_eq, spelled, built, ended]
    rfl

end Avro.Json
