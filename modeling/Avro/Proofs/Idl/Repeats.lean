import Avro.Idl.Stream
import Avro.Proofs.Outcome

/-!
# Runs that are repeated

What a reader makes of some tokens depends neither on their places, which only faults show, nor on
what is left behind them. Two runs are compared here by the steps of a reader.
-/

set_option autoImplicit false

open List

namespace Avro.Idl

variable {tokens others : List Token}

/-- Tokens that a reader cannot tell apart but by their places. -/
structure Token.Alike (token other : Token) : Prop where
  kind : token.kind = other.kind
  text : token.text = other.text
  doc : token.doc = other.doc
  quoted : token.quoted = other.quoted

namespace Token.Alike

variable {token other : Token}

theorem refl (token : Token) : token.Alike token := ⟨rfl, rfl, rfl, rfl⟩

theorem isMark (alike : token.Alike other) (mark : Char) :
    token.isMark mark = other.isMark mark := by
  rw [Token.isMark, Token.isMark, alike.kind, alike.text]

theorem isKeyword (alike : token.Alike other) (word : Text) :
    token.isKeyword word = other.isKeyword word := by
  rw [Token.isKeyword, Token.isKeyword, alike.kind, alike.text, alike.quoted]

theorem symm (alike : token.Alike other) : other.Alike token :=
  ⟨alike.kind.symm, alike.text.symm, alike.doc.symm, alike.quoted.symm⟩

end Token.Alike

/-- The tokens before `rest` and those before `left` are alike, one by one. -/
inductive Same : List Token → List Token → List Token → List Token → Prop
  | nil {rest left} : Same rest rest left left
  | cons {token other : Token} {tokens rest others left} (alike : token.Alike other)
      (follows : Same tokens rest others left) : Same (token :: tokens) rest (other :: others) left

namespace Same

variable {tokens middle rest others left : List Token}

theorem suffix (same : Same tokens rest others left) : rest <:+ tokens := by
  induction same with
  | nil => exact suffix_refl _
  | cons _ _ ih => exact ih.trans (suffix_cons _ _)

theorem symm (same : Same tokens rest others left) : Same others left tokens rest := by
  induction same with
  | nil => exact .nil
  | cons alike _ ih => exact .cons alike.symm ih

theorem done (same : Same rest rest others left) : others = left := by
  cases same with
  | nil => rfl
  | cons _ follows => exact absurd follows.suffix.length_le (Nat.not_succ_le_self _)

theorem uncons {token : Token} (same : Same (token :: tokens) rest others left)
    (shorter : rest.length < (token :: tokens).length) :
    ∃ other later, others = other :: later ∧ token.Alike other ∧ Same tokens rest later left := by
  cases same with
  | nil => exact absurd shorter (Nat.lt_irrefl _)
  | cons alike follows => exact ⟨_, _, rfl, alike, follows⟩

theorem split (same : Same tokens rest others left) (first : middle <:+ tokens)
    (second : rest <:+ middle) :
    ∃ between, Same tokens middle others between ∧ Same middle rest between left := by
  induction same with
  | nil =>
    obtain rfl := first.eq_of_length_le second.length_le
    exact ⟨_, .nil, .nil⟩
  | cons alike follows ih =>
    rcases suffix_cons_iff.mp first with rfl | inside
    · exact ⟨_, .nil, .cons alike follows⟩
    · obtain ⟨between, before, after⟩ := ih inside second
      exact ⟨between, .cons alike before, after⟩

theorem front (front rest left : List Token) : Same (front ++ rest) rest (front ++ left) left := by
  induction front with
  | nil => exact .nil
  | cons token _ ih => exact .cons (.refl token) ih

end Same

/-! ## Runs of readers -/

/-- What may have to be known of the next tokens behind a reader. It is known as well before tokens
that are alike. -/
structure Ahead where
  holds : List Token → List Token → Prop
  before : ∀ {tokens rest others left}, Same tokens rest others left → holds rest left →
    holds tokens others

namespace Ahead

def anything : Ahead := ⟨fun _ _ => True, fun _ _ => trivial⟩

inductive SameNext : List Token → List Token → Prop
  | nil : SameNext [] []
  | cons {token other : Token} {rest left} (alike : token.Alike other) :
      SameNext (token :: rest) (other :: left)

def sameNext : Ahead where
  holds := SameNext
  before same next := by
    cases same with
    | nil => exact next
    | cons alike => exact .cons alike

def noMark (mark : Char) : Ahead where
  holds rest left := nextIsMark mark left = true → nextIsMark mark rest = true
  before same next := by
    cases same with
    | nil => exact next
    | cons alike => exact fun isMark => (alike.isMark mark).trans isMark

theorem SameNext.mark (next : SameNext tokens others) (mark : Char) :
    nextIsMark mark tokens = nextIsMark mark others := by
  cases next with
  | nil => rfl
  | cons alike => exact alike.isMark mark

theorem SameNext.peek (next : SameNext tokens others) (present : tokens ≠ []) (last last' : Token) :
    (peek last tokens).Alike (peek last' others) := by
  cases next with
  | nil => exact absurd rfl present
  | cons alike => exact alike

theorem SameNext.head? (next : SameNext tokens others) (present : tokens ≠ []) (last : Token) :
    others.head? = some (Idl.peek last others) := by
  cases next with
  | nil => exact absurd rfl present
  | cons => rfl

theorem SameNext.word {token : Token} (next : SameNext tokens others)
    (stands : tokens.head? = some token) (last : Token) : token.Alike (Idl.peek last others) := by
  cases next with
  | nil => cases stands
  | cons alike =>
    cases stands
    exact alike

end Ahead

theorem Same.next {rest left : List Token} (same : Same tokens rest others left)
    (shorter : rest.length < tokens.length) : Ahead.SameNext tokens others := by
  cases same with
  | nil => exact absurd shorter (Nat.lt_irrefl _)
  | cons alike => exact .cons alike

/-- A run from some tokens is repeated in other worlds, each with its own stream: as long as that is
alike, and what has to be known ahead is known, the run there gives a related value and stops at the
same place. A run that `uses` takes at least one token. -/
structure Repeats {Ω ρ : Type} {σ : Ω → Type} (rest : ρ → List Token)
    (rest' : (world : Ω) → σ world → List Token) (related : ρ → (world : Ω) → σ world → Prop)
    (within : Ω → Prop) (stream : Ω → List Token) (ahead : Ahead) (uses : Bool)
    (tokens : List Token) (first : Except Fault ρ)
    (second : (world : Ω) → Except Fault (σ world)) : Prop where
  suffix : ∀ result, first = .ok result → rest result <:+ tokens
  shorter : uses = true → ∀ result, first = .ok result → (rest result).length < tokens.length
  again : ∀ result, first = .ok result → ∀ world, within world → ∀ left,
    Same tokens (rest result) (stream world) left → ahead.holds (rest result) left →
    ∃ result', second world = .ok result' ∧ related result world result' ∧
      rest' world result' = left

namespace Repeats

variable {Ω ρ ρ₁ τ : Type} {σ σ₁ : Ω → Type} {rest : ρ → List Token}
  {rest' : (world : Ω) → σ world → List Token} {related : ρ → (world : Ω) → σ world → Prop}
  {rest₁ : ρ₁ → List Token} {rest₁' : (world : Ω) → σ₁ world → List Token}
  {related₁ : ρ₁ → (world : Ω) → σ₁ world → Prop} {within : Ω → Prop} {stream : Ω → List Token}
  {ahead : Ahead} {uses : Bool} {tokens : List Token} {first : Except Fault ρ}
  {second : (world : Ω) → Except Fault (σ world)}

theorem error {fault : Fault} :
    Repeats rest rest' related within stream ahead uses tokens (.error fault) second :=
  ⟨nofun, nofun, nofun⟩

theorem pure {result : ρ} {result' : (world : Ω) → σ world} (here : rest result = tokens)
    (there : (fun world => rest' world (result' world)) = stream)
    (agree : ∀ world, within world → related result world (result' world)) :
    Repeats rest rest' related within stream ahead false tokens (.ok result)
      fun world => .ok (result' world) := by
  subst here there
  refine ⟨?_, nofun, ?_⟩
  · rintro _ ⟨⟩
    exact suffix_refl _
  · rintro _ ⟨⟩ world inside left same _
    exact ⟨_, rfl, agree world inside, same.done⟩

section Sequences

variable {next : ρ → Except Fault ρ₁} {next' : (world : Ω) → σ world → Except Fault (σ₁ world)}

theorem sequence {uses₁ : Bool} {before : Ahead}
    (run : Repeats rest rest' related within stream before uses tokens first second)
    (goesOn : ∀ result, Repeats rest₁ (fun place => rest₁' place.1)
      (fun result place => related₁ result place.1)
      (fun place : Sigma σ => within place.1 ∧ related result place.1 place.2)
      (fun place => rest' place.1 place.2) ahead uses₁ (rest result) (next result)
      fun place => next' place.1 place.2)
    (known : ∀ {middle behind between left}, (uses₁ = true → behind.length < middle.length) →
      Same middle behind between left → ahead.holds behind left → before.holds middle between) :
    Repeats rest₁ rest₁' related₁ within stream ahead (uses₁ || uses) tokens (first >>= next)
      fun world => second world >>= next' world := by
  refine ⟨?_, ?_, ?_⟩
  · intro result done
    obtain ⟨middle, ran, done⟩ := bind_ok.mp done
    exact ((goesOn middle).suffix _ done).trans (run.suffix _ ran)
  · intro isUsed result done
    obtain ⟨middle, ran, done⟩ := bind_ok.mp done
    rcases Bool.or_eq_true_iff.mp isUsed with later | sooner
    · exact Nat.lt_of_lt_of_le ((goesOn middle).shorter later _ done) (run.suffix _ ran).length_le
    · exact Nat.lt_of_le_of_lt ((goesOn middle).suffix _ done).length_le (run.shorter sooner _ ran)
  · intro result done world inside left same ahead
    obtain ⟨middle, ran, done⟩ := bind_ok.mp done
    obtain ⟨between, before, after⟩ :=
      same.split (run.suffix _ ran) ((goesOn middle).suffix _ done)
    obtain ⟨middle', ran', agree, rfl⟩ := run.again _ ran world inside between before
      (known (fun isUsed => (goesOn middle).shorter isUsed _ done) after ahead)
    obtain ⟨result', done', agree', rfl⟩ :=
      (goesOn middle).again _ done ⟨world, middle'⟩ ⟨inside, agree⟩ left after ahead
    exact ⟨result', bind_ok.mpr ⟨_, ran', done'⟩, agree', rfl⟩

theorem bind (run : Repeats rest rest' related within stream .sameNext uses tokens first second)
    (goesOn : ∀ result, Repeats rest₁ (fun place => rest₁' place.1)
      (fun result place => related₁ result place.1)
      (fun place : Sigma σ => within place.1 ∧ related result place.1 place.2)
      (fun place => rest' place.1 place.2) ahead true (rest result) (next result)
      fun place => next' place.1 place.2) :
    Repeats rest₁ rest₁' related₁ within stream ahead true tokens (first >>= next)
      fun world => second world >>= next' world :=
  run.sequence goesOn fun shorter same _ => same.next (shorter rfl)

theorem bindPass (run : Repeats rest rest' related within stream ahead uses tokens first second)
    (goesOn : ∀ result, Repeats rest₁ (fun place => rest₁' place.1)
      (fun result place => related₁ result place.1)
      (fun place : Sigma σ => within place.1 ∧ related result place.1 place.2)
      (fun place => rest' place.1 place.2) ahead false (rest result) (next result)
      fun place => next' place.1 place.2) :
    Repeats rest₁ rest₁' related₁ within stream ahead uses tokens (first >>= next)
      fun world => second world >>= next' world :=
  run.sequence goesOn fun _ same known => ahead.before same known

end Sequences

theorem step {check : Except Fault τ} {check' : Ω → Except Fault τ}
    {next : τ → Except Fault ρ} {next' : (world : Ω) → τ → Except Fault (σ world)}
    (passes : ∀ world, within world → ∀ {fact}, check = .ok fact → check' world = .ok fact)
    (goesOn : ∀ fact, Repeats rest rest' related within stream ahead uses tokens (next fact)
      fun world => next' world fact) :
    Repeats rest rest' related within stream ahead uses tokens (check >>= next)
      fun world => check' world >>= next' world := by
  refine ⟨?_, ?_, ?_⟩
  · intro result done
    obtain ⟨fact, _, done⟩ := bind_ok.mp done
    exact (goesOn fact).suffix _ done
  · intro isUsed result done
    obtain ⟨fact, _, done⟩ := bind_ok.mp done
    exact (goesOn fact).shorter isUsed _ done
  · intro result done world inside left same known
    obtain ⟨fact, checked, done⟩ := bind_ok.mp done
    obtain ⟨result', done', agree⟩ := (goesOn fact).again _ done world inside left same known
    exact ⟨result', bind_ok.mpr ⟨_, passes world inside checked, done'⟩, agree⟩

theorem map {change : ρ → ρ₁} {change' : (world : Ω) → σ world → σ₁ world}
    (run : Repeats rest rest' related within stream ahead uses tokens first second)
    (here : (fun result => rest₁ (change result)) = rest)
    (there : (fun world result => rest₁' world (change' world result)) = rest')
    (agree : ∀ world, within world → ∀ result result', related result world result' →
      related₁ (change result) world (change' world result')) :
    Repeats rest₁ rest₁' related₁ within stream ahead uses tokens (first.map change)
      fun world => (second world).map (change' world) := by
  subst here there
  refine ⟨?_, ?_, ?_⟩
  · intro result done
    obtain ⟨result, ran, rfl⟩ := map_ok.mp done
    exact run.suffix _ ran
  · intro isUsed result done
    obtain ⟨result, ran, rfl⟩ := map_ok.mp done
    exact run.shorter isUsed _ ran
  · intro result done world inside left same known
    obtain ⟨result, ran, rfl⟩ := map_ok.mp done
    obtain ⟨result', ran', agrees, rfl⟩ := run.again _ ran world inside left same known
    exact ⟨_, map_ok.mpr ⟨_, ran', rfl⟩, agree world inside _ _ agrees, rfl⟩

theorem skip (present : tokens ≠ [])
    (run : Repeats rest rest' related within (fun world => (stream world).tail) ahead uses
      tokens.tail first second) :
    Repeats rest rest' related within stream ahead true tokens first second := by
  cases tokens with
  | nil => exact absurd rfl present
  | cons =>
    refine ⟨?_, ?_, ?_⟩
    · intro result done
      exact (run.suffix _ done).trans (suffix_cons _ _)
    · intro _ result done
      exact Nat.lt_succ_of_le (run.suffix _ done).length_le
    · intro result done world inside left same known
      obtain ⟨_, _, there, _, follows⟩ :=
        same.uncons (Nat.lt_succ_of_le (run.suffix _ done).length_le)
      refine run.again _ done world inside left ?_ known
      rw [there]
      exact follows

theorem forget (run : Repeats rest rest' related within stream ahead true tokens first second) :
    Repeats rest rest' related within stream ahead uses tokens first second :=
  ⟨run.suffix, fun _ => run.shorter rfl, run.again⟩

theorem ite {test : Prop} [Decidable test] {test' : Ω → Prop} [∀ world, Decidable (test' world)]
    {other : Except Fault ρ} {other' : (world : Ω) → Except Fault (σ world)}
    (same : ∀ world, within world → (test ↔ test' world))
    (yes : test → Repeats rest rest' related within stream ahead uses tokens first second)
    (no : ¬test → Repeats rest rest' related within stream ahead uses tokens other other') :
    Repeats rest rest' related within stream ahead uses tokens (if test then first else other)
      fun world => if test' world then second world else other' world := by
  split
  · rename_i holds
    refine ⟨(yes holds).suffix, (yes holds).shorter, ?_⟩
    intro result done world inside
    rw [if_pos ((same world inside).mp holds)]
    exact (yes holds).again result done world inside
  · rename_i fails
    refine ⟨(no fails).suffix, (no fails).shorter, ?_⟩
    intro result done world inside
    rw [if_neg fun holds => fails ((same world inside).mpr holds)]
    exact (no fails).again result done world inside

theorem congr {other} (same : ∀ world, within world → other world = second world)
    (run : Repeats rest rest' related within stream ahead uses tokens first second) :
    Repeats rest rest' related within stream ahead uses tokens first other :=
  ⟨run.suffix, run.shorter, fun result done world inside left alike known =>
    (same world inside).symm ▸ run.again result done world inside left alike known⟩

theorem seeing (run : Repeats rest rest' related
      (fun world => within world ∧ Ahead.SameNext tokens (stream world) ∧ tokens ≠ []) stream ahead
      true tokens first second) :
    Repeats rest rest' related within stream ahead true tokens first second := by
  refine ⟨run.suffix, run.shorter, ?_⟩
  intro result done world inside left alike known
  have shorter := run.shorter rfl _ done
  have present : tokens ≠ [] := ne_nil_of_length_pos (Nat.zero_lt_of_lt shorter)
  exact run.again result done world ⟨inside, alike.next shorter, present⟩ left alike known

theorem seeingNext (run : Repeats rest rest' related
      (fun world => within world ∧ Ahead.SameNext tokens (stream world)) stream .sameNext uses
      tokens first second) :
    Repeats rest rest' related within stream .sameNext uses tokens first second :=
  ⟨run.suffix, run.shorter, fun result done world inside left alike known =>
    run.again result done world ⟨inside, Ahead.sameNext.before alike known⟩ left alike known⟩

end Repeats

/-! ## Readers -/

abbrev Reader (α : Type) :=
  (last : Token) → (tokens : List Token) → Except Fault (Consumed tokens α)

abbrev Passer (α : Type) :=
  (last : Token) → (tokens : List Token) → Except Fault (Passed tokens α)

/-- Tokens in other worlds that are like the first one of this. -/
abbrev Beside (token : Token) (place : Token × List Token) : Prop := token.Alike place.1

abbrev ReadsAgain {Ω α : Type} {origin : List Token} {origin' : Ω → List Token}
    (related : α → α → Prop) (within : Ω → Prop) (stream : Ω → List Token) (ahead : Ahead)
    (tokens : List Token) (first : Except Fault (Consumed origin α))
    (second : (world : Ω) → Except Fault (Consumed (origin' world) α)) : Prop :=
  Repeats Consumed.rest (fun _ => Consumed.rest)
    (fun result _ result' => related result.value result'.value) within stream ahead true tokens
    first second

abbrev PassesAgain {Ω α : Type} {origin : List Token} {origin' : Ω → List Token}
    (within : Ω → Prop) (stream : Ω → List Token) (tokens : List Token)
    (first : Except Fault (Passed origin α))
    (second : (world : Ω) → Except Fault (Passed (origin' world) α)) : Prop :=
  Repeats Passed.rest (fun _ => Passed.rest) (fun result _ result' => result.value = result'.value)
    within stream .sameNext false tokens first second

section Readers

variable {Ω α : Type} {within : Ω → Prop} {stream : Ω → List Token} {ahead : Ahead}
  {related : α → α → Prop} {tokens : List Token}

theorem ReadsAgain.ofCons (read read' : (tokens : List Token) → Except Fault (Consumed tokens α))
    (each : ∀ token rest, tokens = token :: rest →
      ReadsAgain related (Beside token) (fun place => place.1 :: place.2) ahead (token :: rest)
        (read (token :: rest)) fun place => read' (place.1 :: place.2)) :
    ReadsAgain related within stream ahead tokens (read tokens)
      fun world => read' (stream world) := by
  refine ⟨fun result _ => result.suffix, fun _ result _ => result.shorter, ?_⟩
  intro result done world _ left same known
  cases tokens with
  | nil => exact absurd result.shorter (Nat.not_lt_zero _)
  | cons token rest =>
    obtain ⟨other, later, there, alike, _⟩ := same.uncons result.shorter
    rw [there] at same ⊢
    exact (each token rest rfl).again result done (other, later) alike left same known

theorem PassesAgain.ofNext (read read' : (tokens : List Token) → Except Fault (Passed tokens α))
    (none : PassesAgain (fun _ : Unit => True) (fun _ => []) [] (read []) fun _ => read' [])
    (each : ∀ token rest, tokens = token :: rest →
      PassesAgain (Beside token) (fun place => place.1 :: place.2) (token :: rest)
        (read (token :: rest)) fun place => read' (place.1 :: place.2)) :
    PassesAgain within stream tokens (read tokens) fun world => read' (stream world) := by
  refine ⟨fun result _ => result.suffix, nofun, ?_⟩
  intro result done world _ left same known
  have next : Ahead.SameNext tokens (stream world) := Ahead.sameNext.before same known
  generalize stream world = others at same next ⊢
  cases next with
  | nil => exact none.again result done () trivial left same known
  | cons alike => exact (each _ _ rfl).again result done (_, _) alike left same known

section Behind

variable {ρ : Type} {σ : Token × List Token → Type} {rest : ρ → List Token}
  {rest' : (place : Token × List Token) → σ place → List Token}
  {relates : ρ → (place : Token × List Token) → σ place → Prop} {token : Token} {uses : Bool}
  {first : Except Fault ρ} {second : (place : Token × List Token) → Except Fault (σ place)}

theorem Repeats.behind
    (run : Repeats rest rest' relates (Beside token) Prod.snd ahead uses tokens first second) :
    Repeats rest rest' relates (Beside token) (fun place => place.1 :: place.2) ahead true
      (token :: tokens) first second := .skip (cons_ne_nil _ _) run

theorem Repeats.takes {made : ρ} {made' : (place : Token × List Token) → σ place}
    (here : rest made = tokens) (there : (fun place => rest' place (made' place)) = Prod.snd)
    (agree : ∀ place, token.Alike place.1 → relates made place (made' place)) :
    Repeats rest rest' relates (Beside token) (fun place => place.1 :: place.2) ahead uses
      (token :: tokens) (.ok made) fun place => .ok (made' place) :=
  .forget (.behind (.pure here there agree))

end Behind

end Readers

/-- What is read from some tokens is read again where they stand at another place, before other
tokens. -/
def LocalAt {α : Type} (related : α → α → Prop) (read : Reader α) (last : Token)
    (tokens : List Token) : Prop :=
  ∀ {Ω : Type} {within : Ω → Prop} {stream : Ω → List Token} {ahead : Ahead} {last' : Token},
    ReadsAgain related within stream ahead tokens (read last tokens)
      fun world => read last' (stream world)

def Local {α : Type} (related : α → α → Prop) (read : Reader α) : Prop :=
  ∀ {last tokens}, LocalAt related read last tokens

def LocalBeforeAt {α : Type} (read : Reader α) (last : Token) (tokens : List Token) : Prop :=
  ∀ {Ω : Type} {within : Ω → Prop} {stream : Ω → List Token} {last' : Token},
    ReadsAgain Eq within stream .sameNext tokens (read last tokens)
      fun world => read last' (stream world)

def LocalBefore {α : Type} (read : Reader α) : Prop :=
  ∀ {last tokens}, LocalBeforeAt read last tokens

def LocalPass {α : Type} (read : Passer α) (last : Token) (tokens : List Token) : Prop :=
  ∀ {Ω : Type} {within : Ω → Prop} {stream : Ω → List Token} {last' : Token},
    PassesAgain within stream tokens (read last tokens) fun world => read last' (stream world)

theorem Local.again {α : Type} {read : Reader α} (isLocal : Local Eq read) {last : Token}
    {result : Consumed tokens α} (done : read last tokens = .ok result) {left : List Token}
    (same : Same tokens result.rest others left) (last' : Token) :
    ∃ again, read last' others = .ok again ∧ again.value = result.value ∧ again.rest = left := by
  have run : ReadsAgain Eq (fun _ : Unit => True) (fun _ => others) .anything tokens
      (read last tokens) fun _ => read last' others := isLocal
  obtain ⟨again, done', agree, ends⟩ := run.again result done () trivial left same trivial
  exact ⟨again, done', agree.symm, ends⟩

end Avro.Idl
