/-!
# Outcomes

A computation that may fail succeeds exactly if each of its steps does.
-/

set_option autoImplicit false

open List

namespace Avro

variable {ε δ α β : Type} {first : Except ε α}

@[simp] theorem ok_bind (value : α) (next : α → Except ε β) :
    (Except.ok value >>= next) = next value := rfl

@[simp] theorem error_bind (error : ε) (next : α → Except ε β) :
    (Except.error error >>= next) = .error error := rfl

@[simp] theorem pure_ok (value : α) : (pure value : Except ε α) = .ok value := rfl

@[simp] theorem ok_map (change : α → β) (value : α) :
    (Except.ok value : Except ε α).map change = .ok (change value) := rfl

@[simp] theorem error_map (change : α → β) (error : ε) :
    (Except.error error : Except ε α).map change = .error error := rfl

theorem bind_ok {next : α → Except ε β} {result : β} :
    first >>= next = .ok result ↔ ∃ value, first = .ok value ∧ next value = .ok result := by
  cases first with
  | error => exact ⟨fun accepted => (nomatch accepted), fun ⟨_, accepted, _⟩ => nomatch accepted⟩
  | ok value =>
    constructor
    · exact fun accepted => ⟨value, rfl, accepted⟩
    · rintro ⟨_, ⟨⟩, accepted⟩
      exact accepted

theorem map_ok {change : α → β} {result : β} :
    first.map change = .ok result ↔ ∃ value, first = .ok value ∧ change value = result := by
  cases first with
  | error => exact ⟨fun accepted => (nomatch accepted), fun ⟨_, accepted, _⟩ => nomatch accepted⟩
  | ok => simp [Except.map]

theorem map_bind {γ : Type} (first : Except ε α) (next : α → Except ε β) (change : β → γ) :
    (first >>= next).map change = first >>= fun value => (next value).map change := by
  cases first <;> rfl

theorem bind_eq_map_pair_bind (first : Except ε α) (next : α → Except ε β) :
    first >>= next = (first.map fun value => ((), value)) >>= fun pair => next pair.2 := by
  cases first <;> rfl

theorem map_error {change : α → β} {error : ε} :
    first.map change = .error error ↔ first = .error error := by
  cases first <;> simp [Except.map]

@[simp] theorem ok_mapError (change : ε → δ) (value : α) :
    (Except.ok value : Except ε α).mapError change = .ok value := rfl

@[simp] theorem error_mapError (change : ε → δ) (error : ε) :
    (Except.error error : Except ε α).mapError change = .error (change error) := rfl

theorem mapError_ok {change : ε → δ} {result : α} :
    first.mapError change = .ok result ↔ first = .ok result := by
  cases first <;> simp

theorem mapError_error {change : ε → δ} {error : δ} :
    first.mapError change = .error error ↔ ∃ cause, first = .error cause ∧ change cause = error := by
  cases first <;> simp

theorem ok_of_toOption {outcome : Except ε α} {value : α}
    (same : outcome.toOption = some value) : outcome = .ok value := by
  cases outcome with
  | error => cases same
  | ok => exact congrArg Except.ok (Option.some.inj same)

/-- A run that can be computed, up to what is told of its result. -/
theorem exists_ok {outcome : Except ε α} {tell : α → β} {value : β}
    (told : outcome.toOption.map tell = some value) :
    ∃ result, outcome = .ok result ∧ tell result = value := by
  cases outcome with
  | error => cases told
  | ok result => exact ⟨result, rfl, Option.some.inj told⟩

theorem mapM_ok {step : α → Except ε β} {values : List α} {results : List β}
    (accepted : values.mapM step = .ok results) :
    (∀ result ∈ results, ∃ value ∈ values, step value = .ok result) ∧
      ∀ value ∈ values, ∃ result ∈ results, step value = .ok result := by
  induction values generalizing results with
  | nil =>
    cases accepted
    exact ⟨nofun, nofun⟩
  | cons value _ ih =>
    rw [mapM_cons] at accepted
    obtain ⟨result, first, accepted⟩ := bind_ok.mp accepted
    obtain ⟨others, later, accepted⟩ := bind_ok.mp accepted
    cases accepted
    obtain ⟨sound, complete⟩ := ih later
    constructor
    · refine forall_mem_cons.mpr ⟨⟨value, mem_cons_self .., first⟩, ?_⟩
      intro result member
      obtain ⟨source, isSource, done⟩ := sound result member
      exact ⟨source, mem_cons_of_mem _ isSource, done⟩
    · refine forall_mem_cons.mpr ⟨⟨result, mem_cons_self .., first⟩, ?_⟩
      intro value member
      obtain ⟨target, isTarget, done⟩ := complete value member
      exact ⟨target, mem_cons_of_mem _ isTarget, done⟩

theorem map_of_mapM {γ : Type} {step : α → Except ε β} {values : List α} {results : List β}
    {image : β → γ} {source : α → γ} (accepted : values.mapM step = .ok results)
    (each : ∀ value ∈ values, ∀ result, step value = .ok result → image result = source value) :
    results.map image = values.map source := by
  induction values generalizing results with
  | nil =>
    cases accepted
    rfl
  | cons _ _ ih =>
    rw [mapM_cons] at accepted
    obtain ⟨result, first, accepted⟩ := bind_ok.mp accepted
    obtain ⟨others, later, accepted⟩ := bind_ok.mp accepted
    cases accepted
    obtain ⟨here, behind⟩ := forall_mem_cons.mp each
    rw [map_cons, map_cons, here result first, ih later behind]

theorem foldlM_keeps {step : β → α → Except ε β} {values : List α} {start result : β}
    {Keeps : β → Prop} (holds : Keeps start) (done : values.foldlM step start = .ok result)
    (each : ∀ value ∈ values, ∀ before after, Keeps before → step before value = .ok after →
      Keeps after) : Keeps result := by
  induction values generalizing start with
  | nil =>
    cases done
    exact holds
  | cons _ _ ih =>
    rw [foldlM_cons] at done
    obtain ⟨middle, first, others⟩ := bind_ok.mp done
    obtain ⟨here, later⟩ := forall_mem_cons.mp each
    exact ih (here start middle holds first) others later

section

variable {first second : α → List β} {values : List α}
  (shorter : ∀ value ∈ values, (second value).length ≤ (first value).length)
include shorter

theorem length_flatMap_le : (values.flatMap second).length ≤ (values.flatMap first).length := by
  induction values with
  | nil => exact Nat.le_refl _
  | cons _ _ ih =>
    obtain ⟨here, later⟩ := forall_mem_cons.mp shorter
    rw [flatMap_cons, flatMap_cons, length_append, length_append]
    exact Nat.add_le_add here (ih later)

theorem flatMap_eq_iff :
    values.flatMap first = values.flatMap second ↔ ∀ value ∈ values, first value = second value := by
  induction values with
  | nil => exact ⟨fun _ _ member => absurd member not_mem_nil, fun _ => rfl⟩
  | cons _ _ ih =>
    obtain ⟨here, later⟩ := forall_mem_cons.mp shorter
    rw [flatMap_cons, flatMap_cons, forall_mem_cons, ← ih later]
    constructor
    · intro same
      have total := congrArg length same
      have rest := length_flatMap_le later
      rw [length_append, length_append] at total
      exact append_inj same (by omega)
    · rintro ⟨same, others⟩
      rw [same, others]

end

end Avro
