/-!
# Outcomes

How a sequence of steps that may fail succeeds, and how it fails.
-/

namespace Tenancy.Outcome

universe u

variable {ε ε' : Type u} {α β : Type u} {outcome : Except ε α}

theorem ok_bind {next : α → Except ε β} (given : α) : (Except.ok given >>= next) = next given := rfl

theorem exists_eq_ok_iff :
    (∃ given, outcome = .ok given) ↔ ∀ fault, outcome ≠ .error fault := by
  cases outcome <;> simp

theorem bind_eq_ok_iff {next : α → Except ε β} {result : β} :
    (outcome >>= next) = .ok result ↔ ∃ given, outcome = .ok given ∧ next given = .ok result := by
  cases outcome <;> simp [bind, Except.bind]

theorem bind_eq_error_iff {next : α → Except ε β} {fault : ε} :
    (outcome >>= next) = .error fault ↔
      outcome = .error fault ∨ ∃ given, outcome = .ok given ∧ next given = .error fault := by
  cases outcome <;> simp [bind, Except.bind]

/-- Two steps whose results are put together fail by the first one, or after it by the second. -/
theorem bind_bind_pure_eq_error_iff {γ : Type u} {next : Except ε β} {join : α → β → γ}
    {fault : ε} : (outcome >>= fun given => next >>= fun other => pure (join given other)) =
      .error fault ↔ outcome = .error fault ∨ (∀ other, outcome ≠ .error other) ∧
        next = .error fault := by
  cases outcome <;> cases next <;> simp [bind, Except.bind, pure, Except.pure]

theorem map_eq_ok_iff {change : α → β} {result : β} :
    outcome.map change = .ok result ↔ ∃ given, outcome = .ok given ∧ change given = result := by
  cases outcome <;> simp [Except.map]

theorem map_eq_error_iff {change : α → β} {fault : ε} :
    outcome.map change = .error fault ↔ outcome = .error fault := by
  cases outcome <;> simp [Except.map]

theorem mapError_eq_ok_iff {change : ε → ε'} {result : α} :
    outcome.mapError change = .ok result ↔ outcome = .ok result := by
  cases outcome with
  | ok given =>
      constructor
      · rintro ⟨⟩
        rfl
      · rintro ⟨⟩
        rfl
  | error reason => exact iff_of_false (by rintro ⟨⟩) (by rintro ⟨⟩)

theorem mapError_eq_error_iff {change : ε → ε'} {fault : ε'} :
    outcome.mapError change = .error fault ↔
      ∃ reason, outcome = .error reason ∧ change reason = fault := by
  cases outcome with
  | ok given => exact iff_of_false (by rintro ⟨⟩) (by rintro ⟨_, ⟨⟩, -⟩)
  | error reason =>
      constructor
      · rintro ⟨⟩
        exact ⟨reason, rfl, rfl⟩
      · rintro ⟨_, ⟨⟩, rfl⟩
        rfl

theorem mapError_bind {change : ε → ε'} {next : α → Except ε β} :
    (outcome >>= next).mapError change =
      outcome.mapError change >>= fun given => (next given).mapError change := by
  cases outcome <;> rfl

theorem mapError_map {change : ε → ε'} {turn : α → β} :
    (outcome.map turn).mapError change = (outcome.mapError change).map turn := by
  cases outcome <;> rfl

end Tenancy.Outcome
