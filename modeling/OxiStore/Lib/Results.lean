/-
**Results taken apart.**
-/

import Mathlib

namespace Results

variable {ε ε' α β : Type} {result : Except ε α}

theorem bind_eq_ok {rest : α → Except ε β} {value : β} :
    (result >>= rest) = .ok value ↔ ∃ mid, result = .ok mid ∧ rest mid = .ok value := by
  cases result with
  | error error =>
    constructor
    · rintro ⟨⟩
    · rintro ⟨mid, ⟨⟩, _⟩
  | ok mid =>
    constructor
    · exact fun succeeds => ⟨mid, rfl, succeeds⟩
    · rintro ⟨mid', same, succeeds⟩
      cases same
      exact succeeds

theorem map_eq_ok {change : α → β} {value : β} :
    result.map change = .ok value ↔ ∃ mid, result = .ok mid ∧ change mid = value := by
  cases result <;> simp [Except.map]

theorem mapError_eq_ok {rename : ε → ε'} {value : α} :
    result.mapError rename = .ok value ↔ result = .ok value := by
  cases result <;> simp [Except.mapError]

end Results
