import Mathlib.Logic.Basic

/-!
# Computations that may fail

What a composed computation that ends well has passed.
-/

namespace Scriva.Lib.Fallible

variable {ε δ α β : Type*} {outcome : Except ε α}

theorem ok_of_bind {next : α → Except ε β} {value : β} (ended : outcome.bind next = .ok value) :
    ∃ middle, outcome = .ok middle ∧ next middle = .ok value := by
  rcases outcome with error | middle
  · cases ended
  · exact ⟨middle, rfl, ended⟩

theorem ok_of_map {f : α → β} {value : β} (ended : outcome.map f = .ok value) :
    ∃ middle, outcome = .ok middle ∧ f middle = value := by
  rcases outcome with error | middle
  · cases ended
  · exact ⟨middle, rfl, Except.ok.inj ended⟩

theorem ok_of_mapError {f : ε → δ} {value : α} (ended : outcome.mapError f = .ok value) :
    outcome = .ok value := by
  rcases outcome with error | middle
  · cases ended
  · exact congrArg _ (Except.ok.inj ended)

end Scriva.Lib.Fallible
