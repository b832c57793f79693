/-! Runs of steps that keep a state and may fail. A run of two steps is the run of the first and,
from where that one ends, of the second. -/
namespace CxxSymbols.Stateful
variable {ε σ α β : Type} {x : EStateM ε σ α} {f : α → EStateM ε σ β} {s t : σ}

theorem bindOk {a : α} (ran : x s = .ok a t) : (x >>= f) s = f a t := by
  simp only [bind, EStateM.bind, ran]

theorem bindError {e : ε} (ran : x s = .error e t) : (x >>= f) s = .error e t := by
  simp only [bind, EStateM.bind, ran]

theorem bindOkSource {b : β} (ran : (x >>= f) s = .ok b t) :
    ∃ a between, x s = .ok a between ∧ f a between = .ok b t := by
  simp only [bind, EStateM.bind] at ran
  split at ran
  · rename_i a between first
    exact ⟨a, between, first, ran⟩
  · cases ran

end CxxSymbols.Stateful
