/-! Chains of steps that may fail. -/
namespace Lib.Steps

variable {ε σ α : Type}

theorem bindOk {x : Except ε σ} {f : σ → Except ε α} {result : α} :
    x >>= f = .ok result ↔ ∃ value, x = .ok value ∧ f value = .ok result := by
  cases x with
  | error e => simp [bind, Except.bind]
  | ok value => simp [bind, Except.bind]

end Lib.Steps
