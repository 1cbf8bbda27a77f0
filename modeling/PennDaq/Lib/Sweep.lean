import Mathlib.Data.List.Basic

/-! Loops in which each pass has a part of the state of its own. `view` is the part of
an index. And loops with an invariant for each number of passes. -/
namespace Lib.Sweep

variable {ι σ κ : Type} {step : σ → ι → σ} {view : ι → σ → κ}

/- A pass changes no part but its own. -/
def Apart (step : σ → ι → σ) (view : ι → σ → κ) : Prop := ∀ s i j, j ≠ i → view j (step s i) = view j s

/- What a pass makes of its part depends on that part only. -/
def Local (step : σ → ι → σ) (view : ι → σ → κ) : Prop :=
  ∀ s s' i, view i s = view i s' → view i (step s i) = view i (step s' i)

theorem sweepOther (apart : Apart step view) {items : List ι} {j : ι} (other : j ∉ items) (s : σ) :
    view j (items.foldl step s) = view j s := by
  induction items generalizing s with
  | nil => rfl
  | cons i later ih =>
    obtain ⟨different, other⟩ := not_or.mp (mt List.mem_cons.mpr other)
    rw [List.foldl_cons, ih other, apart s i j different]

theorem sweepOwn (apart : Apart step view) (loc : Local step view) {items : List ι} (distinct : items.Nodup)
    {j : ι} (mem : j ∈ items) (s : σ) : view j (items.foldl step s) = view j (step s j) := by
  induction items generalizing s with
  | nil => cases mem
  | cons i later ih =>
    obtain ⟨fresh, distinct⟩ := List.nodup_cons.mp distinct
    rw [List.foldl_cons]
    rcases List.mem_cons.mp mem with rfl | mem
    · exact sweepOther apart fresh _
    · have different : j ≠ i := fun same => fresh (same ▸ mem)
      rw [ih distinct mem]
      exact loc _ _ j (apart s i j different)

theorem sweepKeeps {α : Type} (rest : σ → α) (keeps : ∀ s i, rest (step s i) = rest s) (items : List ι) (s : σ) :
    rest (items.foldl step s) = rest s := by
  induction items generalizing s with
  | nil => rfl
  | cons i later ih => rw [List.foldl_cons, ih, keeps]

theorem sweepInvariant {n : ℕ} {step : σ → Fin n → σ} (inv : ℕ → σ → Prop)
    (each : ∀ (i : Fin n) s, inv i s → inv (i+1) (step s i)) {s : σ} (start : inv 0 s) :
    inv n ((List.finRange n).foldl step s) := by
  induction n generalizing s inv with
  | zero => exact start
  | succ n ih =>
    rw [List.finRange_succ, List.foldl_cons, List.foldl_map]
    exact ih (fun k => inv (k+1)) (fun i t kept => each i.succ t kept) (each 0 s start)

end Lib.Sweep
