import Mathlib.Data.Fin.Basic
import Mathlib.Data.List.Basic
import Mathlib.Logic.Function.Basic

/-! Memory of a fixed size that is worked on in blocks. What would leave the memory has no
result, so that whatever has one has stayed inside. -/
namespace Lib.Block

variable {n : Nat} {α : Type}

def cell (memory : Fin n → α) (i : Nat) : Option α := if h : i < n then some (memory ⟨i,h⟩) else none

def mapCells (f : α → α) (first count : Nat) (memory : Fin n → α) : Option (Fin n → α) :=
  if first + count ≤ n then
    some fun i => if first ≤ i ∧ i < first + count then f (memory i) else memory i
  else none

def setCell (memory : Fin n → α) (i : Nat) (value : α) : Option (Fin n → α) :=
  if h : i < n then some (Function.update memory ⟨i,h⟩ value) else none

theorem cellInside (memory : Fin n → α) {i : Nat} (inside : i < n) :
    cell memory i = some (memory ⟨i,inside⟩) := dif_pos inside

theorem cellOutside (memory : Fin n → α) {i : Nat} (outside : n ≤ i) : cell memory i = none :=
  dif_neg (by omega)

theorem cellSome {memory : Fin n → α} {i : Nat} {value : α} (found : cell memory i = some value) : i < n := by
  by_contra outside
  rw [cellOutside memory (by omega)] at found
  contradiction

theorem mapCellsInside (f : α → α) {first count : Nat} (memory : Fin n → α) :
    (∃ after, mapCells f first count memory = some after) ↔ first + count ≤ n := by
  unfold mapCells
  split
  · rename_i inside
    exact ⟨fun _ => inside, fun _ => ⟨_,rfl⟩⟩
  · rename_i outside
    exact ⟨fun ⟨_,same⟩ => by contradiction, fun inside => absurd inside outside⟩

theorem cellMapped {f : α → α} {first count : Nat} {memory after : Fin n → α}
    (mapped : mapCells f first count memory = some after) (i : Nat) :
    cell after i = if first ≤ i ∧ i < first + count then (cell memory i).map f else cell memory i := by
  unfold mapCells at mapped
  split at mapped
  · cases Option.some.inj mapped
    by_cases inside : i < n
    · simp only [cellInside _ inside, Option.map_some]
      split <;> rfl
    · simp only [cellOutside _ (Nat.le_of_not_lt inside), Option.map_none, ite_self]
  · contradiction

theorem setInside (memory : Fin n → α) {i : Nat} (value : α) (inside : i < n) :
    ∃ after, setCell memory i value = some after := ⟨_, dif_pos inside⟩

theorem cellSet {memory after : Fin n → α} {i : Nat} {value : α}
    (set : setCell memory i value = some after) (j : Nat) :
    cell after j = if j = i then some value else cell memory j := by
  unfold setCell at set
  split at set
  · rename_i inside
    cases Option.some.inj set
    by_cases same : j = i
    · subst same
      rw [if_pos rfl, cellInside _ inside, Function.update_self]
    · rw [if_neg same]
      by_cases there : j < n
      · rw [cellInside _ there, cellInside _ there, Function.update_of_ne (by simpa using same)]
      · rw [cellOutside _ (Nat.le_of_not_lt there), cellOutside _ (Nat.le_of_not_lt there)]
  · contradiction

end Lib.Block
