import Mathlib.Logic.Function.Basic
import Mathlib.Data.List.Basic

/-! Stores to memory in the order in which they are made, and what the memory holds
after them. -/
namespace Lib.Stores

variable {α : Type}

structure Store (α : Type) where
  place : Nat
  value : α
  deriving DecidableEq, Repr

def written (memory : Nat → α) (stores : List (Store α)) : Nat → α :=
  stores.foldl (fun cells store => Function.update cells store.place store.value) memory

def row (first : Nat) : List α → List (Store α)
  | [] => []
  | value::values => ⟨first,value⟩::row (first+1) values

theorem writtenAppend (memory : Nat → α) (a b : List (Store α)) :
    written memory (a ++ b) = written (written memory a) b := List.foldl_append

theorem writtenElsewhere (memory : Nat → α) {stores : List (Store α)} {i : Nat}
    (elsewhere : ∀ store ∈ stores, store.place ≠ i) : written memory stores i = memory i := by
  induction stores generalizing memory with
  | nil => rfl
  | cons store later ih =>
    have rest := ih (Function.update memory store.place store.value)
      fun s mem => elsewhere s (List.mem_cons_of_mem _ mem)
    have other := elsewhere store List.mem_cons_self
    exact rest.trans (Function.update_of_ne (Ne.symm other) _ _)

theorem writtenSame {memory memory' : Nat → α} {place : Nat} (same : memory place = memory' place)
    (stores : List (Store α)) : written memory stores place = written memory' stores place := by
  induction stores generalizing memory memory' with
  | nil => exact same
  | cons store later ih =>
    refine ih ?_
    simp only [Function.update_apply, same]

theorem writtenLast (memory : Nat → α) (before : List (Store α)) (store : Store α) :
    written memory (before ++ [store]) store.place = store.value := by
  rw [writtenAppend]
  exact Function.update_self _ _ _

theorem writtenAgreed (memory : Nat → α) {stores : List (Store α)} {place : Nat} {value : α}
    (made : ∃ store ∈ stores, store.place = place)
    (agreed : ∀ store ∈ stores, store.place = place → store.value = value) :
    written memory stores place = value := by
  induction stores generalizing memory with
  | nil =>
    obtain ⟨store, mem, -⟩ := made
    contradiction
  | cons store later ih =>
    have rest := fun s mem => agreed s (List.mem_cons_of_mem store mem)
    by_cases again : ∃ s ∈ later, s.place = place
    · exact ih (Function.update memory store.place store.value) again rest
    · obtain ⟨s, mem, same⟩ := made
      have only : s = store := by
        rcases List.mem_cons.mp mem with same | inside
        · exact same
        · exact absurd ⟨s,inside,same⟩ again
      subst only
      have kept : written (Function.update memory s.place s.value) later place =
          Function.update memory s.place s.value place := writtenElsewhere _
        fun t inside equal => again ⟨t,inside,equal⟩
      refine kept.trans ?_
      rw [← same, Function.update_self]
      exact agreed s mem same

theorem rowAppend (first : Nat) (a b : List α) : row first (a ++ b) = row first a ++ row (first + a.length) b := by
  induction a generalizing first with
  | nil => rfl
  | cons value values ih =>
    rw [List.cons_append, row, row, ih, List.cons_append, List.length_cons, Nat.add_right_comm,
      Nat.add_assoc]

theorem rowPlaces {first : Nat} {values : List α} {store : Store α} (mem : store ∈ row first values) :
    first ≤ store.place ∧ store.place < first + values.length := by
  induction values generalizing first with
  | nil => contradiction
  | cons value values ih =>
    rw [List.length_cons]
    rcases List.mem_cons.mp mem with rfl | mem
    · exact ⟨Nat.le_refl _, by simp⟩
    · have := ih mem
      omega

theorem rowWritten (memory : Nat → α) (first : Nat) {k : Nat} {values : List α} {value : α}
    (found : values[k]? = some value) : written memory (row first values) (first+k) = value := by
  induction values generalizing memory first k with
  | nil => simp at found
  | cons head values ih =>
    cases k with
    | zero =>
      obtain rfl : head = value := by simpa using found
      have behind : ∀ store ∈ row (first+1) values, store.place ≠ first + 0 := by
        intro store mem
        have := rowPlaces mem
        omega
      have kept := writtenElsewhere (Function.update memory first head) behind
      exact kept.trans (Function.update_self _ _ _)
    | succ k =>
      have later := ih (Function.update memory first head) (first+1) (k := k)
        (by simpa using found)
      rw [Nat.add_right_comm, Nat.add_assoc] at later
      exact later

end Lib.Stores
