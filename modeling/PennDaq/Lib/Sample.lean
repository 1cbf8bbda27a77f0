import Mathlib.Algebra.BigOperators.Group.List.Basic
import Mathlib.Algebra.Order.Field.Basic
import Mathlib.Tactic.FieldSimp
import Mathlib.Tactic.LinearCombination
import Mathlib.Tactic.Linarith
import Mathlib.Tactic.Positivity
import Mathlib.Tactic.Ring

/-! Samples as lists of numbers: sums, means and the variance. -/
namespace Lib.Sample

variable {K : Type} [Field K]

def squares (xs : List K) : K := (xs.map fun x => x^2).sum

def mean (xs : List K) : K := xs.sum/xs.length

def meanSquare (xs : List K) : K := squares xs/xs.length

def spread (xs : List K) : K := meanSquare xs - mean xs^2

def sampleVariance (xs : List K) : K := xs.length/(xs.length-1)*spread xs

theorem squaresCons (x : K) (xs : List K) : squares (x::xs) = x^2 + squares xs := by
  rw [squares, List.map_cons, List.sum_cons]
  rfl

theorem squaresAround (xs : List K) (c : K) :
    (xs.map fun x => (x-c)^2).sum = squares xs - 2*c*xs.sum + xs.length*c^2 := by
  induction xs with
  | nil =>
    rw [squares, List.map_nil, List.map_nil, List.sum_nil, List.length_nil, Nat.cast_zero]
    ring
  | cons x later ih =>
    rw [List.map_cons, List.sum_cons, ih, squaresCons, List.sum_cons, List.length_cons, Nat.cast_succ]
    ring

section Order
variable [LinearOrder K] [IsStrictOrderedRing K]

theorem sumZero {xs : List K} (nonneg : ∀ x ∈ xs, 0 ≤ x) : xs.sum = 0 ↔ ∀ x ∈ xs, x = 0 := by
  induction xs with
  | nil => simp
  | cons x later ih =>
    rw [List.forall_mem_cons] at nonneg
    rw [List.sum_cons, List.forall_mem_cons, ← ih nonneg.2,
      add_eq_zero_iff_of_nonneg nonneg.1 (List.sum_nonneg nonneg.2)]

theorem awayNonneg (xs : List K) (c : K) : ∀ y ∈ xs.map fun x => (x-c)^2, 0 ≤ y := by
  intro y mem
  obtain ⟨x, -, rfl⟩ := List.mem_map.mp mem
  exact sq_nonneg _

theorem squaresZero (xs : List K) (c : K) : (xs.map fun x => (x-c)^2).sum = 0 ↔ ∀ x ∈ xs, x = c := by
  rw [sumZero (awayNonneg xs c), List.forall_mem_map]
  exact forall₂_congr fun x _ => sq_eq_zero_iff.trans sub_eq_zero

theorem lengthPos {xs : List K} (some' : xs ≠ []) : (0 : K) < xs.length :=
  Nat.cast_pos.mpr (List.length_pos_iff.mpr some')

theorem spreadAround {xs : List K} (some' : xs ≠ []) :
    spread xs = (xs.map fun x => (x-mean xs)^2).sum/xs.length := by
  have positive := (lengthPos some').ne'
  rw [squaresAround, spread, meanSquare, mean]
  field_simp
  ring

theorem spreadZero {xs : List K} (some' : xs ≠ []) : spread xs = 0 ↔ ∀ x ∈ xs, ∀ y ∈ xs, x = y := by
  have positive := (lengthPos some').ne'
  rw [spreadAround some', div_eq_zero_iff, or_iff_left positive, squaresZero]
  refine ⟨fun same x mem y mem' => (same x mem).trans (same y mem').symm, fun same x mem => ?_⟩
  have all : xs = List.replicate xs.length x := List.eq_replicate_iff.mpr ⟨rfl, fun y mem' => same y mem' x mem⟩
  have total : xs.sum = xs.length*x := by
    conv_lhs => rw [all]
    rw [List.sum_replicate, nsmul_eq_mul]
  rw [mean, total, mul_div_cancel_left₀ _ positive]

theorem squaresAllZero (xs : List K) : squares xs = 0 ↔ ∀ x ∈ xs, x = 0 := by
  have around := squaresZero xs 0
  simp only [sub_zero] at around
  exact around

theorem squaresNonneg (xs : List K) : 0 ≤ squares xs := by
  refine List.sum_nonneg fun y mem => ?_
  obtain ⟨x, -, rfl⟩ := List.mem_map.mp mem
  exact sq_nonneg x

end Order

section Order'
variable {xs ys : List K} (perm : xs.Perm ys)

include perm

theorem sumPerm : xs.sum = ys.sum := perm.sum_eq

theorem squaresPerm : squares xs = squares ys := (perm.map _).sum_eq

end Order'
end Lib.Sample
