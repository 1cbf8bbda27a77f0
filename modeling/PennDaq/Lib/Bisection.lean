import Mathlib.Algebra.Order.Field.Basic
import Mathlib.Tactic.FieldSimp
import Mathlib.Tactic.Linarith
import Mathlib.Tactic.Ring

/-! Bisection: an interval that is halved towards one of its ends by one answer after
the other. -/
namespace Lib.Bisection

structure Bracket (K : Type) where
  lower : K
  upper : K

variable {K : Type} [Field K]

def Bracket.middle (b : Bracket K) : K := (b.upper-b.lower)/2 + b.lower

def Bracket.width (b : Bracket K) : K := b.upper-b.lower

def Bracket.halve (b : Bracket K) (above : Bool) : Bracket K :=
  if above then { b with lower := b.middle } else { b with upper := b.middle }

def Bracket.follow (b : Bracket K) (answers : List Bool) : Bracket K := answers.foldl Bracket.halve b

theorem followAgain (b : Bracket K) (answers : List Bool) (above : Bool) :
    b.follow (answers ++ [above]) = (b.follow answers).halve above := by
  rw [Bracket.follow, List.foldl_append]
  rfl

variable [LinearOrder K] [IsStrictOrderedRing K]

theorem halveWidth (b : Bracket K) (above : Bool) : (b.halve above).width = b.width/2 := by
  cases above with
  | false =>
    change (b.upper-b.lower)/2 + b.lower - b.lower = (b.upper-b.lower)/2
    ring
  | true =>
    change b.upper - ((b.upper-b.lower)/2 + b.lower) = (b.upper-b.lower)/2
    ring

theorem followWidth (b : Bracket K) (answers : List Bool) : (b.follow answers).width = b.width/2^answers.length := by
  induction answers generalizing b with
  | nil =>
    rw [List.length_nil, pow_zero, div_one]
    rfl
  | cons above later ih =>
    change ((b.halve above).follow later).width = _
    rw [ih, halveWidth, List.length_cons, div_div, ← pow_succ']

theorem middleInside {b : Bracket K} (wide : 0 < b.width) : b.lower < b.middle ∧ b.middle < b.upper := by
  unfold Bracket.width at wide
  unfold Bracket.middle
  exact ⟨by linarith, by linarith⟩

theorem halveWide {b : Bracket K} (wide : 0 < b.width) (above : Bool) : 0 < (b.halve above).width := by
  rw [halveWidth]
  exact half_pos wide

theorem followEnds {b : Bracket K} (wide : 0 < b.width) (answers : List Bool) :
    (b.lower ≤ (b.follow answers).lower ∧ ((b.follow answers).lower = b.lower ↔ ∀ a ∈ answers, a = false)) ∧
      ((b.follow answers).upper ≤ b.upper ∧ ((b.follow answers).upper = b.upper ↔ ∀ a ∈ answers, a = true)) := by
  induction answers generalizing b with
  | nil => exact ⟨⟨le_refl _, by simp [Bracket.follow]⟩, ⟨le_refl _, by simp [Bracket.follow]⟩⟩
  | cons above later ih =>
    obtain ⟨inside, inside'⟩ := middleInside wide
    obtain ⟨⟨low, still⟩, ⟨high, still'⟩⟩ := ih (halveWide wide above)
    change (b.lower ≤ ((b.halve above).follow later).lower ∧ (((b.halve above).follow later).lower = b.lower ↔ _)) ∧
      (((b.halve above).follow later).upper ≤ b.upper ∧ (((b.halve above).follow later).upper = b.upper ↔ _))
    rw [List.forall_mem_cons, List.forall_mem_cons]
    cases above with
    | false =>
      refine ⟨⟨low, ?_⟩, ⟨high.trans inside'.le, ?_⟩⟩
      · exact still.trans (and_iff_right rfl).symm
      · exact iff_of_false (high.trans_lt inside').ne fun both => Bool.false_ne_true both.1
    | true =>
      refine ⟨⟨inside.le.trans low, ?_⟩, ⟨high, ?_⟩⟩
      · exact iff_of_false (inside.trans_le low).ne' fun both => Bool.false_ne_true both.1.symm
      · exact still'.trans (and_iff_right rfl).symm

def Agrees (threshold : K) : Bracket K → List Bool → Prop
  | _, [] => True
  | b, above::later => (above = true ↔ b.middle < threshold) ∧ Agrees threshold (b.halve above) later

omit [IsStrictOrderedRing K] in
theorem agreesAgain {threshold : K} {b : Bracket K} {answers : List Bool} {above : Bool}
    (agrees : Agrees threshold b answers) (next : above = true ↔ (b.follow answers).middle < threshold) :
    Agrees threshold b (answers ++ [above]) := by
  induction answers generalizing b with
  | nil => exact ⟨next, trivial⟩
  | cons first later ih => exact ⟨agrees.1, ih agrees.2 next⟩

omit [IsStrictOrderedRing K] in
theorem agreesBracket {threshold : K} {b : Bracket K} {answers : List Bool} (agrees : Agrees threshold b answers) :
    (b.lower ≤ threshold → (b.follow answers).lower ≤ threshold) ∧
      (b.lower < threshold ∨ true ∈ answers → (b.follow answers).lower < threshold) ∧
      (threshold ≤ b.upper ∨ false ∈ answers → threshold ≤ (b.follow answers).upper) := by
  induction answers generalizing b with
  | nil => exact ⟨id, fun low => low.resolve_right List.not_mem_nil, fun high => high.resolve_right List.not_mem_nil⟩
  | cons above later ih =>
    obtain ⟨first, rest⟩ := agrees
    obtain ⟨low, less, high⟩ := ih rest
    change (b.lower ≤ threshold → ((b.halve above).follow later).lower ≤ threshold) ∧
      (_ → ((b.halve above).follow later).lower < threshold) ∧ (_ → threshold ≤ ((b.halve above).follow later).upper)
    cases above with
    | false =>
      have outside : threshold ≤ b.middle := not_lt.mp fun below => Bool.false_ne_true (first.mpr below)
      refine ⟨low, fun some' => less (some'.imp_right fun mem => ?_), fun _ => high (.inl outside)⟩
      exact (List.mem_cons.mp mem).resolve_left Bool.false_ne_true.symm
    | true =>
      have below : b.middle < threshold := first.mp rfl
      refine ⟨fun _ => low below.le, fun _ => less (.inl below), fun some' => high (some'.imp_right fun mem => ?_)⟩
      exact (List.mem_cons.mp mem).resolve_left Bool.false_ne_true

end Lib.Bisection
