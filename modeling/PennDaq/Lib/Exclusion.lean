import Mathlib.Data.Set.Basic
import Mathlib.Data.Set.BooleanAlgebra
import Mathlib.Order.CompletePartialOrder
import Mathlib.Order.Disjoint
import Mathlib.Data.Set.Disjoint

/-! Owners that hold sets of resources. A lock marks the resources that are held;
taking a set keeps the owners apart exactly when none of it is marked. -/
namespace Lib.Exclusion

variable {ω ρ : Type}

/- No resource is held by two owners. -/
def Exclusive (held : ω → Set ρ) : Prop := ∀ a b r, r ∈ held a → r ∈ held b → a = b

def Marks (held : ω → Set ρ) (marked : Set ρ) : Prop := ∀ r, r ∈ marked ↔ ∃ a, r ∈ held a

theorem exclusiveNone : Exclusive (fun _ : ω => (∅ : Set ρ)) := fun _ _ _ mem => mem.elim

theorem marksNone : Marks (fun _ : ω => (∅ : Set ρ)) ∅ :=
  fun _ => ⟨fun mem => mem.elim, fun ⟨_, mem⟩ => mem.elim⟩

variable [DecidableEq ω] {held : ω → Set ρ} {marked : Set ρ} {a : ω}

theorem takeExclusive (ex : Exclusive held) (marks : Marks held marked) (free : held a = ∅)
    (taken : Set ρ) : Exclusive (Function.update held a taken) ↔ Disjoint taken marked := by
  constructor
  · intro apart
    rw [Set.disjoint_left]
    intro r mine theirs
    obtain ⟨b, mem⟩ := (marks r).mp theirs
    have other : b ≠ a := by rintro rfl; rw [free] at mem; exact mem
    exact other (apart b a r (by rwa [Function.update_of_ne other]) (by rwa [Function.update_self]))
  · intro apart b c r hb hc
    have clash : ∀ d, d ≠ a → r ∈ held d → r ∉ taken :=
      fun d _ mem mine => Set.disjoint_left.mp apart mine ((marks r).mpr ⟨d,mem⟩)
    by_cases sameB : b = a
    · by_cases sameC : c = a
      · rw [sameB, sameC]
      · subst sameB
        rw [Function.update_self] at hb
        rw [Function.update_of_ne sameC] at hc
        exact absurd hb (clash c sameC hc)
    · rw [Function.update_of_ne sameB] at hb
      by_cases sameC : c = a
      · subst sameC
        rw [Function.update_self] at hc
        exact absurd hc (clash b sameB hb)
      · rw [Function.update_of_ne sameC] at hc
        exact ex b c r hb hc

theorem takeMarks (marks : Marks held marked) (free : held a = ∅) (taken : Set ρ) :
    Marks (Function.update held a taken) (marked ∪ taken) := by
  intro r
  constructor
  · rintro (theirs | mine)
    · obtain ⟨b, mem⟩ := (marks r).mp theirs
      have other : b ≠ a := by rintro rfl; rw [free] at mem; exact mem
      exact ⟨b, by rwa [Function.update_of_ne other]⟩
    · exact ⟨a, by rwa [Function.update_self]⟩
  · rintro ⟨b, mem⟩
    by_cases same : b = a
    · subst same
      rw [Function.update_self] at mem
      exact Or.inr mem
    · rw [Function.update_of_ne same] at mem
      exact Or.inl ((marks r).mpr ⟨b,mem⟩)

theorem releaseExclusive (ex : Exclusive held) (a : ω) : Exclusive (Function.update held a ∅) := by
  have fewer : ∀ b r, r ∈ Function.update held a ∅ b → r ∈ held b := by
    intro b r mem
    by_cases same : b = a
    · subst same; rw [Function.update_self] at mem; exact mem.elim
    · rwa [Function.update_of_ne same] at mem
  exact fun b c r hb hc => ex b c r (fewer b r hb) (fewer c r hc)

theorem releaseMarks (ex : Exclusive held) (marks : Marks held marked) (a : ω) :
    Marks (Function.update held a ∅) (marked \ held a) := by
  intro r
  constructor
  · rintro ⟨theirs, notMine⟩
    obtain ⟨b, mem⟩ := (marks r).mp theirs
    have other : b ≠ a := by rintro rfl; exact notMine mem
    exact ⟨b, by rwa [Function.update_of_ne other]⟩
  · rintro ⟨b, mem⟩
    by_cases same : b = a
    · subst same; rw [Function.update_self] at mem; exact mem.elim
    · rw [Function.update_of_ne same] at mem
      exact ⟨(marks r).mpr ⟨b,mem⟩, fun mine => same (ex b a r mem mine)⟩

end Lib.Exclusion
