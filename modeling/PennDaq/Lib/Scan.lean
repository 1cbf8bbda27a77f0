import PennDaq.Lib.Loop
import Mathlib.Data.List.Basic

/-! Loops over a list that can be left early, and in which each pass has a part of the
state of its own. -/
namespace Lib.Scan
open Lib.Loop

variable {ι σ κ : Type}

def after : Turn σ σ → σ
  | .again s => s
  | .stop s => s

def through (view : σ → κ) : Turn σ σ → Turn κ κ
  | .again s => .again (view s)
  | .stop s => .stop (view s)

@[simp] theorem throughAgain (view : σ → κ) (s : σ) : through view (.again s) = .again (view s) := rfl

@[simp] theorem throughStop (view : σ → κ) (s : σ) : through view (.stop s) = .stop (view s) := rfl

def scan (step : σ → ι → Turn σ σ) : List ι → σ → σ
  | [], s => s
  | i::later, s => match step s i with
    | .again t => scan step later t
    | .stop t => t

theorem scanMap {ι' : Type} (step : σ → ι → Turn σ σ) (f : ι' → ι) (items : List ι') (s : σ) :
    scan step (items.map f) s = scan (fun s i => step s (f i)) items s := by
  induction items generalizing s with
  | nil => rfl
  | cons i later ih =>
    rw [List.map_cons]
    unfold scan
    cases step s (f i) with
    | again t => exact ih t
    | stop t => rfl

theorem scanInvariant {n : ℕ} {step : σ → Fin n → Turn σ σ} (inv : ℕ → σ → Prop) (post : σ → Prop)
    (again : ∀ (i : Fin n) s t, inv i s → step s i = .again t → inv (i+1) t)
    (stop : ∀ (i : Fin n) s t, inv i s → step s i = .stop t → post t) (all : ∀ s, inv n s → post s)
    {s : σ} (start : inv 0 s) : post (scan step (List.finRange n) s) := by
  induction n generalizing s inv with
  | zero => exact all s start
  | succ n ih =>
    rw [List.finRange_succ]
    unfold scan
    cases turn : step s 0 with
    | stop t => exact stop 0 s t start turn
    | again t =>
      change post (scan step ((List.finRange n).map Fin.succ) t)
      rw [scanMap]
      exact ih (fun k => inv (k+1)) (fun i u v kept turn => again i.succ u v kept turn)
        (fun i u v kept turn => stop i.succ u v kept turn) all (again 0 s t start turn)

section Parts
variable {step : σ → ι → Turn σ σ} {part : ι → κ → Turn κ κ} {view : ι → σ → κ}

structure Parts (step : σ → ι → Turn σ σ) (part : ι → κ → Turn κ κ) (view : ι → σ → κ) : Prop where
  own : ∀ s i, through (view i) (step s i) = part i (view i s)
  apart : ∀ s i j, j ≠ i → view j (after (step s i)) = view j s

theorem scanOther (parts : Parts step part view) {items : List ι} {j : ι} (other : j ∉ items) (s : σ) :
    view j (scan step items s) = view j s := by
  induction items generalizing s with
  | nil => rfl
  | cons i later ih =>
    obtain ⟨different, other⟩ := not_or.mp (mt List.mem_cons.mpr other)
    have kept := parts.apart s i j different
    unfold scan
    cases turn : step s i with
    | again t =>
      rw [turn] at kept
      exact (ih other t).trans kept
    | stop t =>
      rw [turn] at kept
      exact kept

theorem scanAll (parts : Parts step part view) {items : List ι} (distinct : items.Nodup) {s : σ}
    (going : ∀ i ∈ items, ∃ p, part i (view i s) = .again p) {j : ι} (mem : j ∈ items) :
    view j (scan step items s) = after (part j (view j s)) := by
  induction items generalizing s with
  | nil => cases mem
  | cons i later ih =>
    obtain ⟨fresh, distinct⟩ := List.nodup_cons.mp distinct
    obtain ⟨p, goes⟩ := going i (.head _)
    have own := parts.own s i
    rw [goes] at own
    unfold scan
    cases turn : step s i with
    | stop t =>
      rw [turn] at own
      cases own
    | again t =>
      have kept (k : ι) (later' : k ∈ later) : view k t = view k s := by
        have apart := parts.apart s i k fun same => fresh (same ▸ later')
        rwa [turn] at apart
      rcases List.mem_cons.mp mem with rfl | mem
      · rw [turn] at own
        cases own
        rw [goes]
        exact scanOther parts fresh t
      · have goes' : ∀ k ∈ later, ∃ p, part k (view k t) = .again p := by
          intro k later'
          rw [kept k later']
          exact going k (.tail _ later')
        exact (ih distinct goes' mem).trans (by rw [kept j mem])

end Parts
end Lib.Scan
