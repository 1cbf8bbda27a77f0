/-! Loops that may not end. One pass of the body either goes on with a new state
or stops with a result; a loop ends with a result when some number of passes
reaches it. -/
namespace Lib.Loop

inductive Turn (σ ρ : Type) where
  | again (s : σ)
  | stop (r : ρ)
  deriving DecidableEq, Repr

variable {σ ρ : Type} {body : σ → Turn σ ρ}

def run (body : σ → Turn σ ρ) : Nat → σ → Option ρ
  | 0, _ => none
  | fuel+1, s => match body s with
    | .again t => run body fuel t
    | .stop r => some r

def Ends (body : σ → Turn σ ρ) (s : σ) (r : ρ) : Prop := ∃ fuel, run body fuel s = some r

theorem endsStop {s r} (h : body s = .stop r) (out : ρ) : Ends body s out ↔ out = r := by
  constructor
  · rintro ⟨fuel, done⟩
    cases fuel with
    | zero => simp [run] at done
    | succ fuel => simpa [run, h, eq_comm] using done
  · rintro rfl
    exact ⟨1, by simp [run, h]⟩

theorem endsAgain {s t} (h : body s = .again t) (out : ρ) : Ends body s out ↔ Ends body t out := by
  constructor
  · rintro ⟨fuel, done⟩
    cases fuel with
    | zero => simp [run] at done
    | succ fuel => exact ⟨fuel, by simpa [run, h] using done⟩
  · rintro ⟨fuel, done⟩
    exact ⟨fuel+1, by simpa [run, h] using done⟩

theorem endsUnique {s a b} (ha : Ends body s a) (hb : Ends body s b) : a = b := by
  obtain ⟨fuel, ha⟩ := ha
  induction fuel generalizing s with
  | zero => simp [run] at ha
  | succ fuel ih =>
    cases h : body s with
    | stop r =>
      rw [(endsStop h b).mp hb]
      simpa [run, h, eq_comm] using ha
    | again t => exact ih ((endsAgain h b).mp hb) (by simpa [run, h] using ha)

theorem endsInvariant (inv : σ → Prop) (post : ρ → Prop)
    (again : ∀ s t, inv s → body s = .again t → inv t)
    (stop : ∀ s r, inv s → body s = .stop r → post r)
    {s r} (start : inv s) (ends : Ends body s r) : post r := by
  obtain ⟨fuel, done⟩ := ends
  induction fuel generalizing s with
  | zero => simp [run] at done
  | succ fuel ih =>
    cases h : body s with
    | stop out =>
      have same : out = r := by simpa [run, h] using done
      exact same ▸ stop s out start h
    | again t => exact ih (again s t start h) (by simpa [run, h] using done)

theorem neverEnds (inv : σ → Prop) (again : ∀ s, inv s → ∃ t, body s = .again t ∧ inv t)
    {s} (start : inv s) (r : ρ) : ¬ Ends body s r := by
  rintro ⟨fuel, done⟩
  induction fuel generalizing s with
  | zero => simp [run] at done
  | succ fuel ih =>
    obtain ⟨t, next, kept⟩ := again s start
    exact ih kept (by simpa [run, next] using done)

inductive Reaches (body : σ → Turn σ ρ) (s : σ) : Nat → σ → Prop where
  | start : Reaches body s 0 s
  | again {n : Nat} {t u : σ} (reached : Reaches body s n t) (next : body t = .again u) : Reaches body s (n+1) u

theorem reachesInvariant (inv : Nat → σ → Prop) {s t} {n : Nat} (start : inv 0 s)
    (again : ∀ n t u, inv n t → body t = .again u → inv (n+1) u) (reached : Reaches body s n t) : inv n t := by
  induction reached with
  | start => exact start
  | again reached next ih => exact again _ _ _ ih next

theorem reachesForever (inv : σ → Prop) (again : ∀ s, inv s → ∃ t, body s = .again t ∧ inv t) {s} (start : inv s)
    (n : Nat) : ∃ t, Reaches body s n t ∧ inv t := by
  induction n with
  | zero => exact ⟨s, .start, start⟩
  | succ n ih =>
    obtain ⟨t, reached, kept⟩ := ih
    obtain ⟨u, next, kept⟩ := again t kept
    exact ⟨u, .again reached next, kept⟩

theorem reachesTrans {s t u} {m n : Nat} (first : Reaches body s m t) (later : Reaches body t n u) :
    ∃ k, Reaches body s k u := by
  induction later with
  | start => exact ⟨m, first⟩
  | again reached next ih =>
    obtain ⟨k, all⟩ := ih
    exact ⟨k+1, .again all next⟩

theorem reachesEnds {s t} {n : Nat} (reached : Reaches body s n t) {r : ρ} (ends : Ends body t r) : Ends body s r := by
  induction reached with
  | start => exact ends
  | again reached next ih => exact ih ((endsAgain next r).mpr ends)

theorem endsBounded {s} {most : Nat} (bounded : ∀ n t, Reaches body s n t → n ≤ most) : ∃ r, Ends body s r := by
  have reach (n : Nat) : (∃ t, Reaches body s n t) ∨ ∃ r, Ends body s r := by
    induction n with
    | zero => exact .inl ⟨s, .start⟩
    | succ n ih =>
      refine ih.elim (fun ⟨t, reached⟩ => ?_) .inr
      cases h : body t with
      | again u => exact .inl ⟨u, .again reached h⟩
      | stop r => exact .inr ⟨r, reachesEnds reached ((endsStop h r).mpr rfl)⟩
  refine (reach (most+1)).resolve_left fun ⟨t, reached⟩ => ?_
  exact Nat.not_succ_le_self most (bounded _ t reached)

theorem endsReaches {s r} (ends : Ends body s r) : ∃ n t, Reaches body s n t ∧ body t = .stop r := by
  obtain ⟨fuel, done⟩ := ends
  induction fuel generalizing s with
  | zero => simp [run] at done
  | succ fuel ih =>
    cases h : body s with
    | stop out =>
      have same : out = r := by simpa [run, h] using done
      exact ⟨0, s, .start, same ▸ h⟩
    | again t =>
      obtain ⟨n, u, reached, stop⟩ := ih (by simpa [run, h] using done)
      obtain ⟨k, all⟩ := reachesTrans (.again .start h) reached
      exact ⟨k, u, all, stop⟩

/- A loop ends when every pass that goes on takes something of a measure. -/
theorem endsWithin (inv : σ → Prop) (measure : σ → Nat)
    (again : ∀ s t, inv s → body s = .again t → inv t ∧ measure t < measure s)
    {s} (start : inv s) : ∃ r, run body (measure s + 1) s = some r := by
  have within (fuel : Nat) : ∀ s, inv s → measure s < fuel → ∃ r, run body fuel s = some r := by
    induction fuel with
    | zero => exact fun s _ less => absurd less (Nat.not_lt_zero _)
    | succ fuel ih =>
      intro s kept less
      cases h : body s with
      | stop r => exact ⟨r, by simp [run, h]⟩
      | again t =>
        obtain ⟨kept, smaller⟩ := again s t kept h
        obtain ⟨r, done⟩ := ih t kept (Nat.lt_of_lt_of_le smaller (Nat.le_of_lt_succ less))
        exact ⟨r, by simpa [run, h] using done⟩
  exact within _ s start (Nat.lt_succ_self _)

end Lib.Loop
