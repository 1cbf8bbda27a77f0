import PennDaq.TTotMeasure

/-! When the loops of `MeasureTTot` and `CheckTTot` end. -/
namespace PennDaq.TTotLoops
open Lib.CNumber
open Lib.Loop
open MTCInit (Trace)
open MTCDelays
open TTotMeasure

theorem tensWithin (gtdel : ℚ) : 10*(wholeTens gtdel : ℚ) ≤ max (gtdel - minGTDelay) 0 ∧
    max (gtdel - minGTDelay) 0 < 10*(wholeTens gtdel : ℚ) + 10 := by
  have positive : 0 ≤ max (gtdel - minGTDelay) 0/10 := by positivity
  have tens := Nat.floor_le positive
  have tens' := Nat.lt_floor_add_one (max (gtdel - minGTDelay) 0/10)
  rw [← wholeTens] at tens tens'
  constructor
  · linarith
  · linarith

section Slope
variable {fAddelSlope : ℚ} (low : 10/256 < fAddelSlope) (high : fAddelSlope ≤ 5)
  (read : Trace → BitVec 32 → BitVec 32) (t : Trace)

include low high

theorem delayNear {gtdel : ℚ} (few : wholeTens gtdel ≤ 6553) :
    (setGTDelay read fAddelSlope t gtdel).1 ≤ max (gtdel - minGTDelay) 0 + minGTDelay ∧
      max (gtdel - minGTDelay) 0 + minGTDelay - 5 < (setGTDelay read fAddelSlope t gtdel).1 := by
  have slope : 0 < fAddelSlope := by linarith
  obtain ⟨least, most⟩ := tensWithin gtdel
  have coarse : coarseAsked gtdel = 10*wholeTens gtdel := by
    rw [coarseAsked]
    omega
  let rest := max (gtdel - minGTDelay) 0 - 10*(wholeTens gtdel : ℚ)
  have positive : 0 ≤ rest/fAddelSlope := div_nonneg (by simp only [rest]; linarith) slope.le
  have share := Nat.floor_le positive
  have share' := Nat.lt_floor_add_one (rest/fAddelSlope)
  rw [le_div_iff₀ slope] at share
  rw [div_lt_iff₀ slope] at share'
  have counts : ⌊rest/fAddelSlope⌋₊ ≤ 255 := by
    rw [← Nat.lt_succ_iff, Nat.floor_lt positive, div_lt_iff₀ slope]
    push_cast
    simp only [rest]
    linarith
  have fine : fineAsked fAddelSlope gtdel = ⌊rest/fAddelSlope⌋₊ := by
    rw [fineAsked, Nat.mod_eq_of_lt (by omega : wholeTens gtdel < 65536)]
    exact Nat.mod_eq_of_lt (by omega : ⌊rest/fAddelSlope⌋₊ < 4294967296)
  have fits : FineFits fAddelSlope gtdel := by
    rw [FineFits, fine]
    exact counts
  rw [delayReturned read slope, if_pos fits, coarse, fine]
  push_cast
  simp only [rest] at share share' ⊢
  constructor
  · linarith
  · linarith

theorem delayFar {gtdel : ℚ} (many : 6554 ≤ wholeTens gtdel) :
    (setGTDelay read fAddelSlope t gtdel).1 < gtdel - 5 := by
  have slope : 0 < fAddelSlope := by linarith
  obtain ⟨least, -⟩ := tensWithin gtdel
  have many' : (6554 : ℚ) ≤ wholeTens gtdel := by exact_mod_cast many
  have request : gtdel = max (gtdel - minGTDelay) 0 + minGTDelay := by
    rcases max_choice (gtdel - minGTDelay) 0 with same | none'
    · rw [same]
      ring
    · rw [none'] at least
      linarith
  have lost : coarseAsked gtdel + 65536 ≤ 10*wholeTens gtdel := by
    rw [coarseAsked]
    omega
  have lost' : (coarseAsked gtdel : ℚ) + 65536 ≤ 10*wholeTens gtdel := by exact_mod_cast lost
  have fine : (if FineFits fAddelSlope gtdel then fAddelSlope*fineAsked fAddelSlope gtdel else -1) ≤ 1275 := by
    split
    · rename_i fits
      have counts : (fineAsked fAddelSlope gtdel : ℚ) ≤ 255 := by exact_mod_cast fits
      nlinarith
    · norm_num
  rw [delayReturned read slope]
  linarith

end Slope

section Turns
variable {read : Trace → BitVec 32 → BitVec 32} {fAddelSlope : ℚ} {accepted : ℚ → Bool} {gtdel : ℚ}

theorem delayEnds {t : Trace} (ok : accepted (setGTDelay read fAddelSlope t gtdel).1 = true) :
    Ends (delayTurn read fAddelSlope accepted gtdel) t (setGTDelay read fAddelSlope t gtdel) := by
  have turn : delayTurn read fAddelSlope accepted gtdel t = .stop (setGTDelay read fAddelSlope t gtdel) := if_pos ok
  exact (endsStop turn _).mpr rfl

theorem delayStuck (refused : ∀ t, accepted (setGTDelay read fAddelSlope t gtdel).1 = false) (t : Trace)
    (done : ℚ × Trace) : ¬ Ends (delayTurn read fAddelSlope accepted gtdel) t done := by
  refine neverEnds (fun _ => True) (fun t _ => ⟨(setGTDelay read fAddelSlope t gtdel).2, ?_, trivial⟩) trivial done
  exact if_neg (by rw [refused t]; decide)

end Turns

section Slope
variable {fAddelSlope : ℚ} (low : 10/256 < fAddelSlope) (high : fAddelSlope ≤ 5)
  (read : Trace → BitVec 32 → BitVec 32) (t : Trace)

include low high

theorem longEnds {goal : ℚ} :
    (∃ done, Ends (delayTurn read fAddelSlope (longEnough goal) goal) t done) ↔ wholeTens goal ≤ 6553 := by
  constructor
  · rintro ⟨done, ends⟩
    by_contra many
    refine delayStuck (fun t => ?_) t done ends
    have short := delayFar low high read t (by omega : 6554 ≤ wholeTens goal)
    rw [longEnough, decide_eq_false_iff_not, not_not]
    exact short
  · intro few
    obtain ⟨-, near⟩ := delayNear low high read t few
    have above := le_max_left (goal - minGTDelay) 0
    refine ⟨_, delayEnds ?_⟩
    rw [longEnough, decide_eq_true_eq, not_lt]
    linarith

theorem timeNear {time : ℤ} (first : 150 ≤ time) (last : time ≤ maxTime) :
    (setGTDelay read fAddelSlope t time).1 ≤ time ∧ time - 5 < (setGTDelay read fAddelSlope t time).1 := by
  have first' : (150 : ℚ) ≤ time := by exact_mod_cast first
  have last' : (time : ℚ) ≤ 1100 := by exact_mod_cast last
  have offset : max ((time : ℚ) - minGTDelay) 0 = time - minGTDelay :=
    max_eq_left (by rw [minGTDelay]; linarith)
  have few : wholeTens time ≤ 6553 := by
    rw [wholeTens, offset, minGTDelay, ← Nat.lt_succ_iff, Nat.floor_lt (by linarith)]
    push_cast
    linarith
  have near := delayNear low high read t few
  rwa [offset, sub_add_cancel] at near

theorem windowEnds {time : ℤ} (first : 150 ≤ time) (last : time ≤ maxTime) :
    ∃ done, Ends (delayTurn read fAddelSlope (inWindow time) time) t done := by
  obtain ⟨most, least⟩ := timeNear low high read t first last
  refine ⟨_, delayEnds ?_⟩
  rw [inWindow, decide_eq_true_eq, increment]
  push_cast
  exact ⟨not_lt.mpr most, not_lt.mpr (by linarith)⟩

end Slope

theorem delaySet {read : Trace → BitVec 32 → BitVec 32} {fAddelSlope : ℚ} {accepted : ℚ → Bool} {gtdel : ℚ}
    {t : Trace} {done : ℚ × Trace} (ends : Ends (delayTurn read fAddelSlope accepted gtdel) t done) :
    accepted done.1 = true ∧ ∃ t', done = setGTDelay read fAddelSlope t' gtdel := by
  refine endsInvariant (fun _ => True)
    (fun r => accepted r.1 = true ∧ ∃ t', r = setGTDelay read fAddelSlope t' gtdel) (fun _ _ _ _ => trivial)
    (fun t r _ stop => ?_) trivial ends
  unfold delayTurn at stop
  split at stop
  · rename_i ok
    cases stop
    exact ⟨ok, t, rfl⟩
  · contradiction

theorem windowBounds {read : Trace → BitVec 32 → BitVec 32} {fAddelSlope : ℚ} {time : ℤ} {t : Trace}
    {done : ℚ × Trace} (ends : Ends (delayTurn read fAddelSlope (inWindow time) time) t done) :
    done.1 ≤ time ∧ time ≤ done.1 + 10 := by
  obtain ⟨ok, -⟩ := delaySet ends
  rw [inWindow, decide_eq_true_eq, increment] at ok
  push_cast at ok
  exact ⟨not_lt.mp ok.1, not_lt.mp ok.2⟩

theorem timeGrows {time : ℤ} {realDelay : ℚ} (more : time < maxTime) (near : time - 5 < realDelay)
    (first : 150 ≤ time) : time < nextTime time realDelay ∧ nextTime time realDelay ≤ maxTime := by
  have first' : (150 : ℚ) ≤ time := by exact_mod_cast first
  have floor : time - 5 ≤ truncate (realDelay + 1/2) := by
    rw [truncateUp (by linarith), Int.le_floor]
    push_cast
    linarith
  unfold nextTime increment
  simp only
  split
  · omega
  · omega

section Scan
variable {fAddelSlope : ℚ} (low : 10/256 < fAddelSlope) (high : fAddelSlope ≤ 5)
  (read : Trace → BitVec 32 → BitVec 32) (counts : ℕ → Fin 32 → BitVec 32)

include low high

theorem passGrows {slot : ℕ} {s next : Scan} {done : ℚ × Trace} (first : 150 ≤ s.time) (last : s.time ≤ maxTime)
    (delay : Ends (delayTurn read fAddelSlope (inWindow s.time) s.time) s.board.trace done)
    (pass : scanPass counts slot s done = .again next) : s.time < next.time ∧ next.time ≤ maxTime := by
  obtain ⟨-, t, rfl⟩ := delaySet delay
  obtain ⟨-, near⟩ := timeNear low high read t first last
  unfold scanPass at pass
  simp only at pass
  split at pass
  · contradiction
  split at pass
  · contradiction
  rename_i early
  cases pass
  exact timeGrows (not_le.mp early) near first

theorem scanEnds (slot : ℕ) (s : Scan) (first : 150 ≤ s.time) (last : s.time ≤ maxTime) :
    ∃ after, Scanned read fAddelSlope counts slot s after := by
  generalize left : (maxTime - s.time).toNat = n
  induction n using Nat.strong_induction_on generalizing s with
  | _ n ih =>
  obtain ⟨done, delay⟩ := windowEnds low high read s.board.trace first last
  cases pass : scanPass counts slot s done with
  | stop after => exact ⟨after, .stop delay pass⟩
  | again next =>
    obtain ⟨grows, most⟩ := passGrows low high read counts first last delay pass
    obtain ⟨after, rest⟩ := ih _ (by omega) next (by omega) most rfl
    exact ⟨after, .again delay pass rest⟩

theorem recheckEnds (unset : ℕ → BitVec 16) (slot : ℕ) (channels : List (Fin 32)) (board : Board) :
    ∃ after, Rechecked read fAddelSlope unset slot channels board after := by
  induction channels generalizing board with
  | nil => exact ⟨board, .nil board⟩
  | cons j later ih =>
    have word := ((board.discTimes (slot*32+j)).getD (unset (slot*32+j))).isLt
    have word' : (((board.discTimes (slot*32+j)).getD (unset (slot*32+j))).toNat : ℚ) ≤ 65535 := by
      exact_mod_cast Nat.le_of_lt_succ word
    have few : wholeTens (aloneDelay unset board.discTimes (slot*32+j)) ≤ 6553 := by
      rw [wholeTens, ← Nat.lt_succ_iff, Nat.floor_lt (by positivity), div_lt_iff₀ (by norm_num), max_lt_iff]
      unfold aloneDelay minGTDelay tubDelay
      push_cast
      constructor
      · linarith
      · norm_num
    obtain ⟨done, delay⟩ := (longEnds low high read board.trace).mpr few
    obtain ⟨after, rest⟩ := ih { board with calls := board.calls+2, trace := done.2 }
    exact ⟨after, .cons delay rest⟩

theorem measureEnds (unset : ℕ → BitVec 16) (slots : List ℕ) (board : Board) :
    ∃ logs after, MeasureTTot read fAddelSlope counts unset 150 slots board logs after := by
  induction slots generalizing board with
  | nil => exact ⟨[], board, .nil board⟩
  | cons slot later ih =>
    obtain ⟨scan, scanned⟩ := scanEnds low high read counts slot ⟨150,0,board,[]⟩ (Int.le_refl 150)
      (by decide : (150 : ℤ) ≤ maxTime)
    obtain ⟨mid, alone⟩ := recheckEnds low high read unset slot (List.finRange 32) scan.board
    obtain ⟨logs, after, rest⟩ := ih mid
    exact ⟨_, after, .cons scanned alone rest⟩

theorem checkEnds {goalTime : ℤ} : (∀ board, ∃ diff after, CheckTTot read fAddelSlope counts goalTime board diff after) ↔
    goalTime ≤ 65618 := by
  have few : wholeTens ((goalTime : ℚ) - tubDelay) ≤ 6553 ↔ goalTime ≤ 65618 := by
    rw [wholeTens, ← Nat.lt_succ_iff, Nat.floor_lt (by positivity), div_lt_iff₀ (by norm_num), max_lt_iff,
      ← Int.lt_add_one_iff]
    unfold minGTDelay tubDelay
    constructor
    · rintro ⟨short, -⟩
      push_cast at short
      have less : (goalTime : ℚ) < 65619 := by linarith
      exact_mod_cast less
    · intro short
      have less : (goalTime : ℚ) + 1 ≤ 65619 := by exact_mod_cast short
      push_cast
      exact ⟨by linarith, by norm_num⟩
  rw [← few]
  constructor
  · intro ends
    obtain ⟨diff, after, one, two, first, -⟩ := ends ⟨fun _ => none,0,[]⟩
    exact (longEnds low high read _).mp ⟨one, first⟩
  · intro few board
    obtain ⟨one, first⟩ := (longEnds low high read board.trace).mpr few
    obtain ⟨two, second⟩ := (longEnds low high read one.2).mpr few
    exact ⟨_, _, one, two, first, second, rfl, rfl⟩

end Scan

/- The loops of a call of `get_ttot` or `set_ttot`: `SetTTot` checks with `MAX_TIME` and
with the target, and both measure from 150 on. -/
structure LoopsEnd (read : Trace → BitVec 32 → BitVec 32) (fAddelSlope : ℚ) (targetTime : ℤ) : Prop where
  first : ∀ counts board, ∃ diff after, CheckTTot read fAddelSlope counts maxTime board diff after
  check : ∀ counts board, ∃ diff after, CheckTTot read fAddelSlope counts targetTime board diff after
  measure : ∀ counts unset slotMask board, ∃ logs after,
    MeasureTTot read fAddelSlope counts unset 150 (slotsOf slotMask) board logs after
  grows : ∀ counts slot (s next : Scan) done, 150 ≤ s.time → s.time ≤ maxTime →
    Ends (delayTurn read fAddelSlope (inWindow s.time) s.time) s.board.trace done →
    scanPass counts slot s done = .again next → s.time < next.time ∧ next.time ≤ maxTime

theorem loopsEnd {fAddelSlope : ℚ} (low : 10/256 < fAddelSlope) (high : fAddelSlope ≤ 5)
    (read : Trace → BitVec 32 → BitVec 32) (targetTime : ℤ) :
    LoopsEnd read fAddelSlope targetTime ↔ targetTime ≤ 65618 := by
  constructor
  · intro ends
    exact (checkEnds low high read fun _ _ => 0).mp (ends.check _)
  · intro small
    refine ⟨fun counts => ?_, fun counts => ?_, fun counts unset slotMask board => ?_, fun counts slot s next done => ?_⟩
    · exact (checkEnds low high read counts).mpr (by decide)
    · exact (checkEnds low high read counts).mpr small
    · exact measureEnds low high read counts unset (slotsOf slotMask) board
    · exact passGrows low high read counts

theorem loopsEndDefault : LoopsEnd MTCInit.readLast (1/10) 400 :=
  (loopsEnd (by norm_num) (by norm_num) MTCInit.readLast 400).mpr (by decide)

/- For a target of 70000 the coarse delay of 69920 is 4384 in 16 bits. -/
theorem longTargetHangs : ¬ LoopsEnd MTCInit.readLast (1/10) 70000 := by
  intro ends
  obtain ⟨diff, after, one, two, first, -⟩ := ends.check (fun _ _ => 0) ⟨fun _ => none,0,[]⟩
  have few := (longEnds (by norm_num) (by norm_num) MTCInit.readLast []).mp ⟨one, first⟩
  have many : 6554 ≤ wholeTens ((70000 : ℤ) - tubDelay) := by
    rw [wholeTens]
    refine Nat.le_floor ?_
    rw [le_div_iff₀ (by norm_num), le_max_iff]
    unfold minGTDelay tubDelay
    norm_num
  omega

end PennDaq.TTotLoops
