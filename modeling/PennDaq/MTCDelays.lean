import PennDaq.MTCInit

/-! `MTCModel::SetGTDelay`: the delay that it returns, and the delay that the coarse and
the fine register stand for when it is through. -/
namespace PennDaq.MTCDelays
open Lib.CNumber
open MTCInit

def minGTDelay : ℚ := 1835/100

def offsetRes (gtdel : ℚ) : ℚ := (if gtdel < minGTDelay then minGTDelay else gtdel) - minGTDelay

def cdticks (gtdel : ℚ) : BitVec 16 := toUInt 16 (offsetRes gtdel/10)

def coarseDelay (gtdel : ℚ) : BitVec 16 := cdticks gtdel * 10

def fineDelay (gtdel : ℚ) : ℚ := offsetRes gtdel - (cdticks gtdel).toNat*10

def addelValue (fAddelSlope delay : ℚ) : BitVec 32 := toUInt 32 (delay/fAddelSlope)

section Setters
variable (read : Trace → BitVec 32 → BitVec 32) (fAddelSlope : ℚ)

def setFineDelay (t : Trace) (delay : ℚ) : ℚ × Trace :=
  if (addelValue fAddelSlope delay).toNat > 255 then (-1,t)
  else ((addelValue fAddelSlope delay).toNat*fAddelSlope,
    toggle read (regWrite t mtcFineDelayReg (addelValue fAddelSlope delay)) loadEnPw)

/- What `SetCoarseDelay` returns is not looked at. -/
def setGTDelay (t : Trace) (gtdel : ℚ) : ℚ × Trace :=
  let coarse := setCoarseDelay read t (coarseDelay gtdel)
  let fine := setFineDelay read fAddelSlope coarse.2 (fineDelay gtdel)
  ((coarseDelay gtdel).toNat + fine.1 + minGTDelay,fine.2)

theorem setFineDelayTrace (t : Trace) (delay : ℚ) :
    (setFineDelay read fAddelSlope t delay).2 = MTCInit.setFineDelay read fAddelSlope t delay := by
  change _ = if (addelValue fAddelSlope delay).toNat > 255 then t
    else toggle read (regWrite t mtcFineDelayReg (addelValue fAddelSlope delay)) loadEnPw
  unfold setFineDelay
  split
  · rfl
  · rfl

end Setters

def held (before : BitVec 32 → BitVec 32) (reg : BitVec 32) (t : Trace) : BitVec 32 :=
  (lastWritten reg t).getD (before reg)

def coarseCount (before : BitVec 32 → BitVec 32) (t : Trace) : Nat :=
  (~~~held before mtcCoarseDelayReg t).toNat % 2^8

def fineCount (before : BitVec 32 → BitVec 32) (t : Trace) : Nat :=
  (held before mtcFineDelayReg t).toNat % 2^8

def encodedDelay (before : BitVec 32 → BitVec 32) (fAddelSlope : ℚ) (t : Trace) : ℚ :=
  10*coarseCount before t + fAddelSlope*fineCount before t

def ReturnsEncoded (read : Trace → BitVec 32 → BitVec 32) (before : BitVec 32 → BitVec 32)
    (fAddelSlope : ℚ) (t : Trace) (gtdel : ℚ) : Prop :=
  (setGTDelay read fAddelSlope t gtdel).1 =
    minGTDelay + encodedDelay before fAddelSlope (setGTDelay read fAddelSlope t gtdel).2

def wholeTens (gtdel : ℚ) : ℕ := ⌊max (gtdel - minGTDelay) 0/10⌋₊

def coarseAsked (gtdel : ℚ) : ℕ := 10*wholeTens gtdel % 65536

def fineAsked (fAddelSlope gtdel : ℚ) : ℕ :=
  ⌊(max (gtdel - minGTDelay) 0 - 10*(wholeTens gtdel % 65536 : ℕ))/fAddelSlope⌋₊ % 4294967296

abbrev CoarseFits (gtdel : ℚ) : Prop := 10 ≤ coarseAsked gtdel ∧ coarseAsked gtdel ≤ 2550

abbrev FineFits (fAddelSlope gtdel : ℚ) : Prop := fineAsked fAddelSlope gtdel ≤ 255

def coarseLeft (before : BitVec 32 → BitVec 32) (t : Trace) (gtdel : ℚ) : ℕ :=
  if CoarseFits gtdel then coarseAsked gtdel/10*10 else 10*coarseCount before t

/- The coarse register stands for the coarse part of the request; behind a refused fine
part both registers together stand for one nanosecond less. -/
def PartsMatch (before : BitVec 32 → BitVec 32) (fAddelSlope : ℚ) (t : Trace) (gtdel : ℚ) : Prop :=
  if FineFits fAddelSlope gtdel then coarseAsked gtdel = coarseLeft before t gtdel
  else (coarseAsked gtdel : ℚ) - 1 = coarseLeft before t gtdel + fAddelSlope*fineCount before t

theorem offsetMax (gtdel : ℚ) : offsetRes gtdel = max (gtdel - minGTDelay) 0 := by
  unfold offsetRes
  split
  · rename_i low
    rw [max_eq_right (by linarith), sub_self]
  · rename_i high
    rw [max_eq_left (by linarith)]

theorem ticksTens (gtdel : ℚ) : (cdticks gtdel).toNat = wholeTens gtdel % 65536 := by
  have positive : 0 ≤ max (gtdel - minGTDelay) 0/10 := by positivity
  have value := toUIntValue 16 (offsetRes gtdel/10)
  rw [offsetMax, truncateUp positive, ← Int.natCast_floor_eq_floor positive] at value
  rw [cdticks, offsetMax, wholeTens]
  omega

theorem coarseRequest (gtdel : ℚ) : (coarseDelay gtdel).toNat = coarseAsked gtdel := by
  rw [coarseDelay, BitVec.toNat_mul, ticksTens, coarseAsked]
  change wholeTens gtdel % 65536*10 % 65536 = _
  omega

theorem finePart (gtdel : ℚ) :
    fineDelay gtdel = max (gtdel - minGTDelay) 0 - 10*(wholeTens gtdel % 65536 : ℕ) ∧ 0 ≤ fineDelay gtdel := by
  have same : fineDelay gtdel = max (gtdel - minGTDelay) 0 - 10*(wholeTens gtdel % 65536 : ℕ) := by
    rw [fineDelay, offsetMax, ticksTens, mul_comm]
  have positive : 0 ≤ max (gtdel - minGTDelay) 0/10 := by positivity
  have floor := Nat.floor_le positive
  have low : ((wholeTens gtdel % 65536 : ℕ) : ℚ) ≤ wholeTens gtdel := Nat.cast_le.mpr (Nat.mod_le _ _)
  rw [← wholeTens] at floor
  refine ⟨same, ?_⟩
  rw [same]
  linarith

theorem fineRequest {fAddelSlope : ℚ} (slope : 0 < fAddelSlope) (gtdel : ℚ) :
    (addelValue fAddelSlope (fineDelay gtdel)).toNat = fineAsked fAddelSlope gtdel := by
  obtain ⟨same, least⟩ := finePart gtdel
  have positive : 0 ≤ fineDelay gtdel/fAddelSlope := div_nonneg least slope.le
  have value := toUIntValue 32 (fineDelay gtdel/fAddelSlope)
  rw [truncateUp positive, ← Int.natCast_floor_eq_floor positive] at value
  rw [addelValue, fineAsked, ← same]
  omega

theorem heldWrite (before : BitVec 32 → BitVec 32) (reg : BitVec 32) (t : Trace) (data : BitVec 32) :
    held before reg (regWrite t reg data) = data := by
  rw [held, lastWrite, Option.getD_some]

theorem heldKept {regs : List (BitVec 32)} {reg : BitVec 32} {t t' : Trace} (before : BitVec 32 → BitVec 32)
    (writes : Writes regs t t') (other : reg ∉ regs) : held before reg t' = held before reg t := by
  rw [held, held, lastKept writes other]

theorem complementCount {n : Nat} (small : n ≤ 255) : (~~~(~~~BitVec.ofNat 32 n)).toNat % 2^8 = n := by
  rw [BitVec.not_not, BitVec.toNat_ofNat]
  omega

section Setters
variable (read : Trace → BitVec 32 → BitVec 32) (before : BitVec 32 → BitVec 32) (fAddelSlope : ℚ)

theorem coarseBehind (t : Trace) (gtdel : ℚ) :
    10*coarseCount before (setCoarseDelay read t (coarseDelay gtdel)).2 = coarseLeft before t gtdel := by
  unfold setCoarseDelay loadCounts coarseLeft
  rw [coarseRequest]
  split
  · rename_i out
    rw [if_neg (by omega)]
  · rename_i fits
    have kept := heldKept before (toggleWrites read List.mem_cons_self
      (regWrite t mtcCoarseDelayReg (~~~BitVec.ofNat 32 (coarseAsked gtdel/10))) loadEnPw)
      (by decide : mtcCoarseDelayReg ∉ [mtcControlReg])
    rw [if_pos (by omega), coarseCount, kept, heldWrite, complementCount (by omega), Nat.mul_comm]

theorem setFineDelayWrites (t : Trace) (delay : ℚ) :
    Writes [mtcFineDelayReg,mtcControlReg] t (setFineDelay read fAddelSlope t delay).2 := by
  rw [setFineDelayTrace]
  exact MTCInit.setFineDelayWrites read fAddelSlope t delay

theorem fineBehind (t : Trace) (delay : ℚ) :
    fineCount before (setFineDelay read fAddelSlope t delay).2 =
      if (addelValue fAddelSlope delay).toNat ≤ 255 then (addelValue fAddelSlope delay).toNat
      else fineCount before t := by
  unfold setFineDelay
  split
  · rename_i out
    rw [if_neg (by omega)]
  · rename_i fits
    have kept := heldKept before (toggleWrites read List.mem_cons_self
      (regWrite t mtcFineDelayReg (addelValue fAddelSlope delay)) loadEnPw)
      (by decide : mtcFineDelayReg ∉ [mtcControlReg])
    rw [if_pos (by omega), fineCount, kept, heldWrite, Nat.mod_eq_of_lt (by omega)]

variable {fAddelSlope} (slope : 0 < fAddelSlope)

include slope

theorem delayBehind (t : Trace) (gtdel : ℚ) :
    encodedDelay before fAddelSlope (setGTDelay read fAddelSlope t gtdel).2 = coarseLeft before t gtdel +
      fAddelSlope*(if FineFits fAddelSlope gtdel then fineAsked fAddelSlope gtdel
        else fineCount before t : ℕ) := by
  have coarse := coarseBehind read before t gtdel
  have coarseKept := heldKept before
    (setFineDelayWrites read fAddelSlope (setCoarseDelay read t (coarseDelay gtdel)).2 (fineDelay gtdel))
    (by decide : mtcCoarseDelayReg ∉ [mtcFineDelayReg,mtcControlReg])
  have fineKept := heldKept before
    (loadCountsWrites read mtcCoarseDelayReg loadEnPw 10 t (coarseDelay gtdel))
    (by decide : mtcFineDelayReg ∉ [mtcCoarseDelayReg,mtcControlReg])
  unfold encodedDelay setGTDelay
  simp only
  rw [fineBehind, fineRequest slope, coarseCount, coarseKept, ← coarseCount, ← coarse, fineCount, setCoarseDelay,
    fineKept, ← fineCount]
  push_cast
  rfl

theorem delayReturned (t : Trace) (gtdel : ℚ) :
    (setGTDelay read fAddelSlope t gtdel).1 = minGTDelay + (coarseAsked gtdel +
      if FineFits fAddelSlope gtdel then fAddelSlope*fineAsked fAddelSlope gtdel else -1) := by
  unfold setGTDelay setFineDelay
  simp only
  rw [fineRequest slope, coarseRequest]
  split
  · rename_i out
    rw [if_neg (by omega)]
    ring
  · rename_i fits
    rw [if_pos (by omega)]
    ring

theorem delayEncoded (t : Trace) (gtdel : ℚ) :
    ReturnsEncoded read before fAddelSlope t gtdel ↔ PartsMatch before fAddelSlope t gtdel := by
  rw [ReturnsEncoded, delayReturned read slope, delayBehind read before slope, add_right_inj, PartsMatch]
  split
  · rw [add_left_inj, Nat.cast_inj]
  · rw [← sub_eq_add_neg]

end Setters

theorem delayEncodedSample : ReturnsEncoded readLast (fun _ => 0) (1/10) [] 150 := by
  have tens : wholeTens 150 = 13 := by
    rw [wholeTens, Nat.floor_eq_iff (by positivity)]
    norm_num [minGTDelay]
  have coarse : coarseAsked 150 = 130 := by rw [coarseAsked, tens]
  have fine : fineAsked (1/10) 150 = 16 := by
    have counts : ⌊(max ((150 : ℚ) - minGTDelay) 0 - 10*(13 % 65536 : ℕ))/(1/10)⌋₊ = 16 := by
      rw [Nat.floor_eq_iff (by norm_num [minGTDelay])]
      norm_num [minGTDelay]
    rw [fineAsked, tens, counts]
  refine (delayEncoded readLast (fun _ => 0) (by norm_num) [] 150).mpr ?_
  have fits : FineFits (1/10) 150 := by
    rw [FineFits, fine]
    decide
  have inside : CoarseFits 150 := by
    rw [CoarseFits, coarse]
    decide
  rw [PartsMatch, if_pos fits, coarseLeft, if_pos inside, coarse]

/- A delay of 20 ns leaves a coarse count of 5 where it is, and with a slope of 1/100 the
-1 of the refused fine delay is counted as nanoseconds. -/
theorem refusedDelays : ¬ ReturnsEncoded readLast (fun _ => ~~~5) (1/10) [] 20 ∧
    ¬ ReturnsEncoded readLast (fun _ => 0) (1/100) [] (18 + 35/100 + 35) := by
  unfold ReturnsEncoded
  decide +kernel

end PennDaq.MTCDelays
