import PennDaq.MTCInit

/-! The threshold DACs: which 12 bits `LoadMTCADacs` leaves in a DAC for a voltage, and
for which voltages a higher one does not give a lower code. -/
namespace PennDaq.MTCThresholds
open Lib.CNumber
open MTCInit

def dacCode (di : Fin 14) (t : Trace) : Nat :=
  let bits := dacBits di t
  number (bits.drop (bits.length - 12))

def countsOf (voltage : ℚ) : ℚ := 2048/5000*voltage + 2048

/- The code of a voltage below the range is the lowest one, and above it the highest. -/
def Saturates (di : Fin 14) (voltage : ℚ) : Prop :=
  ∀ t (voltages : Fin 14 → ℚ), voltages di = voltage →
    (voltage < -5000 → dacCode di (loadMTCADacs t voltages) = 0) ∧
      (5000 < voltage → dacCode di (loadMTCADacs t voltages) = 4095)

def Ordered (di : Fin 14) (u v : ℚ) : Prop :=
  ∀ t t' (voltages voltages' : Fin 14 → ℚ), voltages di = u → voltages' di = v →
    dacCode di (loadMTCADacs t voltages) ≤ dacCode di (loadMTCADacs t' voltages')

def Monotone (di : Fin 14) (u v : ℚ) : Prop := Ordered di u v ∧ Saturates di u ∧ Saturates di v

/- In the range, or by chance within one count below a whole number of turns of 10000 mV
from its ends. -/
def LandsAtEnd (voltage : ℚ) : Prop :=
  (-5000 ≤ voltage ∧ voltage ≤ 5000) ∨
    ∃ k : ℕ, (-5000 - 10000*k - 5000/2048 < voltage ∧ voltage ≤ -5000 - 10000*k) ∨
      (15000 + 10000*k - 5000/2048 ≤ voltage ∧ voltage < 15000 + 10000*k)

theorem countsCode (t : Trace) (rawDacs : Fin 14 → BitVec 16) (di : Fin 14) :
    dacCode di (loadMTCADacsByCounts t rawDacs) = (rawDacs di).toNat % 4096 := by
  have last (t : Trace) : dacBits di (dacWrite t 0x0) = dacBits di t := by
    simp [dacBits, dacWrite, clockedWrite]
  have bits : dacBits di (loadMTCADacsByCounts t rawDacs) =
      dacBits di (shiftDummy 4 (dacWrite t dacSel)) ++ bitsOf (rawDacs di) 12 := by
    unfold loadMTCADacsByCounts
    rw [last, shiftDacsBits _ _ _ _ _ (by decide)]
  unfold dacCode
  rw [bits]
  simp only [List.length_append, bitsLength, Nat.add_sub_cancel, List.drop_left, numberBits]
  rfl

theorem loadedCode (t : Trace) (voltages : Fin 14 → ℚ) (di : Fin 14) :
    (dacCode di (loadMTCADacs t voltages) : ℤ) = truncate (countsOf (voltages di)) % 4096 := by
  rw [loadMTCADacs, countsCode, Int.natCast_mod, toUIntValue, ← countsOf]
  omega

def codeOf (voltage : ℚ) : ℤ := truncate (countsOf voltage) % 4096

theorem codeBounds (voltage : ℚ) : 0 ≤ codeOf voltage ∧ codeOf voltage < 4096 := by
  unfold codeOf
  omega

theorem orderedCode (di : Fin 14) (u v : ℚ) : Ordered di u v ↔ codeOf u ≤ codeOf v := by
  constructor
  · intro ordered
    have codes := ordered [] [] (fun _ => u) (fun _ => v) rfl rfl
    rw [← Int.ofNat_le, loadedCode, loadedCode] at codes
    exact codes
  · rintro codes t t' voltages voltages' rfl rfl
    rw [← Int.ofNat_le, loadedCode, loadedCode]
    exact codes

theorem saturatesCode (di : Fin 14) (voltage : ℚ) :
    Saturates di voltage ↔ (voltage < -5000 → codeOf voltage = 0) ∧ (5000 < voltage → codeOf voltage = 4095) := by
  constructor
  · intro saturates
    obtain ⟨low, high⟩ := saturates [] (fun _ => voltage) rfl
    refine ⟨fun below => ?_, fun above => ?_⟩
    · rw [codeOf, ← loadedCode [] (fun _ => voltage) di, low below]
      rfl
    · rw [codeOf, ← loadedCode [] (fun _ => voltage) di, high above]
      rfl
  · rintro ⟨low, high⟩ t voltages rfl
    have code := loadedCode t voltages di
    rw [← codeOf] at code
    refine ⟨fun below => ?_, fun above => ?_⟩
    · have := low below
      omega
    · have := high above
      omega

theorem codeInside {voltage : ℚ} (low : -5000 ≤ voltage) (high : voltage < 5000) :
    codeOf voltage = ⌊countsOf voltage⌋ := by
  have up : 0 ≤ countsOf voltage := by unfold countsOf; linarith
  have top : ⌊countsOf voltage⌋ < 4096 := by
    rw [Int.floor_lt]
    push_cast
    unfold countsOf
    linarith
  have bottom := Int.floor_nonneg.mpr up
  rw [codeOf, truncateUp up]
  omega

theorem codeTop : codeOf 5000 = 0 := by
  have counts : countsOf 5000 = (4096 : ℤ) := by
    unfold countsOf
    norm_num
  rw [codeOf, counts, truncateInt]
  rfl

theorem codeBelow {voltage : ℚ} (below : voltage < -5000) : codeOf voltage = 0 ↔
    ∃ k : ℕ, -5000 - 10000*k - 5000/2048 < voltage ∧ voltage ≤ -5000 - 10000*k := by
  have down : countsOf voltage < 0 := by unfold countsOf; linarith
  have turns (k : ℕ) : ⌈countsOf voltage⌉ = -4096*k ↔
      -5000 - 10000*k - 5000/2048 < voltage ∧ voltage ≤ -5000 - 10000*k := by
    rw [Int.ceil_eq_iff]
    unfold countsOf
    push_cast
    constructor
    · rintro ⟨one, two⟩
      exact ⟨by linarith, by linarith⟩
    · rintro ⟨one, two⟩
      exact ⟨by linarith, by linarith⟩
  have negative : ⌈countsOf voltage⌉ ≤ 0 := Int.ceil_le.mpr (by exact_mod_cast down.le)
  rw [codeOf, truncateDown down]
  constructor
  · intro zero
    refine ⟨(-⌈countsOf voltage⌉/4096).toNat, (turns _).mp ?_⟩
    omega
  · rintro ⟨k, lands⟩
    rw [(turns k).mpr lands]
    omega

theorem codeAbove {voltage : ℚ} (above : 5000 < voltage) : codeOf voltage = 4095 ↔
    ∃ k : ℕ, 15000 + 10000*k - 5000/2048 ≤ voltage ∧ voltage < 15000 + 10000*k := by
  have up : 4096 < countsOf voltage := by unfold countsOf; linarith
  have turns (k : ℕ) : ⌊countsOf voltage⌋ = 8191 + 4096*k ↔
      15000 + 10000*k - 5000/2048 ≤ voltage ∧ voltage < 15000 + 10000*k := by
    rw [Int.floor_eq_iff]
    unfold countsOf
    push_cast
    constructor
    · rintro ⟨one, two⟩
      exact ⟨by linarith, by linarith⟩
    · rintro ⟨one, two⟩
      exact ⟨by linarith, by linarith⟩
  have least : 4096 ≤ ⌊countsOf voltage⌋ := Int.le_floor.mpr (by exact_mod_cast up.le)
  rw [codeOf, truncateUp (by linarith)]
  constructor
  · intro highest
    refine ⟨((⌊countsOf voltage⌋ - 8191)/4096).toNat, (turns _).mp ?_⟩
    omega
  · rintro ⟨k, lands⟩
    rw [(turns k).mpr lands]
    omega

theorem saturatesEnd (di : Fin 14) (voltage : ℚ) : Saturates di voltage ↔ LandsAtEnd voltage := by
  rw [saturatesCode, LandsAtEnd]
  rcases lt_or_ge voltage (-5000) with below | low
  · rw [codeBelow below]
    constructor
    · rintro ⟨lands, -⟩
      obtain ⟨k, lands⟩ := lands below
      exact Or.inr ⟨k, Or.inl lands⟩
    · intro lands
      refine ⟨fun _ => ?_, fun above => by linarith⟩
      rcases lands with ⟨inside, -⟩ | ⟨k, lands | ⟨lands, -⟩⟩
      · linarith
      · exact ⟨k, lands⟩
      · have turns : (0 : ℚ) ≤ k := Nat.cast_nonneg k
        linarith
  rcases le_or_gt voltage 5000 with high | above
  · exact iff_of_true ⟨fun below => by linarith, fun above => by linarith⟩ (Or.inl ⟨low,high⟩)
  · rw [codeAbove above]
    constructor
    · rintro ⟨-, lands⟩
      obtain ⟨k, lands⟩ := lands above
      exact Or.inr ⟨k, Or.inr lands⟩
    · intro lands
      refine ⟨fun below => by linarith, fun _ => ?_⟩
      rcases lands with ⟨-, inside⟩ | ⟨k, ⟨-, lands⟩ | lands⟩
      · linarith
      · have turns : (0 : ℚ) ≤ k := Nat.cast_nonneg k
        linarith
      · exact ⟨k, lands⟩

theorem codeZero {voltage : ℚ} (low : -5000 ≤ voltage) (high : voltage < 5000) :
    codeOf voltage = 0 ↔ voltage < -5000 + 5000/2048 := by
  have up : 0 ≤ countsOf voltage := by unfold countsOf; linarith
  rw [codeInside low high, Int.floor_eq_zero_iff, Set.mem_Ico]
  unfold countsOf at up ⊢
  constructor
  · rintro ⟨-, less⟩
    linarith
  · intro less
    exact ⟨up, by linarith⟩

theorem orderedSaturated {u v : ℚ} (le : u ≤ v) (di : Fin 14) (first : Saturates di u) (second : Saturates di v) :
    codeOf u ≤ codeOf v ↔ (v = 5000 → u = 5000 ∨ u < -5000 + 5000/2048) := by
  obtain ⟨lowU, highU⟩ := (saturatesCode di u).mp first
  obtain ⟨lowV, highV⟩ := (saturatesCode di v).mp second
  have boundsU := codeBounds u
  have boundsV := codeBounds v
  rcases lt_or_ge u (-5000) with below | low
  · refine iff_of_true ?_ fun _ => Or.inr (by linarith)
    rw [lowU below]
    exact boundsV.1
  rcases lt_trichotomy v 5000 with inside | rfl | above
  · refine iff_of_true ?_ fun top => absurd top inside.ne
    rw [codeInside low (by linarith), codeInside (by linarith) inside]
    apply Int.floor_le_floor
    unfold countsOf
    linarith
  · rw [codeTop]
    rcases lt_or_eq_of_le le with less | rfl
    · rw [← codeZero low less]
      constructor
      · exact fun none' _ => Or.inr (by omega)
      · intro either
        rcases either rfl with top | zero
        · exact absurd top less.ne
        · exact zero.le
    · exact iff_of_true codeTop.le fun _ => Or.inl rfl
  · refine iff_of_true ?_ fun top => absurd top above.ne'
    rw [highV above]
    omega

theorem thresholdsMonotone (di : Fin 14) {u v : ℚ} (le : u ≤ v) :
    Monotone di u v ↔ LandsAtEnd u ∧ LandsAtEnd v ∧ (v = 5000 → u = 5000 ∨ u < -5000 + 5000/2048) := by
  rw [Monotone, orderedCode, ← saturatesEnd di u, ← saturatesEnd di v]
  constructor
  · rintro ⟨ordered, first, second⟩
    exact ⟨first, second, (orderedSaturated le di first second).mp ordered⟩
  · rintro ⟨first, second, top⟩
    exact ⟨(orderedSaturated le di first second).mpr top, first, second⟩

theorem thresholdsMonotoneInside : Monotone 3 (-1200) 4999 :=
  (thresholdsMonotone 3 (by norm_num)).mpr
    ⟨Or.inl ⟨by norm_num,by norm_num⟩, Or.inl ⟨by norm_num,by norm_num⟩, fun top => by norm_num at top⟩

/- The top of the range gives the lowest code, and 6000 mV a lower one than 0 mV. -/
theorem topWraps : ¬ Monotone 0 4999 5000 ∧ ¬ Monotone 0 0 6000 := by
  have inside : codeOf 4999 = 4095 := by
    rw [codeInside (by norm_num) (by norm_num), Int.floor_eq_iff]
    unfold countsOf
    norm_num
  have middle : codeOf 0 = 2048 := by
    rw [codeInside (by norm_num) (by norm_num), Int.floor_eq_iff]
    unfold countsOf
    norm_num
  have wrapped : codeOf 6000 = 409 := by
    have counts : ⌊countsOf 6000⌋ = 4505 := by
      rw [Int.floor_eq_iff]
      unfold countsOf
      norm_num
    rw [codeOf, truncateUp (by unfold countsOf; norm_num), counts]
    rfl
  refine ⟨fun monotone => ?_, fun monotone => ?_⟩
  · have ordered := (orderedCode 0 4999 5000).mp monotone.1
    rw [inside, codeTop] at ordered
    exact absurd ordered (by decide)
  · have ordered := (orderedCode 0 0 6000).mp monotone.1
    rw [middle, wrapped] at ordered
    exact absurd ordered (by decide)

end PennDaq.MTCThresholds
