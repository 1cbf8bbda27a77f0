import Mathlib.Data.BitVec

/-! The number of pulses between two readings of the global trigger register: a counter
of 24 bits with junk above it. -/
namespace PennDaq.TriggerCounts

def gtRegister (junk : BitVec 8) (count : ℕ) : BitVec 32 := BitVec.ofNat 32 (junk.toNat*2^24 + count % 2^24)

def getGTCount (reading : BitVec 32) : BitVec 32 := reading &&& 0x00FFFFFFF

def pedRunPulses (beforeGT afterGT : BitVec 32) : BitVec 32 := afterGT-beforeGT

def pedRunByChannelPulses (beforeGT afterGT : BitVec 32) : BitVec 32 := afterGT-beforeGT

def fifoTestPulses (gt1 gt2 : BitVec 32) : BitVec 32 := getGTCount gt2-getGTCount gt1

def triggerScanPulses (beforegt aftergt : BitVec 32) : BitVec 32 := (aftergt &&& 0x00FFFFFF)-(beforegt &&& 0x00FFFFFF)

def Counts (derive : BitVec 32 → BitVec 32 → BitVec 32) (junk junk' : BitVec 8) (first pulses : BitVec 24) : Prop :=
  (derive (gtRegister junk first.toNat) (gtRegister junk' (first.toNat+pulses.toNat))).toNat = pulses.toNat

instance (derive : BitVec 32 → BitVec 32 → BitVec 32) (junk junk' : BitVec 8) (first pulses : BitVec 24) :
    Decidable (Counts derive junk junk' first pulses) := by
  unfold Counts
  infer_instance

def carry (first pulses : BitVec 24) : ℕ := (first.toNat+pulses.toNat)/2^24

theorem registerNat (junk : BitVec 8) (count : ℕ) :
    (gtRegister junk count).toNat = junk.toNat*2^24 + count % 2^24 := by
  have small := junk.isLt
  rw [gtRegister, BitVec.toNat_ofNat]
  exact Nat.mod_eq_of_lt (by omega)

theorem gtCountNat (reading : BitVec 32) : (getGTCount reading).toNat = reading.toNat % 2^28 := by
  rw [getGTCount, BitVec.toNat_and]
  exact Nat.and_two_pow_sub_one_eq_mod reading.toNat 28

theorem counterNat (reading : BitVec 32) : (reading &&& 0x00FFFFFF).toNat = reading.toNat % 2^24 := by
  rw [BitVec.toNat_and]
  exact Nat.and_two_pow_sub_one_eq_mod reading.toNat 24

section Readings
variable (junk junk' : BitVec 8) (first pulses : BitVec 24)

theorem plainCounts : Counts (fun before after => after-before) junk junk' first pulses ↔
    junk' = junk + BitVec.ofNat 8 (carry first pulses) := by
  have small := first.isLt
  have small' := pulses.isLt
  have byte := junk.isLt
  have byte' := junk'.isLt
  unfold Counts carry
  rw [BitVec.toNat_sub, registerNat, registerNat, ← BitVec.toNat_inj, BitVec.toNat_add, BitVec.toNat_ofNat,
    Nat.mod_eq_of_lt small]
  omega

theorem fifoCounts : Counts fifoTestPulses junk junk' first pulses ↔
    junk'.toNat % 16 = junk.toNat % 16 + carry first pulses := by
  have small := first.isLt
  have small' := pulses.isLt
  unfold Counts carry fifoTestPulses
  rw [BitVec.toNat_sub, gtCountNat, gtCountNat, registerNat, registerNat, Nat.mod_eq_of_lt small]
  omega

theorem scanCounts : Counts triggerScanPulses junk junk' first pulses ↔ carry first pulses = 0 := by
  have small := first.isLt
  have small' := pulses.isLt
  unfold Counts carry triggerScanPulses
  rw [BitVec.toNat_sub, counterNat, counterNat, registerNat, registerNat, Nat.mod_eq_of_lt small]
  omega

/- Each of the four tests is right for its own readings. -/
theorem pulsesExact :
    (Counts pedRunPulses junk junk' first pulses ↔ junk' = junk + BitVec.ofNat 8 (carry first pulses)) ∧
    (Counts pedRunByChannelPulses junk junk' first pulses ↔ junk' = junk + BitVec.ofNat 8 (carry first pulses)) ∧
    (Counts fifoTestPulses junk junk' first pulses ↔ junk'.toNat % 16 = junk.toNat % 16 + carry first pulses) ∧
    (Counts triggerScanPulses junk junk' first pulses ↔ carry first pulses = 0) :=
  ⟨plainCounts .., plainCounts .., fifoCounts .., scanCounts ..⟩

/- Junk that changes is counted by three of them, and a counter that wraps by the fourth. -/
theorem junkCounted : ¬ Counts pedRunPulses 0 1 0 16 ∧ ¬ Counts pedRunByChannelPulses 0 1 0 16 ∧
    ¬ Counts fifoTestPulses 0 1 0 16 ∧ ¬ Counts triggerScanPulses 0 0 0xFFFFFF 1 := by
  decide

end Readings
end PennDaq.TriggerCounts
