import Mathlib.Data.Rat.Floor

/-! Conversions of C between numbers, over exact rational arithmetic. -/
namespace Lib.CNumber

/- What a conversion to an integer leaves of a number: the part before the point. -/
def truncate (q : ℚ) : ℤ := if 0 ≤ q then ⌊q⌋ else ⌈q⌉

@[simp] theorem truncateInt (n : ℤ) : truncate n = n := by
  unfold truncate
  split
  · exact Int.floor_intCast n
  · exact Int.ceil_intCast n

@[simp] theorem truncateNat (n : ℕ) : truncate n = n := by
  have same := truncateInt n
  simpa using same

theorem truncateUp {q : ℚ} (up : 0 ≤ q) : truncate q = ⌊q⌋ := if_pos up

theorem truncateDown {q : ℚ} (down : q < 0) : truncate q = ⌈q⌉ := if_neg (not_le.mpr down)

/- `(int)` of a double. One that does not fit gives the least number. -/
def toInt32 (q : ℚ) : ℤ := if -2147483648 ≤ truncate q ∧ truncate q < 2147483648 then truncate q else -2147483648

theorem toInt32Small {n : ℕ} (small : n < 2147483648) : toInt32 n = n := by
  rw [toInt32, truncateNat, if_pos (by omega)]

theorem toInt32Large {n : ℕ} (large : 2147483648 ≤ n) : toInt32 n = -2147483648 := by
  rw [toInt32, truncateNat, if_neg (by omega)]

def toUInt (w : Nat) (q : ℚ) : BitVec w := BitVec.ofInt w (truncate q)

theorem toUIntValue (w : ℕ) (q : ℚ) : ((toUInt w q).toNat : ℤ) = truncate q % 2^w := by
  have positive : (0 : ℤ) < 2^w := by positivity
  rw [toUInt, BitVec.toNat_ofInt, Int.toNat_of_nonneg]
  · push_cast
    rfl
  · exact Int.emod_nonneg _ (by exact_mod_cast positive.ne')

@[simp] theorem toUIntNat (w n : ℕ) : toUInt w n = BitVec.ofNat w n := by
  rw [toUInt, truncateNat, BitVec.ofInt_natCast]

theorem toUIntOf {w : Nat} (b : BitVec w) : toUInt w b.toNat = b := by
  rw [toUIntNat, BitVec.ofNat_toNat, BitVec.setWidth_eq]

end Lib.CNumber
