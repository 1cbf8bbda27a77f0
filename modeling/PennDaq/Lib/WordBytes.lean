import Mathlib.Data.BitVec

/-! The bytes of a machine word, the lowest first. -/
namespace Lib.WordBytes

variable {w : Nat}

def byteOf (x : BitVec w) (k : Nat) : BitVec 8 := x.extractLsb' (8*k) 8

def setByte (x : BitVec w) (k : Nat) (value : BitVec 8) : BitVec w :=
  (x &&& ~~~(0xFF#w <<< (8*k))) ||| (value.setWidth w <<< (8*k))

theorem setByteBit (x : BitVec w) (k : Nat) (value : BitVec 8) {i : Nat} (inside : i < w) :
    (setByte x k value).getLsbD i =
      if 8*k ≤ i ∧ i < 8*k+8 then value.getLsbD (i-8*k) else x.getLsbD i := by
  have ones : Nat.testBit 255 (i-8*k) = decide (i-8*k < 8) := Nat.testBit_two_pow_sub_one 8 (i-8*k)
  simp only [setByte, BitVec.getLsbD_or, BitVec.getLsbD_and, BitVec.getLsbD_not, BitVec.getLsbD_shiftLeft,
    BitVec.getLsbD_setWidth, BitVec.getLsbD_ofNat, ones, inside, decide_true, Bool.true_and]
  by_cases low : i < 8*k
  · simp [low, Nat.not_le.mpr low]
  · have wide : i-8*k < w := by omega
    by_cases high : i < 8*k+8
    · have short : i-8*k < 8 := by omega
      simp [low, high, wide, short, Nat.le_of_not_lt low]
    · have long : ¬ i-8*k < 8 := by omega
      simp [low, high, long, BitVec.getLsbD_of_ge value (i-8*k) (Nat.le_of_not_lt long)]

theorem byteBit (x : BitVec w) (k : Nat) {j : Nat} (inside : j < 8) :
    (byteOf x k).getLsbD j = x.getLsbD (8*k+j) := by
  simp [byteOf, inside]

theorem byteSame (x : BitVec w) {k : Nat} (inside : 8*k+8 ≤ w) (value : BitVec 8) :
    byteOf (setByte x k value) k = value := by
  refine BitVec.eq_of_getLsbD_eq fun j bit => ?_
  rw [byteBit _ _ bit, setByteBit _ _ _ (by omega), if_pos (by omega), Nat.add_sub_cancel_left]

theorem byteOther (x : BitVec w) {k q : Nat} (apart : k ≠ q) (value : BitVec 8) :
    byteOf (setByte x k value) q = byteOf x q := by
  refine BitVec.eq_of_getLsbD_eq fun j bit => ?_
  rw [byteBit _ _ bit, byteBit _ _ bit]
  by_cases inside : 8*q+j < w
  · rw [setByteBit _ _ _ inside, if_neg (by omega)]
  · rw [BitVec.getLsbD_of_ge _ _ (Nat.le_of_not_lt inside), BitVec.getLsbD_of_ge _ _ (Nat.le_of_not_lt inside)]

theorem bytesSame {x y : BitVec w} {n : Nat} (all : w ≤ 8*n)
    (same : ∀ k < n, byteOf x k = byteOf y k) : x = y := by
  refine BitVec.eq_of_getLsbD_eq fun i inside => ?_
  have bit : i % 8 < 8 := Nat.mod_lt _ (by decide)
  have here := congrArg (BitVec.getLsbD · (i % 8)) (same (i / 8) (by omega))
  simpa only [byteBit _ _ bit, Nat.div_add_mod] using here

end Lib.WordBytes
