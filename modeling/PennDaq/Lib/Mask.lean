import Mathlib.Data.BitVec
import Mathlib.Data.List.Range

/-! Words as sets of bit numbers. -/
namespace Lib.Mask

variable {w : Nat}

def orBits (mask : BitVec w) (bits : List Nat) : BitVec w :=
  bits.foldl (fun mask j => mask ||| 1#w <<< j) mask

theorem emptyBit {mask : BitVec w} (none' : mask = 0) (k : Nat) : mask.getLsbD k = false := by
  rw [none']
  exact BitVec.getLsbD_zero

theorem someBit {mask : BitVec w} (some' : mask ≠ 0) : ∃ k, mask.getLsbD k = true := by
  by_contra none'
  refine some' (BitVec.eq_of_getLsbD_eq fun k _ => ?_)
  rw [Bool.eq_false_of_not_eq_true fun bit => none' ⟨k, bit⟩]
  exact BitVec.getLsbD_zero.symm

theorem highBit {mask : BitVec w} {n k : Nat} (small : mask.toNat < 2^n) (high : n ≤ k) : mask.getLsbD k = false := by
  rw [BitVec.getLsbD, Nat.testBit_lt_two_pow]
  exact Nat.lt_of_lt_of_le small (Nat.pow_le_pow_right (by decide) high)

theorem oneBit {j k : Nat} (h : k < w) : (1#w <<< j).getLsbD k = decide (k = j) := by
  rw [← BitVec.twoPow_eq, BitVec.getLsbD_twoPow]
  by_cases same : k = j
  · simp [← same, h]
  · simp [same, Ne.symm same]

theorem writtenBit (mask : BitVec w) (bit : Bool) (j : Nat) {k : Nat} (h : k < w) :
    (if bit then mask ||| (1#w <<< j) else mask &&& ~~~(1#w <<< j)).getLsbD k =
      if k = j then bit else mask.getLsbD k := by
  cases bit with
  | true =>
    simp only [if_true, BitVec.getLsbD_or, oneBit h]
    split
    · rename_i same; simp [same]
    · rename_i other; simp [other]
  | false =>
    simp only [Bool.false_eq_true, if_false, BitVec.getLsbD_and, BitVec.getLsbD_not, oneBit h]
    split
    · rename_i same; simp [same]
    · rename_i other; simp [other, h]

theorem setBit (mask : BitVec w) (j k : Fin w) :
    (mask ||| (1#w <<< j.val)).getLsbD k = if k = j then true else mask.getLsbD k := by
  have bit := writtenBit mask true j k.isLt
  simpa only [if_true, Fin.val_inj] using bit

theorem clearBit (mask : BitVec w) (j k : Fin w) :
    (mask &&& ~~~(1#w <<< j.val)).getLsbD k = if k = j then false else mask.getLsbD k := by
  have bit := writtenBit mask false j k.isLt
  simpa only [Bool.false_eq_true, if_false, Fin.val_inj] using bit

theorem orBitsBit (mask : BitVec w) (bits : List Nat) {k : Nat} (h : k < w) :
    (orBits mask bits).getLsbD k = (mask.getLsbD k || decide (k ∈ bits)) := by
  induction bits generalizing mask with
  | nil => simp [orBits]
  | cons j later ih =>
    have rest := ih (mask ||| 1#w <<< j)
    rw [BitVec.getLsbD_or, oneBit h] at rest
    rw [orBits, List.foldl_cons, ← orBits, rest, Bool.or_assoc]
    congr 1
    simp only [List.mem_cons, Bool.decide_or]

theorem orBitsFilter (mask : BitVec w) {n : Nat} (small : mask.toNat < 2^n) :
    orBits 0#w ((List.range n).filter fun j => mask.getLsbD j) = mask := by
  apply BitVec.eq_of_getLsbD_eq
  intro k h
  rw [orBitsBit _ _ h, BitVec.getLsbD_zero, Bool.false_or]
  simp only [List.mem_filter, List.mem_range]
  rcases Nat.lt_or_ge k n with inside | outside
  · simp [inside]
  · simp [highBit small outside]

theorem testedBit (mask : BitVec w) (j : Nat) :
    ((1#w <<< j) &&& mask != 0#w) = mask.getLsbD j := by
  rw [Bool.eq_iff_iff, bne_iff_ne, ne_eq]
  constructor
  · intro some
    by_contra none
    apply some
    apply BitVec.eq_of_getLsbD_eq
    intro k h
    rw [BitVec.getLsbD_and, oneBit h, BitVec.getLsbD_zero]
    by_cases same : k = j
    · simpa [same] using none
    · simp [same]
  · intro found zero
    have h := BitVec.lt_of_getLsbD found
    have bit := congrArg (fun m => m.getLsbD j) zero
    simp [oneBit h, found] at bit

end Lib.Mask
