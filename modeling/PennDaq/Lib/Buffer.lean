import Mathlib.Algebra.Group.Nat.Defs
import Mathlib.Data.List.Basic

/-! Byte buffers as lists. A buffer that is read past its end gives zeros; a
write that runs past the end makes the list longer, so an overrun is visible in
the length and never silently dropped. -/
namespace Lib.Buffer

abbrev Bytes := List UInt8

def zeros (n : Nat) : Bytes := List.replicate n 0

def byteAt (b : Bytes) (i : Nat) : UInt8 := b.getD i 0

def overwrite (dst : Bytes) (pos : Nat) (src : Bytes) : Bytes :=
  dst.take pos ++ src ++ dst.drop (pos + src.length)

/- The index of the first zero byte, or the length where there is none. -/
def strlen (b : Bytes) : Nat := b.findIdx (· == 0)

def le32 (b : Bytes) : Nat :=
  (byteAt b 0).toNat + 256 * (byteAt b 1).toNat + 65536 * (byteAt b 2).toNat +
    16777216 * (byteAt b 3).toNat

@[simp] theorem zerosLength (n : Nat) : (zeros n).length = n := by simp [zeros]

theorem zerosDrop (m n : Nat) : (zeros n).drop m = zeros (n-m) := by simp [zeros]

@[simp] theorem byteAtZeros (n i : Nat) : byteAt (zeros n) i = 0 := by
  unfold byteAt zeros
  by_cases h : i < n
  · simp [h]
  · simp [List.getD_eq_getElem?_getD, h]

theorem byteAtOutside {b : Bytes} {i : Nat} (h : b.length ≤ i) : byteAt b i = 0 := by
  simp [byteAt, List.getD_eq_getElem?_getD, List.getElem?_eq_none h]

theorem byteAtInside {b : Bytes} {i : Nat} (h : i < b.length) : byteAt b i = b[i] := by
  simp [byteAt, List.getD_eq_getElem?_getD, h]

theorem byteAtAppend (a b : Bytes) (i : Nat) :
    byteAt (a ++ b) i = if i < a.length then byteAt a i else byteAt b (i - a.length) := by
  unfold byteAt
  split
  · rename_i h; simp [List.getD_eq_getElem?_getD, List.getElem?_append_left h]
  · rename_i h
    simp [List.getD_eq_getElem?_getD, List.getElem?_append_right (Nat.le_of_not_lt h)]

@[simp] theorem byteAtPadded (b : Bytes) (n i : Nat) : byteAt (b ++ zeros n) i = byteAt b i := by
  rw [byteAtAppend]
  split
  · rfl
  · rename_i h; rw [byteAtZeros, byteAtOutside (Nat.le_of_not_lt h)]

theorem byteAtTake (b : Bytes) (n i : Nat) :
    byteAt (b.take n) i = if i < n then byteAt b i else 0 := by
  unfold byteAt
  split
  · rename_i h; simp [List.getD_eq_getElem?_getD, h]
  · rename_i h
    have outside : (b.take n).length ≤ i := Nat.le_trans (List.length_take_le n b) (Nat.le_of_not_lt h)
    rw [List.getD_eq_getElem?_getD, List.getElem?_eq_none outside, Option.getD_none]

theorem byteAtDrop (b : Bytes) (n i : Nat) : byteAt (b.drop n) i = byteAt b (n+i) := by
  simp [byteAt, List.getD_eq_getElem?_getD]

theorem sameBytes {a b : Bytes} (len : a.length = b.length)
    (same : ∀ i, byteAt a i = byteAt b i) : a = b := by
  apply List.ext_getElem len
  intro i ha hb
  have h := same i
  rwa [byteAtInside ha, byteAtInside hb] at h

theorem byteAtMem {b : Bytes} {i : Nat} (h : byteAt b i ≠ 0) : byteAt b i ∈ b := by
  by_cases hi : i < b.length
  · rw [byteAtInside hi]; exact List.getElem_mem hi
  · exact absurd (byteAtOutside (Nat.le_of_not_lt hi)) h

theorem memByteAt {b : Bytes} {x : UInt8} (h : x ∈ b) : ∃ i < b.length, byteAt b i = x := by
  obtain ⟨i, hi, same⟩ := List.mem_iff_getElem.mp h
  exact ⟨i, hi, by rw [byteAtInside hi, same]⟩

theorem allZero {b : Bytes} : (∀ x ∈ b, x = 0) ↔ b = zeros b.length :=
  List.eq_replicate_length.symm

theorem windowZero {b : Bytes} {pos n : Nat} :
    (∀ x ∈ (b.drop pos).take n, x = 0) ↔ ∀ i, pos ≤ i → i < pos + n → byteAt b i = 0 := by
  constructor
  · intro all i low high
    by_contra nonzero
    have same : byteAt ((b.drop pos).take n) (i - pos) = byteAt b i := by
      rw [byteAtTake, if_pos (by omega), byteAtDrop, Nat.add_sub_cancel' low]
    exact nonzero (all _ (same ▸ byteAtMem (same ▸ nonzero)))
  · intro all x mem
    obtain ⟨i, inside, rfl⟩ := memByteAt mem
    have short : i < n := Nat.lt_of_lt_of_le inside (List.length_take_le n _)
    rw [byteAtTake, if_pos short, byteAtDrop]
    exact all _ (by omega) (by omega)

theorem overwriteLength {dst : Bytes} {pos : Nat} (src : Bytes) (h : pos ≤ dst.length) :
    (overwrite dst pos src).length = max dst.length (pos + src.length) := by
  simp only [overwrite, List.length_append, List.length_take, List.length_drop]
  omega

theorem overwriteInside {dst src : Bytes} {pos : Nat} (h : pos + src.length ≤ dst.length) :
    (overwrite dst pos src).length = dst.length := by
  rw [overwriteLength src (by omega)]; omega

theorem overwriteAt {dst : Bytes} {pos : Nat} (src : Bytes) (h : pos ≤ dst.length) (i : Nat) :
    byteAt (overwrite dst pos src) i =
      if pos ≤ i ∧ i < pos + src.length then byteAt src (i-pos) else byteAt dst i := by
  have front : (dst.take pos).length = pos := by simp [h]
  unfold overwrite
  rw [List.append_assoc, byteAtAppend, front]
  by_cases before : i < pos
  · rw [if_pos before, if_neg (by omega), byteAtTake, if_pos before]
  · rw [if_neg before, byteAtAppend]
    by_cases within : i - pos < src.length
    · rw [if_pos within, if_pos (by omega)]
    · rw [if_neg within, if_neg (by omega), byteAtDrop]
      congr 1; omega

theorem overwriteTake (dst : Bytes) {pos : Nat} (src : Bytes) (h : pos ≤ dst.length) :
    (overwrite dst pos src).take (pos + src.length) = dst.take pos ++ src := by
  have front : (dst.take pos ++ src).length = pos + src.length := by simp [h]
  rw [overwrite, ← front, List.take_left]

theorem overwritePadded (a b : Bytes) (n : Nat) :
    overwrite (a ++ zeros n) a.length b = a ++ b ++ zeros (n - b.length) := by
  have rest : (a ++ zeros n).drop (a.length + b.length) = zeros (n - b.length) := by
    rw [List.drop_append, List.drop_eq_nil_of_le (by omega), List.nil_append, zerosDrop]
    congr 1; omega
  simp only [overwrite, List.take_left, rest]

theorem overwriteZeros (b : Bytes) (n : Nat) :
    overwrite (zeros n) 0 b = b ++ zeros (n - b.length) := by
  simpa using overwritePadded [] b n

theorem strlenBound (b : Bytes) : strlen b ≤ b.length := List.findIdx_le_length

theorem strlenZero (b : Bytes) : byteAt b (strlen b) = 0 := by
  by_cases h : strlen b < b.length
  · rw [byteAtInside h]
    have found := List.findIdx_getElem (p := (· == 0)) (w := h)
    exact beq_iff_eq.mp found
  · exact byteAtOutside (Nat.le_of_not_lt h)

theorem strlenNonzero {b : Bytes} {i : Nat} (h : i < strlen b) : byteAt b i ≠ 0 := by
  rw [byteAtInside (Nat.lt_of_lt_of_le h (strlenBound b))]
  simpa using List.not_of_lt_findIdx h

theorem strlenLe {b : Bytes} {i : Nat} (h : byteAt b i = 0) : strlen b ≤ i := by
  by_contra less
  exact strlenNonzero (Nat.lt_of_not_le less) h

theorem strlenSame {a b : Bytes} (same : ∀ i, byteAt a i = byteAt b i) : strlen a = strlen b := by
  have left : strlen a ≤ strlen b := strlenLe (by rw [same, strlenZero])
  have right : strlen b ≤ strlen a := strlenLe (by rw [← same, strlenZero])
  omega

theorem strlenExact {b : Bytes} {n : Nat} (zero : byteAt b n = 0) (before : ∀ i < n, byteAt b i ≠ 0) :
    strlen b = n := by
  refine Nat.le_antisymm (strlenLe zero) (Nat.le_of_not_lt fun less => ?_)
  exact before _ less (strlenZero b)

theorem strlenFull {b : Bytes} (h : 0 ∉ b) : strlen b = b.length := by
  have bound := strlenBound b
  by_contra other
  have inside : strlen b < b.length := by omega
  have zero := strlenZero b
  rw [byteAtInside inside] at zero
  exact h (zero ▸ List.getElem_mem inside)

theorem strlenPadded {b : Bytes} (h : 0 ∉ b) (n : Nat) : strlen (b ++ zeros n) = b.length := by
  rw [strlenSame (byteAtPadded b n), strlenFull h]

theorem strlenCount (b : Bytes) : strlen b ≤ b.countP (· != 0) := by
  have front : (b.take (strlen b)).countP (· != 0) = strlen b := by
    have all : (b.take (strlen b)).countP (· != 0) = (b.take (strlen b)).length := by
      rw [List.countP_eq_length]
      intro x mem
      obtain ⟨i, inside, same⟩ := memByteAt mem
      have short : i < strlen b := by simp at inside; omega
      rw [byteAtTake, if_pos short] at same
      simpa [← same] using strlenNonzero short
    rw [all, List.length_take, Nat.min_eq_left (strlenBound b)]
  calc strlen b = (b.take (strlen b)).countP (· != 0) := front.symm
    _ ≤ b.countP (· != 0) := (List.take_sublist _ _).countP_le

theorem overwriteCount (dst : Bytes) (pos : Nat) (src : Bytes) :
    (overwrite dst pos src).countP (· != 0) ≤ dst.countP (· != 0) + src.countP (· != 0) := by
  have pieces : (dst.take pos).countP (· != 0) + (dst.drop (pos + src.length)).countP (· != 0) ≤
      dst.countP (· != 0) := by
    have rejoin := congrArg (List.countP (· != 0)) (List.take_append_drop pos dst)
    rw [List.countP_append] at rejoin
    have fewer : (dst.drop (pos + src.length)).countP (· != 0) ≤ (dst.drop pos).countP (· != 0) := by
      rw [← List.drop_drop]
      exact (List.drop_sublist _ _).countP_le
    omega
  simp only [overwrite, List.countP_append]
  omega

theorem overwriteCountLess {dst : Bytes} (src : Bytes) {pos i : Nat} (after : pos ≤ i)
    (before : i < pos + src.length) (nonzero : byteAt dst i ≠ 0) :
    (overwrite dst pos src).countP (· != 0) < dst.countP (· != 0) + src.countP (· != 0) := by
  have three : dst = dst.take pos ++ ((dst.drop pos).take src.length ++ dst.drop (pos + src.length)) := by
    rw [← List.drop_drop, List.take_append_drop, List.take_append_drop]
  have counts := congrArg (List.countP (· != 0)) three
  rw [List.countP_append, List.countP_append] at counts
  have within : byteAt ((dst.drop pos).take src.length) (i-pos) = byteAt dst i := by
    rw [byteAtTake, if_pos (by omega), byteAtDrop, Nat.add_sub_cancel' after]
  have lost : 0 < ((dst.drop pos).take src.length).countP (· != 0) := by
    rw [List.countP_pos_iff]
    exact ⟨_, byteAtMem (by rw [within]; exact nonzero), by simpa [within] using nonzero⟩
  simp only [overwrite, List.countP_append]
  omega

theorem zeroCount {b : Bytes} (h : 0 ∈ b) : b.countP (· != 0) < b.length := by
  have bound := List.countP_le_length (l := b) (p := (· != 0))
  by_contra other
  have full : b.countP (· != 0) = b.length := by omega
  have := List.countP_eq_length.mp full 0 h
  simp at this

theorem le32Same {a b : Bytes} (same : ∀ i < 4, byteAt a i = byteAt b i) : le32 a = le32 b := by
  simp only [le32, same 0 (by decide), same 1 (by decide), same 2 (by decide), same 3 (by decide)]

theorem le32Bound (b : Bytes) : le32 b < 4294967296 := by
  have b0 := (byteAt b 0).toNat_lt
  have b1 := (byteAt b 1).toNat_lt
  have b2 := (byteAt b 2).toNat_lt
  have b3 := (byteAt b 3).toNat_lt
  simp only [le32]
  omega

theorem le32Append {a : Bytes} (b : Bytes) (h : 4 ≤ a.length) : le32 (a ++ b) = le32 a :=
  le32Same fun i hi => by rw [byteAtAppend, if_pos (by omega)]

theorem le32Take (b : Bytes) {k : Nat} (h : k < 4) : le32 (b.take k) = le32 b % 256^k := by
  have b0 := (byteAt b 0).toNat_lt
  have b1 := (byteAt b 1).toNat_lt
  have b2 := (byteAt b 2).toNat_lt
  simp only [le32, byteAtTake]
  obtain rfl | rfl | rfl | rfl : k = 0 ∨ k = 1 ∨ k = 2 ∨ k = 3 := by omega
  all_goals simp
  all_goals omega

end Lib.Buffer
