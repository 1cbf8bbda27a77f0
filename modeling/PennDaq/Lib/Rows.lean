import PennDaq.Lib.Buffer
import Mathlib.Data.Fin.Basic

/-! Rows of strings that stand one behind the other in a block. Strings are appended to
them, and one that is too long runs into the next row. -/
namespace Lib.Rows
open Lib.Buffer

/- A string for one of the rows. -/
structure Write (n : Nat) where
  row : Fin n
  text : Bytes
  noZero : 0 ∉ text

variable {n : Nat} (size : Nat)

def lengthIn (memory : Bytes) (i : Fin n) : Nat := strlen (memory.drop (size*i))

def appended (memory : Bytes) (w : Write n) : Bytes :=
  overwrite memory (size*w.row + lengthIn size memory w.row) (w.text ++ [0])

def memoryOf : List (Write n) → Bytes
  | [] => zeros (size*n)
  | w::before => appended size (memoryOf before) w

def length (writes : List (Write n)) (i : Fin n) : Nat := lengthIn size (memoryOf size writes) i

def Fit : List (Write n) → Prop
  | [] => True
  | w::before => Fit before ∧ length size before w.row + w.text.length < size

/- At no time has a row more than its own place, and no string is written elsewhere. -/
structure Separate (writes : List (Write n)) : Prop where
  short : ∀ before, before <:+ writes → ∀ i, length size before i < size
  inside : ∀ w before, w::before <:+ writes → length size before w.row + (w.text ++ [0]).length ≤ size

def textOf (i : Fin n) : List (Write n) → Bytes
  | [] => []
  | w::before => if w.row = i then textOf i before ++ w.text else textOf i before

structure Holds (writes : List (Write n)) : Prop where
  block : (memoryOf size writes).length = size*n
  short : ∀ i, (textOf i writes).length < size
  bytes : ∀ (i : Fin n) p, p < size → byteAt (memoryOf size writes) (size*i + p) = byteAt (textOf i writes) p

theorem textNoZero (i : Fin n) (writes : List (Write n)) : 0 ∉ textOf i writes := by
  induction writes with
  | nil => exact List.not_mem_nil
  | cons w before ih =>
    rw [textOf]
    split
    · exact fun mem => (List.mem_append.mp mem).elim ih w.noZero
    · exact ih

variable {size}

theorem heldLength {writes : List (Write n)} (holds : Holds size writes) (i : Fin n) :
    length size writes i = (textOf i writes).length := by
  have short := holds.short i
  refine strlenExact ?_ fun p inside => ?_
  · rw [byteAtDrop, holds.bytes i _ short]
    exact byteAtOutside (Nat.le_refl _)
  · rw [byteAtDrop, holds.bytes i p (Nat.lt_trans inside short), byteAtInside inside]
    exact fun zero => textNoZero i writes (zero ▸ List.getElem_mem inside)

theorem placesDiffer {i j : Fin n} (different : i ≠ j) {p q : Nat} (hp : p < size) (hq : q < size) :
    size*i + p ≠ size*j + q := by
  intro same
  rcases Nat.lt_or_gt_of_ne (Fin.val_ne_of_ne different) with less | more
  · have step := Nat.mul_le_mul_left size (Nat.succ_le_of_lt less)
    rw [Nat.mul_succ] at step
    omega
  · have step := Nat.mul_le_mul_left size (Nat.succ_le_of_lt more)
    rw [Nat.mul_succ] at step
    omega

theorem rowInside (i : Fin n) {p : Nat} (inside : p ≤ size) : size*i + p ≤ size*n := by
  have step := Nat.mul_le_mul_left size (Nat.succ_le_of_lt i.isLt)
  rw [Nat.mul_succ] at step
  omega

theorem holdsNothing (some' : 0 < size) : Holds size ([] : List (Write n)) := by
  refine ⟨zerosLength _, fun _ => some', fun i p _ => ?_⟩
  rw [memoryOf, byteAtZeros]
  exact (byteAtOutside (Nat.zero_le p)).symm

section Appended
variable {w : Write n} {before : List (Write n)} (holds : Holds size before)
include holds

theorem placeInside : size*w.row + length size before w.row ≤ (memoryOf size before).length := by
  have short := holds.short w.row
  rw [holds.block, heldLength holds]
  exact rowInside w.row (by omega)

theorem ownBytes (p : Nat) : byteAt (memoryOf size (w::before)) (size*w.row + p) =
    if length size before w.row ≤ p ∧ p < length size before w.row + (w.text.length+1) then
      byteAt w.text (p - length size before w.row)
    else byteAt (memoryOf size before) (size*w.row + p) := by
  have size' : (w.text ++ [0]).length = w.text.length+1 := by rw [List.length_append]; rfl
  change byteAt (overwrite _ (size*w.row + length size before w.row) _) _ = _
  rw [overwriteAt _ (placeInside holds), size']
  by_cases new : length size before w.row ≤ p ∧ p < length size before w.row + (w.text.length+1)
  · rw [if_pos new, if_pos (by omega), show size*w.row + p - (size*w.row + length size before w.row) =
      p - length size before w.row by omega]
    exact byteAtPadded w.text 1 _
  · rw [if_neg new, if_neg (by omega)]

theorem otherBytes (room : length size before w.row + w.text.length < size) {i : Fin n} (other : w.row ≠ i) {p : Nat}
    (inside : p < size) : byteAt (memoryOf size (w::before)) (size*i + p) =
      byteAt (memoryOf size before) (size*i + p) := by
  have size' : (w.text ++ [0]).length = w.text.length+1 := by rw [List.length_append]; rfl
  change byteAt (overwrite _ (size*w.row + length size before w.row) _) _ = _
  rw [overwriteAt _ (placeInside holds), size', if_neg]
  rintro ⟨low, high⟩
  obtain ⟨q, at'⟩ := Nat.exists_eq_add_of_le low
  have within : length size before w.row + q < size := by omega
  exact placesDiffer other within inside (by omega)

theorem appendedHolds (room : length size before w.row + w.text.length < size) : Holds size (w::before) := by
  have start := heldLength holds w.row
  refine ⟨?_, fun i => ?_, fun i p inside => ?_⟩
  · have stop := @rowInside n size w.row (length size before w.row + (w.text.length+1)) room
    have size' : (w.text ++ [0]).length = w.text.length+1 := by rw [List.length_append]; rfl
    rw [memoryOf, appended, ← holds.block]
    refine overwriteInside ?_
    rw [size', holds.block]
    change size*w.row + length size before w.row + _ ≤ _
    omega
  · rw [textOf]
    split
    · rename_i own
      rw [List.length_append, ← own, ← start]
      exact room
    · exact holds.short i
  · by_cases own : w.row = i
    · subst own
      rw [ownBytes holds, textOf, if_pos rfl, byteAtAppend, ← start, holds.bytes w.row p inside]
      by_cases old : p < length size before w.row
      · rw [if_neg (by omega), if_pos old]
      · rw [if_neg old]
        split
        · rfl
        · rw [byteAtOutside (by omega), byteAtOutside (by omega)]
    · rw [otherBytes holds room own inside, holds.bytes i p inside, textOf, if_neg own]

theorem overrun (long : size ≤ length size before w.row + w.text.length) : size ≤ length size (w::before) w.row := by
  have start := heldLength holds w.row
  refine Nat.le_of_not_lt fun less => ?_
  have zero := strlenZero ((memoryOf size (w::before)).drop (size*w.row))
  change byteAt _ (length size (w::before) w.row) = 0 at zero
  generalize length size (w::before) w.row = p at zero less
  rw [byteAtDrop, ownBytes holds, holds.bytes w.row p less] at zero
  by_cases old : p < length size before w.row
  · rw [if_neg (by omega), byteAtInside (start ▸ old)] at zero
    exact textNoZero w.row before (zero ▸ List.getElem_mem (start ▸ old))
  · have new : p - length size before w.row < w.text.length := by omega
    rw [if_pos (by omega), byteAtInside new] at zero
    exact w.noZero (zero ▸ List.getElem_mem new)

end Appended

theorem fitHolds (some' : 0 < size) {writes : List (Write n)} (fit : Fit size writes) : Holds size writes := by
  induction writes with
  | nil => exact holdsNothing some'
  | cons w before ih => exact appendedHolds (ih fit.1) fit.2

theorem separateFit (some' : 0 < size) (writes : List (Write n)) : Separate size writes ↔ Fit size writes := by
  induction writes with
  | nil =>
    refine iff_of_true ⟨fun before suffix i => ?_, fun w before suffix => ?_⟩ trivial
    · rw [List.suffix_nil.mp suffix, heldLength (holdsNothing some')]
      exact some'
    · cases List.suffix_nil.mp suffix
  | cons w before ih =>
    constructor
    · intro separate
      have fit := ih.mp ⟨fun b suffix => separate.short b (suffix.trans (List.suffix_cons w before)),
        fun v b suffix => separate.inside v b (suffix.trans (List.suffix_cons w before))⟩
      refine ⟨fit, Nat.lt_of_not_le fun long => ?_⟩
      have short := separate.short (w::before) (List.suffix_refl _) w.row
      exact absurd (overrun (fitHolds some' fit) long) (Nat.not_le.mpr short)
    · intro fit
      have earlier := ih.mpr fit.1
      constructor
      · intro b suffix i
        rcases List.suffix_cons_iff.mp suffix with rfl | suffix
        · have holds := fitHolds some' fit
          rw [heldLength holds]
          exact holds.short i
        · exact earlier.short b suffix i
      · intro v b suffix
        rcases List.suffix_cons_iff.mp suffix with same | suffix
        · obtain ⟨rfl, rfl⟩ := List.cons.inj same
          rw [List.length_append, ← Nat.add_assoc]
          exact fit.2
        · exact earlier.inside v b suffix

theorem lengthAppended (some' : 0 < size) {w : Write n} {before : List (Write n)} (fit : Fit size (w::before))
    (i : Fin n) : length size (w::before) i =
      if w.row = i then length size before i + w.text.length else length size before i := by
  rw [heldLength (fitHolds some' fit), heldLength (fitHolds some' fit.1), textOf]
  split
  · rw [List.length_append]
  · rfl

def alike (rows : List (Fin n)) (text : Bytes) (noZero : 0 ∉ text) (before : List (Write n)) : List (Write n) :=
  rows.foldl (fun before i => ⟨i,text,noZero⟩::before) before

section Alike
variable {text : Bytes} {noZero : 0 ∉ text} {rows : List (Fin n)} (distinct : rows.Nodup)
include distinct

theorem alikeFit (some' : 0 < size) (before : List (Write n)) : Fit size (alike rows text noZero before) ↔
    Fit size before ∧ ∀ i ∈ rows, length size before i + text.length < size := by
  induction rows generalizing before with
  | nil => simp [alike]
  | cons i later ih =>
    obtain ⟨fresh, distinct⟩ := List.nodup_cons.mp distinct
    have others (fit : Fit size (⟨i,text,noZero⟩::before)) (k : Fin n) (mem : k ∈ later) :
        length size (⟨i,text,noZero⟩::before) k = length size before k :=
      (lengthAppended some' fit k).trans (if_neg fun (same : i = k) => fresh (same ▸ mem))
    have own : Fit size (⟨i,text,noZero⟩::before) ↔ Fit size before ∧ length size before i + text.length < size :=
      Iff.rfl
    rw [alike, List.foldl_cons, ← alike, ih distinct, List.forall_mem_cons]
    constructor
    · intro ⟨fit, rest⟩
      obtain ⟨earlier, room⟩ := own.mp fit
      exact ⟨earlier, room, fun k mem => others fit k mem ▸ rest k mem⟩
    · intro ⟨earlier, room, rest⟩
      have fit := own.mpr ⟨earlier, room⟩
      refine ⟨fit, fun k mem => ?_⟩
      rw [others fit k mem]
      exact rest k mem

theorem alikeOther (some' : 0 < size) (before : List (Write n)) (fit : Fit size (alike rows text noZero before)) {k : Fin n}
    (out : k ∉ rows) : length size (alike rows text noZero before) k = length size before k := by
  induction rows generalizing before with
  | nil => rfl
  | cons i later ih =>
    obtain ⟨other, out⟩ := not_or.mp (mt List.mem_cons.mpr out)
    rw [alike, List.foldl_cons, ← alike] at fit ⊢
    have distinct := (List.nodup_cons.mp distinct).2
    rw [ih distinct _ fit out, lengthAppended some' ((alikeFit distinct some' _).mp fit).1, if_neg (Ne.symm other)]

theorem alikeLength (some' : 0 < size) (before : List (Write n)) (fit : Fit size (alike rows text noZero before)) {k : Fin n}
    (mem : k ∈ rows) : length size (alike rows text noZero before) k = length size before k + text.length := by
  induction rows generalizing before with
  | nil => cases mem
  | cons i later ih =>
    obtain ⟨fresh, others⟩ := List.nodup_cons.mp distinct
    rw [alike, List.foldl_cons, ← alike] at fit ⊢
    have first := ((alikeFit others some' _).mp fit).1
    rcases List.mem_cons.mp mem with rfl | mem
    · rw [alikeOther others some' _ fit fresh, lengthAppended some' first, if_pos rfl]
    · have other : i ≠ k := fun same => fresh (same ▸ mem)
      rw [ih others _ fit mem, lengthAppended some' first, if_neg other]

end Alike

section Grown
variable {memory : Bytes} {w : Write n} (start : size*w.row ≤ memory.length)
include start

theorem endInside : size*w.row + lengthIn size memory w.row ≤ memory.length := by
  have short := strlenBound (memory.drop (size*w.row))
  rw [List.length_drop] at short
  have same : lengthIn size memory w.row = strlen (memory.drop (size*w.row)) := rfl
  omega

theorem lengthGrown : lengthIn size (appended size memory w) w.row = lengthIn size memory w.row + w.text.length := by
  have written (p : Nat) := overwriteAt (w.text ++ [0]) (endInside start) (size*w.row + p)
  refine strlenExact ?_ fun p inside => ?_
  · rw [byteAtDrop, appended, written, if_pos (by rw [List.length_append, List.length_singleton]; omega),
      byteAtAppend, if_neg (by omega)]
    rw [show size*w.row + (lengthIn size memory w.row + w.text.length) -
      (size*w.row + lengthIn size memory w.row) - w.text.length = 0 by omega]
    rfl
  · rw [byteAtDrop, appended, written]
    by_cases old : p < lengthIn size memory w.row
    · rw [if_neg (by omega), ← byteAtDrop]
      exact strlenNonzero old
    · have new : size*w.row + p - (size*w.row + lengthIn size memory w.row) < w.text.length := by omega
      rw [if_pos (by rw [List.length_append]; omega), byteAtAppend, if_pos new, byteAtInside new]
      exact fun zero => w.noZero (zero ▸ List.getElem_mem new)

theorem blockGrown : (appended size memory w).length =
    max memory.length (size*w.row + (lengthIn size memory w.row + w.text.length) + 1) := by
  rw [appended, overwriteLength _ (endInside start), List.length_append, List.length_singleton]
  congr 1
  omega

end Grown

end Lib.Rows
