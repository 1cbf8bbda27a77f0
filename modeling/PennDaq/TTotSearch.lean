import PennDaq.Lib.Loop
import PennDaq.Lib.CNumber
import PennDaq.Lib.Mask
import Mathlib.Algebra.Order.BigOperators.Group.Finset
import Mathlib.Algebra.BigOperators.Fin

/-! The search of `SetTTot` over the discriminator chips of one slot. Each `CheckTTot`
gives any values for the channels. -/
namespace PennDaq.TTotSearch
open Lib.CNumber
open Lib.Loop
open Lib.Mask

def rmpDefault : ℕ := 120
def vsiDefault : ℕ := 120
def maxRmpValue : ℕ := 180
def minVsiValue : ℕ := 50

structure Chip where
  rmp : BitVec 16
  vsi : BitVec 16
  rmpHigh : BitVec 16
  rmpLow : BitVec 16
  deriving DecidableEq, Repr

def startChip : Chip :=
  let rmpHigh := BitVec.ofNat 16 maxRmpValue
  let rmpLow := BitVec.ofNat 16 (rmpDefault-10)
  ⟨BitVec.ofNat 16 ((rmpHigh.toNat + rmpLow.toNat)/2),BitVec.ofNat 16 vsiDefault,rmpHigh,rmpLow⟩

/- `(int) ((float) (rmp_high + rmp_low)/2.0 + 0.5)` -/
def middle (rmpHigh rmpLow : BitVec 16) : BitVec 16 := toUInt 16 ((rmpHigh.toNat + rmpLow.toNat : ℚ)/2 + 1/2)

def Chip.next (c : Chip) : Chip := { c with rmp := middle c.rmpHigh c.rmpLow }

def Chip.above (c : Chip) : Chip := { c with rmpHigh := c.rmp }

def Chip.Narrowed (c : Chip) : Prop := (c.rmp.toNat : ℤ) - c.rmpLow.toNat = 1

instance (c : Chip) : Decidable c.Narrowed := inferInstanceAs (Decidable (_ = _))

def Chip.below (c : Chip) : Option Chip :=
  if c.rmp.toNat = maxRmpValue then
    if c.vsi.toNat > minVsiValue then
      some { c with
        rmpHigh := BitVec.ofNat 16 maxRmpValue
        rmpLow := BitVec.ofNat 16 (rmpDefault-10)
        vsi := c.vsi-2 }
    else none
  else if c.rmp = c.rmpHigh then some { c with rmpLow := c.rmp, rmpHigh := c.rmpHigh+1 }
  else some { c with rmpLow := c.rmp }

def channel (j : Fin 8) (c : Fin 4) : Fin 32 := ⟨4*j+c,by omega⟩

def Above (diff : Fin 32 → ℤ) (j : Fin 8) : Prop := ∀ c, diff (channel j c) > 0

instance (diff : Fin 32 → ℤ) (j : Fin 8) : Decidable (Above diff j) := inferInstanceAs (Decidable (∀ _, _))

structure Reading where
  chips : Fin 8 → Chip
  chipsNotFinished : BitVec 16
  diff : Fin 32 → ℤ

/- `allrmps` and `allvsis` of the slot are `none` as long as nothing has been recorded;
`aborted` is what an abort prints: its chip and the chips that are unfinished. -/
structure Search where
  chips : Fin 8 → Chip
  chipsNotFinished : BitVec 16
  allrmps : Fin 8 → Option (BitVec 16)
  allvsis : Fin 8 → Option (BitVec 16)
  totErrors : Fin 32 → ℤ
  calls : ℕ
  readings : List Reading
  aborted : Option (Fin 8 × BitVec 16)

def Search.Unfinished (s : Search) (j : Fin 8) : Prop := s.chipsNotFinished.getLsbD j = true

instance (s : Search) (j : Fin 8) : Decidable (s.Unfinished j) := inferInstanceAs (Decidable (_ = _))

def Search.setChip (s : Search) (j : Fin 8) (c : Chip) : Search := { s with chips := Function.update s.chips j c }

def Search.finish (s : Search) (j : Fin 8) : Search := { s with
  chipsNotFinished := s.chipsNotFinished &&& ~~~(1#16 <<< j.val)
  allrmps := Function.update s.allrmps j (some (s.chips j).rmp)
  allvsis := Function.update s.allvsis j (some (s.chips j).vsi) }

def Search.abort (s : Search) (j : Fin 8) : Search := { s with
  totErrors := fun k => if k.val/4 = j then 1 else s.totErrors k
  allrmps := fun l => if s.Unfinished l then some (s.chips l).rmp else s.allrmps l
  allvsis := fun l => if s.Unfinished l then some (s.chips l).vsi else s.allvsis l
  chipsNotFinished := 0
  aborted := some (j,s.chipsNotFinished) }

def chipTurn (diff : Fin 32 → ℤ) (s : Search) (j : Fin 8) : Search :=
  if s.Unfinished j then
    let c := s.chips j
    if Above diff j then
      let s := if c.Narrowed then s.finish j else s
      s.setChip j c.above.next
    else match c.below with
      | some c => s.setChip j c.next
      | none => (s.abort j).setChip j { c with rmpLow := c.rmp }.next
  else s

def Search.check (s : Search) (diff : Fin 32 → ℤ) : Search := { s with
  calls := s.calls+1
  readings := s.readings ++ [⟨s.chips,s.chipsNotFinished,diff⟩] }

def searchPass (diffs : ℕ → Fin 32 → ℤ) (s : Search) : Search :=
  let diff := diffs s.calls
  (List.finRange 8).foldl (chipTurn diff) (s.check diff)

def searchTurn (diffs : ℕ → Fin 32 → ℤ) (s : Search) : Turn Search Search :=
  if s.chipsNotFinished = 0 then .stop s else .again (searchPass diffs s)

def searchStart (totErrors : Fin 32 → ℤ) (calls : ℕ) : Search :=
  ⟨fun _ => startChip,0xFF,fun _ => none,fun _ => none,totErrors,calls,[],none⟩

theorem middleValue (rmpHigh rmpLow : BitVec 16) :
    (middle rmpHigh rmpLow).toNat = (rmpHigh.toNat + rmpLow.toNat + 1)/2 := by
  have high := rmpHigh.isLt
  have low := rmpLow.isLt
  have half : ((rmpHigh.toNat + rmpLow.toNat : ℚ)/2 + 1/2) = ((rmpHigh.toNat + rmpLow.toNat + 1 : ℕ) : ℚ)/(2 : ℕ) := by
    push_cast
    ring
  have value : ((middle rmpHigh rmpLow).toNat : ℤ) = ((rmpHigh.toNat + rmpLow.toNat + 1)/2 : ℕ) := by
    rw [middle, toUIntValue, half, truncateUp (by positivity), Rat.floor_natCast_div_natCast]
    omega
  exact_mod_cast value

structure Chip.Bounded (c : Chip) : Prop where
  lowest : 110 ≤ c.rmpLow.toNat
  low : c.rmpLow.toNat < c.rmp.toNat
  high : c.rmp.toNat ≤ c.rmpHigh.toNat
  highest : c.rmpHigh.toNat ≤ 180
  least : 50 ≤ c.vsi.toNat
  most : c.vsi.toNat ≤ 120
  even : c.vsi.toNat % 2 = 0
  centred : c.rmp.toNat = (c.rmpHigh.toNat + c.rmpLow.toNat + 1)/2

theorem startBounded : startChip.Bounded := by
  constructor <;> decide

/- What is left of the search: first the steps of `vsi`, then those of the lower and of
the upper bound. -/
def Chip.left (c : Chip) : ℕ :=
  (c.vsi.toNat-50)/2*5041 + (180-c.rmpLow.toNat)*71 + (c.rmpHigh.toNat-110)

theorem nextBounded {c : Chip} (lowest : 110 ≤ c.rmpLow.toNat) (apart : c.rmpLow.toNat < c.rmpHigh.toNat)
    (highest : c.rmpHigh.toNat ≤ 180) (least : 50 ≤ c.vsi.toNat) (most : c.vsi.toNat ≤ 120)
    (even : c.vsi.toNat % 2 = 0) : c.next.Bounded := by
  have value := middleValue c.rmpHigh c.rmpLow
  refine ⟨lowest, ?_, ?_, highest, least, most, even, value⟩
  · change c.rmpLow.toNat < (middle c.rmpHigh c.rmpLow).toNat
    omega
  · change (middle c.rmpHigh c.rmpLow).toNat ≤ c.rmpHigh.toNat
    omega

theorem aboveBounded {c : Chip} (bounded : c.Bounded) (wide : ¬ c.Narrowed) :
    c.above.next.Bounded ∧ c.above.next.left < c.left := by
  obtain ⟨lowest, low, high, highest, least, most, even, centred⟩ := bounded
  unfold Chip.Narrowed at wide
  have smaller : c.rmp.toNat < c.rmpHigh.toNat := by omega
  refine ⟨nextBounded lowest low (high.trans highest) least most even, ?_⟩
  change (c.vsi.toNat-50)/2*5041 + (180-c.rmpLow.toNat)*71 + (c.rmp.toNat-110) < c.left
  rw [Chip.left]
  omega

theorem lowered {vsi : BitVec 16} (more : 2 ≤ vsi.toNat) : (vsi-2).toNat + 2 = vsi.toNat := by
  rw [BitVec.toNat_sub_of_le (by rw [BitVec.le_def]; exact more)]
  exact Nat.sub_add_cancel more

theorem raised {rmpHigh : BitVec 16} (room : rmpHigh.toNat ≤ 180) : (rmpHigh+1).toNat = rmpHigh.toNat + 1 := by
  rw [BitVec.toNat_add]
  change (rmpHigh.toNat + 1) % 65536 = _
  omega

theorem belowCases {c after : Chip} (bounded : c.Bounded) (below : c.below = some after) :
    (50 < c.vsi.toNat ∧ after.vsi.toNat + 2 = c.vsi.toNat ∧ c.rmp.toNat = 180 ∧ after.rmpHigh.toNat = 180 ∧ after.rmpLow.toNat = 110) ∨
    (after.vsi = c.vsi ∧ after.rmpLow = c.rmp ∧ c.rmp = c.rmpHigh ∧ c.rmp.toNat < 180 ∧
      after.rmpHigh.toNat = c.rmpHigh.toNat + 1) ∨
    (after.vsi = c.vsi ∧ after.rmpLow = c.rmp ∧ c.rmp ≠ c.rmpHigh ∧ after.rmpHigh = c.rmpHigh) := by
  obtain ⟨lowest, low, high, highest, least, most, even, centred⟩ := bounded
  unfold Chip.below maxRmpValue minVsiValue at below
  split at below
  · rename_i full
    split at below
    · rename_i more
      cases below
      refine .inl ⟨more, ?_, full, rfl, rfl⟩
      exact lowered (Nat.le_trans (by decide) least)
    · contradiction
  · rename_i more
    split at below
    · rename_i same
      cases below
      refine .inr (.inl ⟨rfl, rfl, same, by omega, ?_⟩)
      exact raised highest
    · rename_i other
      cases below
      exact .inr (.inr ⟨rfl, rfl, other, rfl⟩)

theorem belowBounded {c after : Chip} (bounded : c.Bounded) (below : c.below = some after) :
    after.next.Bounded ∧ after.next.left < c.left := by
  have cases' := belowCases bounded below
  obtain ⟨lowest, low, high, highest, least, most, even, centred⟩ := bounded
  change after.next.Bounded ∧ after.left < c.left
  unfold Chip.left
  rcases cases' with ⟨more, vsi, full, high', low'⟩ | ⟨vsi, low', same, more, high'⟩ | ⟨vsi, low', other, high'⟩
  · exact ⟨nextBounded (by omega) (by omega) (by omega) (by omega) (by omega) (by omega), by omega⟩
  · have equal : c.rmp.toNat = c.rmpHigh.toNat := congrArg BitVec.toNat same
    rw [vsi, low']
    refine ⟨nextBounded ?_ ?_ ?_ ?_ ?_ ?_, ?_⟩
    · rw [low']; omega
    · rw [low']; omega
    · omega
    · rw [vsi]; exact least
    · rw [vsi]; exact most
    · rw [vsi]; exact even
    · omega
  · have smaller : c.rmp.toNat ≠ c.rmpHigh.toNat := fun equal => other (BitVec.eq_of_toNat_eq equal)
    rw [vsi, low', high']
    refine ⟨nextBounded ?_ ?_ ?_ ?_ ?_ ?_, ?_⟩
    · rw [low']; omega
    · rw [low', high']; omega
    · rw [high']; exact highest
    · rw [vsi]; exact least
    · rw [vsi]; exact most
    · rw [vsi]; exact even
    · omega

section Fields
variable (s : Search) (i j : Fin 8) (c : Chip)

@[simp] theorem setChipChips : (s.setChip j c).chips i = if i = j then c else s.chips i := Function.update_apply ..

@[simp] theorem finishChips : (s.finish j).chips = s.chips := rfl

@[simp] theorem finishUnfinished : (s.finish j).Unfinished i ↔ i ≠ j ∧ s.Unfinished i := by
  have bit := writtenBit s.chipsNotFinished false j (show i.val < 16 by omega)
  unfold Search.Unfinished Search.finish
  simp only [Bool.false_eq_true, if_false] at bit
  rw [bit]
  by_cases same : i = j
  · simp [same]
  · simp [same, Fin.val_inj]

@[simp] theorem abortUnfinished : ¬ (s.abort j).Unfinished i := by
  simp [Search.Unfinished, Search.abort]

end Fields

inductive Turned (diff : Fin 32 → ℤ) (s : Search) (j : Fin 8) : Search → Prop where
  | skip (finished : ¬ s.Unfinished j) : Turned diff s j s
  | finish (unfinished : s.Unfinished j) (above : Above diff j) (narrowed : (s.chips j).Narrowed) :
      Turned diff s j ((s.finish j).setChip j (s.chips j).above.next)
  | above (unfinished : s.Unfinished j) (above : Above diff j) (wide : ¬ (s.chips j).Narrowed) :
      Turned diff s j (s.setChip j (s.chips j).above.next)
  | below {c : Chip} (unfinished : s.Unfinished j) (short : ¬ Above diff j) (below : (s.chips j).below = some c) :
      Turned diff s j (s.setChip j c.next)
  | abort (unfinished : s.Unfinished j) (short : ¬ Above diff j) (below : (s.chips j).below = none) :
      Turned diff s j ((s.abort j).setChip j { s.chips j with rmpLow := (s.chips j).rmp }.next)

theorem turned (diff : Fin 32 → ℤ) (s : Search) (j : Fin 8) : Turned diff s j (chipTurn diff s j) := by
  unfold chipTurn
  split
  · rename_i unfinished
    simp only
    split
    · rename_i above
      split
      · rename_i narrowed
        exact .finish unfinished above narrowed
      · rename_i wide
        exact .above unfinished above wide
    · rename_i short
      split
      · rename_i c below
        exact .below unfinished short below
      · rename_i below
        exact .abort unfinished short below
  · rename_i finished
    exact .skip finished

structure Searching (s : Search) : Prop where
  bounded : ∀ j, s.Unfinished j → (s.chips j).Bounded
  eight : ∀ k, 8 ≤ k → s.chipsNotFinished.getLsbD k = false
  measured : ∀ reading ∈ s.readings, ∀ j : Fin 8, reading.chipsNotFinished.getLsbD j = true → (reading.chips j).Bounded

theorem searchingStart (totErrors : Fin 32 → ℤ) (calls : ℕ) : Searching (searchStart totErrors calls) := by
  refine ⟨fun _ _ => startBounded, fun k high => ?_, fun reading mem => by cases mem⟩
  exact highBit (by decide : (0xFF#16).toNat < 2^8) high

theorem finishEight {s : Search} (searching : Searching s) (j : Fin 8) (k : ℕ) (high : 8 ≤ k) :
    (s.finish j).chipsNotFinished.getLsbD k = false := by
  unfold Search.finish
  rw [BitVec.getLsbD_and, searching.eight k high, Bool.false_and]

theorem turnSearching {diff : Fin 32 → ℤ} {s after : Search} {j : Fin 8} (turn : Turned diff s j after)
    (searching : Searching s) : Searching after := by
  obtain ⟨bounded, eight, measured⟩ := searching
  have replaced {c : Chip} (next : c.Bounded) (i : Fin 8) (unfinished : s.Unfinished i) :
      ((s.setChip j c).chips i).Bounded := by
    rw [setChipChips]
    split
    · exact next
    · exact bounded i unfinished
  cases turn with
  | skip finished => exact ⟨bounded, eight, measured⟩
  | finish unfinished above narrowed =>
    refine ⟨fun i open' => ?_, finishEight ⟨bounded, eight, measured⟩ j, measured⟩
    obtain ⟨other, open'⟩ := (finishUnfinished s i j).mp open'
    rw [setChipChips, if_neg other]
    exact bounded i open'
  | above unfinished above wide =>
    exact ⟨replaced (aboveBounded (bounded j unfinished) wide).1, eight, measured⟩
  | below unfinished short below =>
    exact ⟨replaced (belowBounded (bounded j unfinished) below).1, eight, measured⟩
  | abort unfinished short below =>
    exact ⟨fun i open' => absurd open' (abortUnfinished s i j), fun k _ => BitVec.getLsbD_zero, measured⟩

theorem foldSearching (diff : Fin 32 → ℤ) (chips : List (Fin 8)) {s : Search} (searching : Searching s) :
    Searching (chips.foldl (chipTurn diff) s) := by
  induction chips generalizing s with
  | nil => exact searching
  | cons j later ih => exact ih (turnSearching (turned diff s j) searching)

theorem checkSearching (diff : Fin 32 → ℤ) {s : Search} (searching : Searching s) : Searching (s.check diff) := by
  refine ⟨searching.bounded, searching.eight, fun reading mem j unfinished => ?_⟩
  rcases List.mem_append.mp mem with mem | mem
  · exact searching.measured reading mem j unfinished
  · obtain rfl := List.mem_singleton.mp mem
    exact searching.bounded j unfinished

theorem passSearching (diffs : ℕ → Fin 32 → ℤ) {s : Search} (searching : Searching s) :
    Searching (searchPass diffs s) := by
  unfold searchPass
  exact foldSearching _ _ (checkSearching _ searching)

def Search.weight (s : Search) (i : Fin 8) : ℕ := if s.Unfinished i then (s.chips i).left + 1 else 0

def Search.left (s : Search) : ℕ := ∑ i, s.weight i

theorem weightFinished {s : Search} {i : Fin 8} (finished : ¬ s.Unfinished i) : s.weight i = 0 := if_neg finished

theorem weightUnfinished {s : Search} {i : Fin 8} (unfinished : s.Unfinished i) : s.weight i = (s.chips i).left + 1 :=
  if_pos unfinished

theorem weightKept {s after : Search} {i : Fin 8}
    (kept : after.Unfinished i → s.Unfinished i ∧ after.chips i = s.chips i) : after.weight i ≤ s.weight i := by
  by_cases unfinished : after.Unfinished i
  · obtain ⟨before, same⟩ := kept unfinished
    rw [weightUnfinished unfinished, weightUnfinished before, same]
  · rw [weightFinished unfinished]
    exact Nat.zero_le _

theorem weightDone {s after : Search} {i : Fin 8} (unfinished : s.Unfinished i) (finished : ¬ after.Unfinished i) :
    after.weight i < s.weight i := by
  rw [weightFinished finished, weightUnfinished unfinished]
  exact Nat.succ_pos _

theorem weightReplaced {s : Search} {j : Fin 8} {c : Chip} (unfinished : s.Unfinished j)
    (smaller : c.left < (s.chips j).left) :
    (∀ i, (s.setChip j c).weight i ≤ s.weight i) ∧ (s.setChip j c).weight j < s.weight j := by
  have own : (s.setChip j c).weight j < s.weight j := by
    rw [weightUnfinished unfinished, weightUnfinished (s := s.setChip j c) unfinished, setChipChips, if_pos rfl]
    omega
  refine ⟨fun i => ?_, own⟩
  by_cases same : i = j
  · exact same ▸ own.le
  · refine weightKept fun unfinished => ⟨unfinished, ?_⟩
    rw [setChipChips, if_neg same]

theorem turnWeights {diff : Fin 32 → ℤ} {s after : Search} {j : Fin 8} (turn : Turned diff s j after)
    (searching : Searching s) :
    (∀ i, after.weight i ≤ s.weight i) ∧ (s.Unfinished j → after.weight j < s.weight j) := by
  cases turn with
  | skip finished => exact ⟨fun i => le_refl _, fun unfinished => absurd unfinished finished⟩
  | finish unfinished above narrowed =>
    refine ⟨fun i => weightKept fun open' => ?_, fun _ => weightDone unfinished fun both => ?_⟩
    · obtain ⟨other, open'⟩ := (finishUnfinished s i j).mp open'
      rw [setChipChips, if_neg other]
      exact ⟨open', rfl⟩
    · exact ((finishUnfinished s j j).mp both).1 rfl
  | above unfinished above wide =>
    have weights := weightReplaced unfinished (aboveBounded (searching.bounded j unfinished) wide).2
    exact ⟨weights.1, fun _ => weights.2⟩
  | below unfinished short below =>
    have weights := weightReplaced unfinished (belowBounded (searching.bounded j unfinished) below).2
    exact ⟨weights.1, fun _ => weights.2⟩
  | abort unfinished short below =>
    exact ⟨fun i => weightKept fun open' => absurd open' (abortUnfinished s i j),
      fun _ => weightDone unfinished (abortUnfinished s j j)⟩

theorem foldWeights (diff : Fin 32 → ℤ) (chips : List (Fin 8)) {s : Search} (searching : Searching s) :
    (chips.foldl (chipTurn diff) s).left ≤ s.left ∧
      ∀ j ∈ chips, s.Unfinished j → (chips.foldl (chipTurn diff) s).left < s.left := by
  induction chips generalizing s with
  | nil => exact ⟨le_refl _, fun j mem => by cases mem⟩
  | cons i later ih =>
    have turn := turned diff s i
    obtain ⟨fewer, own⟩ := turnWeights turn searching
    obtain ⟨rest, strict⟩ := ih (turnSearching turn searching)
    refine ⟨rest.trans (Finset.sum_le_sum fun k _ => fewer k), fun j mem unfinished => ?_⟩
    rw [List.foldl_cons]
    by_cases first : s.Unfinished i
    · exact rest.trans_lt (Finset.sum_lt_sum (fun k _ => fewer k) ⟨i, Finset.mem_univ i, own first⟩)
    · have skipped : chipTurn diff s i = s := if_neg first
      rw [skipped] at strict ⊢
      refine strict j ((List.mem_cons.mp mem).resolve_left ?_) unfinished
      rintro rfl
      exact first unfinished

theorem someUnfinished {s : Search} (searching : Searching s) (more : s.chipsNotFinished ≠ 0) : ∃ j, s.Unfinished j := by
  obtain ⟨k, bit⟩ := someBit more
  have inside : k < 8 := by
    by_contra high
    rw [searching.eight k (Nat.le_of_not_lt high)] at bit
    contradiction
  exact ⟨⟨k, inside⟩, bit⟩

theorem noneUnfinished {s : Search} (done : s.chipsNotFinished = 0) (j : Fin 8) : ¬ s.Unfinished j := by
  rw [Search.Unfinished, emptyBit done]
  exact Bool.false_ne_true

theorem passLeft (diffs : ℕ → Fin 32 → ℤ) {s : Search} (searching : Searching s) (more : s.chipsNotFinished ≠ 0) :
    (searchPass diffs s).left < s.left := by
  obtain ⟨j, unfinished⟩ := someUnfinished searching more
  unfold searchPass
  exact (foldWeights _ _ (checkSearching _ searching)).2 j (List.mem_finRange j) unfinished

/- The settings of a measurement, and that the two steps which could leave 16 bits do not. -/
structure Chip.Within (c : Chip) : Prop where
  low : 110 ≤ c.rmpLow.toNat ∧ c.rmpLow.toNat < c.rmp.toNat
  high : c.rmp.toNat ≤ c.rmpHigh.toNat ∧ c.rmpHigh.toNat ≤ 180
  vsi : 50 ≤ c.vsi.toNat ∧ c.vsi.toNat ≤ 120
  lowered : (c.vsi-2).toNat + 2 = c.vsi.toNat
  raised : (c.rmpHigh+1).toNat = c.rmpHigh.toNat + 1
  centred : ∀ rmpHigh rmpLow, (middle rmpHigh rmpLow).toNat = (rmpHigh.toNat + rmpLow.toNat + 1)/2

theorem boundedWithin {c : Chip} (bounded : c.Bounded) : c.Within where
  low := ⟨bounded.lowest, bounded.low⟩
  high := ⟨bounded.high, bounded.highest⟩
  vsi := ⟨bounded.least, bounded.most⟩
  lowered := lowered (Nat.le_trans (by decide) bounded.least)
  raised := raised bounded.highest
  centred := middleValue

section Turns
variable {diffs : ℕ → Fin 32 → ℤ} {s : Search}

theorem searchAgain {t : Search} (turn : searchTurn diffs s = .again t) :
    s.chipsNotFinished ≠ 0 ∧ t = searchPass diffs s := by
  unfold searchTurn at turn
  split at turn
  · contradiction
  · rename_i more
    cases turn
    exact ⟨more, rfl⟩

theorem searchStop {r : Search} (turn : searchTurn diffs s = .stop r) : s.chipsNotFinished = 0 ∧ r = s := by
  unfold searchTurn at turn
  split at turn
  · rename_i done
    cases turn
    exact ⟨done, rfl⟩
  · contradiction

end Turns

theorem searchInvariant {diffs : ℕ → Fin 32 → ℤ} (inv : Search → Prop)
    (pass : ∀ s, inv s → s.chipsNotFinished ≠ 0 → inv (searchPass diffs s)) {start s : Search} (first : inv start)
    (ends : Ends (searchTurn diffs) start s) : inv s ∧ s.chipsNotFinished = 0 := by
  refine endsInvariant inv (fun s => inv s ∧ s.chipsNotFinished = 0) (fun s t kept turn => ?_) (fun s r kept turn => ?_)
    first ends
  · obtain ⟨more, rfl⟩ := searchAgain turn
    exact pass s kept more
  · obtain ⟨done, rfl⟩ := searchStop turn
    exact ⟨kept, done⟩

theorem searchRuns (diffs : ℕ → Fin 32 → ℤ) (totErrors : Fin 32 → ℤ) (calls : ℕ) :
    ∃ s, Ends (searchTurn diffs) (searchStart totErrors calls) s := by
  obtain ⟨s, done⟩ := endsWithin Searching Search.left (fun s t searching turn => by
    obtain ⟨more, rfl⟩ := searchAgain turn
    exact ⟨passSearching diffs searching, passLeft diffs searching more⟩) (searchingStart totErrors calls)
  exact ⟨s, _, done⟩

/- The search of every slot ends, whatever the measurements give, and the settings of
the chips that are unfinished stay inside their bounds at each measurement. -/
theorem searchEnds (diffs : ℕ → Fin 32 → ℤ) (totErrors : Fin 32 → ℤ) (calls : ℕ) :
    ∃ s, Ends (searchTurn diffs) (searchStart totErrors calls) s ∧ s.chipsNotFinished = 0 ∧
      ∀ reading ∈ s.readings, ∀ j : Fin 8, reading.chipsNotFinished.getLsbD j = true → (reading.chips j).Within := by
  obtain ⟨s, ends⟩ := searchRuns diffs totErrors calls
  obtain ⟨searching, finished⟩ := searchInvariant Searching (fun s searching _ => passSearching diffs searching)
    (searchingStart totErrors calls) ends
  exact ⟨s, ends, finished, fun reading mem j unfinished => boundedWithin (searching.measured reading mem j unfinished)⟩

end PennDaq.TTotSearch
