import PennDaq.Bundles
import PennDaq.Lib.Sample
import Mathlib.Data.Rat.Defs
import Mathlib.Logic.Function.Basic

/-! Pedestal data: the sums over bundles, cell by cell, and what `PedRun`, `ChinjScan`,
`PedRunByChannel` and `GetPedestal` make of them. The square root at the end is left
out: `rms` is the square of what is stored. -/
namespace PennDaq.Pedestals
open Lib.Sample
open Bundles

inductive Quantity where
  | qlx
  | qhl
  | qhs
  | tac
  deriving DecidableEq, Repr

structure Cell where
  perCell : BitVec 16
  bar : Quantity → ℚ
  rms : Quantity → ℚ

structure Pedestal where
  perChannel : BitVec 16
  thiscell : Fin 16 → Cell

abbrev Ped := Fin 32 → Pedestal

def emptyPedestal : Pedestal := ⟨0,fun _ => ⟨0,fun _ => 0,fun _ => 0⟩⟩

structure Hit where
  channel : Fin 32
  cell : Fin 16
  value : Quantity → ℚ

def addCell (c : Cell) (value : Quantity → ℚ) : Cell where
  perCell := c.perCell+1
  bar q := c.bar q + value q
  rms q := c.rms q + value q^2

def addHit (ped : Ped) (h : Hit) : Ped :=
  Function.update ped h.channel
    { perChannel := (ped h.channel).perChannel+1
      thiscell := Function.update (ped h.channel).thiscell h.cell (addCell ((ped h.channel).thiscell h.cell) h.value) }

theorem channelSmall (a : Bundle) : (unpkChannelID a).toNat < 32 := by
  rw [unpkChannelID, BitVec.toNat_and]
  exact Nat.lt_of_le_of_lt Nat.and_le_right (by decide)

theorem cellSmall (a : Bundle) : (unpkCellID a).toNat < 16 := by
  rw [unpkCellID, BitVec.toNat_and]
  exact Nat.lt_of_le_of_lt Nat.and_le_right (by decide)

def unpackedValue (a : Bundle) : Quantity → ℚ
  | .qlx => (myUnpkQlx a).toNat
  | .qhl => (unpkQhl a).toNat
  | .qhs => (unpkQhs a).toNat
  | .tac => (unpkTAC a).toNat

def unpackedHit (a : Bundle) : Hit := ⟨⟨(unpkChannelID a).toNat,channelSmall a⟩,⟨(unpkCellID a).toNat,cellSmall a⟩,unpackedValue a⟩

def processBundle (crateNum : ℤ) (ped : Ped) (a : Bundle) : Ped :=
  if ((unpkCrateID a).toNat : ℤ) ≠ crateNum then ped else addHit ped (unpackedHit a)

/- `num_events / (num_events -1)` is a division of integers. -/
def meanSpread (numEvents : ℕ) (c : Cell) : Cell where
  perCell := c.perCell
  bar q := c.bar q/numEvents
  rms q := (numEvents/(numEvents-1) : ℕ)*(c.rms q/numEvents - (c.bar q/numEvents)^2)

@[simp] theorem meanSpreadBar (numEvents : ℕ) (c : Cell) (q : Quantity) :
    (meanSpread numEvents c).bar q = c.bar q/numEvents := rfl

@[simp] theorem meanSpreadRms (numEvents : ℕ) (c : Cell) (q : Quantity) : (meanSpread numEvents c).rms q =
    (numEvents/(numEvents-1) : ℕ)*(c.rms q/numEvents - (c.bar q/numEvents)^2) := rfl

def finishCell (c : Cell) : Cell :=
  if c.perCell.toNat > 1 then meanSpread c.perCell.toNat c else { c with rms := fun _ => 0 }

def finalStep (p : Pedestal) : Pedestal :=
  if p.perChannel.toNat > 0 then { p with thiscell := fun j => finishCell (p.thiscell j) } else p

def pedRun (crateNum : ℤ) (bundles : List Bundle) (i : Fin 32) : Pedestal :=
  finalStep (bundles.foldl (processBundle crateNum) (fun _ => emptyPedestal) i)

def chinjScan (crateNum : ℤ) (bundles : List Bundle) (i : Fin 32) : Pedestal :=
  finalStep (bundles.foldl (processBundle crateNum) (fun _ => emptyPedestal) i)

/- Only the one channel is initialized; the others are what `malloc` has left. -/
def pedRunByChannel (crateNum : ℤ) (channelNum : Fin 32) (heap : Ped) (bundles : List Bundle) : Pedestal :=
  finalStep (bundles.foldl (processBundle crateNum) (Function.update heap channelNum emptyPedestal) channelNum)

theorem parsedSmall (a : Bundle) : (parseBundle a).channelID.toNat < 32 ∧ (parseBundle a).cmosCellID.toNat < 16 := by
  have same := fieldsUnpacked a
  exact ⟨(congrArg Fields.channelID same).trans_lt (channelSmall a), (congrArg Fields.cellID same).trans_lt (cellSmall a)⟩

def parsedValue (pmtData : ParsedBundle) : Quantity → ℚ
  | .qlx => pmtData.adcQlx.toNat
  | .qhl => pmtData.adcQhl.toNat
  | .qhs => pmtData.adcQhs.toNat
  | .tac => pmtData.adcTAC.toNat

def parsedHit (a : Bundle) : Hit where
  channel := ⟨(parseBundle a).channelID.toNat,(parsedSmall a).1⟩
  cell := ⟨(parseBundle a).cmosCellID.toNat,(parsedSmall a).2⟩
  value := parsedValue (parseBundle a)

def numPulses : ℕ := 25*16

/- `result` is what `FIFO_DIFF_PTR_R` is read as. -/
def wordsInMem (result : BitVec 32) : ℕ :=
  let result := (result &&& 0x000FFFFF).toNat
  if result < 32*3*numPulses then
    let wordsInMem := if result > 100 then result-100 else result
    wordsInMem - wordsInMem % 3
  else 32*3*numPulses

def minNumWords (channelMask : BitVec 32) : ℕ :=
  ((List.finRange 32).map fun i : Fin 32 => if channelMask.getLsbD i then (numPulses-25)*3*0 else 0).sum

def bundlesIn (words : ℕ) (pmtBuf : ℕ → BitVec 32) : List Bundle :=
  (List.range (words/3)).map fun i k => pmtBuf (3*i+k)

def Accepted (numEvents : ℕ) : Prop := ¬ ((numEvents : ℚ)*16/numPulses > 11/10 ∨ (numEvents : ℚ)*16/numPulses < 9/10)

instance (numEvents : ℕ) : Decidable (Accepted numEvents) := by
  unfold Accepted
  infer_instance

def acceptCell (c : Cell) : Cell :=
  if Accepted c.perCell.toNat then
    if c.perCell.toNat > 1 then meanSpread c.perCell.toNat c else c
  else c

def pedTestTaken : BitVec 16 := 0x1
def pedChHasPedestals : BitVec 16 := 0x2
def pedRmsTestPassed : BitVec 16 := 0x4
def pedPedWithinRange : BitVec 16 := 0x8
def pedDataNoEnable : BitVec 16 := 0x10
def pedTooFewPerCell : BitVec 16 := 0x20

def maxRms : Quantity → ℚ
  | .qlx => 2
  | .qhl => 2
  | .qhs => 10
  | .tac => 3

def statusCell (c : Cell) (testStatus : BitVec 16) : BitVec 16 :=
  if Accepted c.perCell.toNat then
    if c.perCell.toNat > 1 then
      let c := meanSpread c.perCell.toNat c
      if ∃ q ∈ [Quantity.qlx,.qhl,.qhs,.tac], c.rms q > maxRms q^2 then testStatus &&& ~~~pedRmsTestPassed else testStatus
    else testStatus &&& ~~~pedChHasPedestals
  else testStatus ||| pedTooFewPerCell

def statusChannel (p : Pedestal) (testStatus : BitVec 16) : BitVec 16 :=
  if p.perChannel.toNat > 0 then
    let testStatus := testStatus ||| (pedTestTaken ||| pedChHasPedestals ||| pedRmsTestPassed ||| pedPedWithinRange)
    let testStatus := testStatus &&& ~~~(pedDataNoEnable ||| pedTooFewPerCell)
    (List.finRange 16).foldl (fun testStatus j => statusCell (p.thiscell j) testStatus) testStatus
  else testStatus

def acceptChannel (p : Pedestal) : Pedestal :=
  if p.perChannel.toNat > 0 then { p with thiscell := fun j => acceptCell (p.thiscell j) } else p

structure GetPedestal where
  code : ℤ
  pedestals : Ped
  testStatus : Fin 32 → BitVec 16

def parsedSums (bundles : List Bundle) : Ped :=
  bundles.foldl (fun ped a => addHit ped (parsedHit a)) fun _ => emptyPedestal

def getPedestal (channelMask result : BitVec 32) (pmtBuf : ℕ → BitVec 32) (testStatus : Fin 32 → BitVec 16) : GetPedestal :=
  if wordsInMem result < minNumWords channelMask then ⟨10,fun _ => emptyPedestal,testStatus⟩
  else
    let sums := parsedSums (bundlesIn (wordsInMem result) pmtBuf)
    ⟨0,fun i => acceptChannel (sums i),fun i => statusChannel (sums i) (testStatus i)⟩

def ofChannel (hits : List Hit) (i : Fin 32) : List Hit := hits.filter fun h => h.channel = i

def ofCell (hits : List Hit) (i : Fin 32) (j : Fin 16) : List Hit := hits.filter fun h => h.channel = i ∧ h.cell = j

def values (hits : List Hit) (i : Fin 32) (j : Fin 16) (q : Quantity) : List ℚ := (ofCell hits i j).map fun h => h.value q

section Sums
variable (ped : Ped) (hits : List Hit) (i : Fin 32) (j : Fin 16)

theorem addHitChannel (h : Hit) : ((addHit ped h) i).perChannel =
    (ped i).perChannel + BitVec.ofNat 16 (ofChannel [h] i).length := by
  rw [addHit, Function.update_apply]
  by_cases same : h.channel = i
  · subst same
    simp [ofChannel]
  · rw [if_neg (Ne.symm same)]
    simp [ofChannel, same]

theorem addHitCell (h : Hit) : ((addHit ped h) i).thiscell j =
    if h.channel = i ∧ h.cell = j then addCell ((ped i).thiscell j) h.value else (ped i).thiscell j := by
  rw [addHit, Function.update_apply]
  by_cases same : h.channel = i
  · subst same
    rw [if_pos rfl]
    change Function.update _ _ _ j = _
    rw [Function.update_apply]
    by_cases same' : h.cell = j
    · subst same'
      rw [if_pos rfl, if_pos ⟨rfl, rfl⟩]
    · rw [if_neg (Ne.symm same'), if_neg fun both => same' both.2]
  · rw [if_neg (Ne.symm same), if_neg fun both => same both.1]

theorem channelSum : (hits.foldl addHit ped i).perChannel =
    (ped i).perChannel + BitVec.ofNat 16 (ofChannel hits i).length := by
  induction hits generalizing ped with
  | nil => simp [ofChannel]
  | cons h later ih =>
    have split' : ofChannel (h::later) i = ofChannel [h] i ++ ofChannel later i := @List.filter_append _ _ [h] later
    rw [List.foldl_cons, ih, addHitChannel, split', List.length_append, BitVec.ofNat_add, BitVec.add_assoc]

theorem cellSums : ((hits.foldl addHit ped i).thiscell j).perCell =
      ((ped i).thiscell j).perCell + BitVec.ofNat 16 (ofCell hits i j).length ∧
    ∀ q, ((hits.foldl addHit ped i).thiscell j).bar q = ((ped i).thiscell j).bar q + (values hits i j q).sum ∧
      ((hits.foldl addHit ped i).thiscell j).rms q = ((ped i).thiscell j).rms q + squares (values hits i j q) := by
  induction hits generalizing ped with
  | nil => exact ⟨(BitVec.add_zero _).symm, fun q => ⟨(add_zero _).symm, (add_zero _).symm⟩⟩
  | cons h later ih =>
    obtain ⟨count, sums⟩ := ih (addHit ped h)
    rw [List.foldl_cons, count]
    rw [addHitCell] at sums ⊢
    by_cases here : h.channel = i ∧ h.cell = j
    · have taken : ofCell (h::later) i j = h::ofCell later i j := List.filter_cons_of_pos (decide_eq_true here)
      rw [if_pos here] at sums ⊢
      refine ⟨?_, fun q => ?_⟩
      · rw [taken, List.length_cons, addCell, Nat.add_comm, BitVec.ofNat_add, BitVec.add_assoc]
        rfl
      · obtain ⟨bar, rms⟩ := sums q
        have valued : values (h::later) i j q = h.value q::values later i j q := congrArg (List.map _) taken
        rw [bar, rms, valued, List.sum_cons, squaresCons, addCell, add_assoc, add_assoc]
        exact ⟨rfl, rfl⟩
    · have passed : ofCell (h::later) i j = ofCell later i j :=
        List.filter_cons_of_neg fun taken => here (of_decide_eq_true taken)
      rw [if_neg here] at sums ⊢
      refine ⟨?_, fun q => ?_⟩
      · rw [passed]
      · rw [values, passed]
        exact sums q

end Sums
end PennDaq.Pedestals
