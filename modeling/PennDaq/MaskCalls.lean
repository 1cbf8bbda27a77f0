import PennDaq.TestCalls

/-! What the tests of several crates do on the links, and the two sequences of tests,
`ECAL` and `FinalTest`. -/
namespace PennDaq.MaskCalls
open Lib.Skeleton
open LinkCalls TestCalls

abbrev SlotMasks := Nat → BitVec 32

def eachCrate (crateMask : BitVec 32) (calls : Nat → Calls) : Calls := each (crates crateMask) calls

def eachSlot (slotMasks : SlotMasks) (crateNum : Nat) (calls : Calls) : Calls :=
  each (slots (slotMasks crateNum)) fun _ => calls

section Masks
variable (crateMask : BitVec 32) (slotMasks : SlotMasks)

def runPedestals (setupCrates setupMTC : Bool) : Calls := .call (.attempt (block [
  provided setupCrates (eachCrate crateMask fun i => block [
    Xl3.changeMode i,
    eachSlot slotMasks i (rws i 4),
    Xl3.deselectFECs i,Xl3.loadCrateAddr i (slotMasks i),Xl3.setCratePedestals i,
    Xl3.deselectFECs i,maybe .leave]),
  provided setupMTC setupOrUnset,
  provided setupCrates (eachCrate crateMask fun i => Xl3.changeMode i)]))

def runPedestalsEnd (setupCrates setupMTC : Bool) : Calls := .attempt (block [
  provided setupCrates (eachCrate crateMask fun i =>
    block [Xl3.changeMode i,Xl3.setCratePedestals i]),
  provided setupMTC (block [
    Mtc.disablePulser,Mtc.disablePedestal,Mtc.unsetPedCrateMask,Mtc.unsetGTCrateMask])])

def triggerScan : Calls := .call (block [
  maybe .leave,
  .attempt (block [
    setupOrUnset,
    eachCrate crateMask fun i => eachSlot slotMasks i (Xl3.rw i),
    .many (block [
      Mtc.unsetGTMask,Mtc.loadMTCADacsByCounts,Mtc.setGTMask,
      .many (block [
        eachCrate crateMask fun i => eachSlot slotMasks i (maybe (Xl3.rw i)),
        Mtc.regRead,Mtc.multiSoftGT,Mtc.regRead])]),
    Mtc.unsetGTMask])])

/- `which` is `id` where the masks hold all slots, and `maybe` where they hold those
that are not done yet. -/
def isGTValidLonger (which : Calls → Calls) : Calls := block [
  eachCrate crateMask fun i => eachSlot slotMasks i (which (rws i 2)),
  Mtc.setGTDelay,Mtc.multiSoftGT,
  eachCrate crateMask fun i => eachSlot slotMasks i (which (Xl3.rw i))]

def measureGTValid (crateNum : Int) (slotNum : Nat) : Calls := block [
  Xl3.loadsDac crateNum,
  .many (isGTValidLonger (bit crateNum) (fun _ => bit slotNum) id),
  maybe (block [
    Xl3.loadsDac crateNum,isGTValidLonger (bit crateNum) (fun _ => bit slotNum) id])]

def gtValidPass : Calls := block [
  eachCrate crateMask fun i => block [eachSlot slotMasks i (Xl3.rw i),Xl3.multiLoadsDac i],
  .many (block [
    eachCrate crateMask fun i => maybe (Xl3.multiLoadsDac i),
    isGTValidLonger crateMask slotMasks maybe])]

def measureSlot (crateNum : Int) (slotNum : Nat) : Calls := block [
  Xl3.loadsDac crateNum,Xl3.loadsDac crateNum,Xl3.rw crateNum,measureGTValid crateNum slotNum]

def gtValidTest (channelMask : BitVec 32) (setOnly updateDB : Bool) : Calls := .call (.attempt (block [
  eachCrate crateMask fun i => block [eachSlot slotMasks i (rws i 6),Xl3.deselectFECs i],
  setupOrLeave,
  eachCrate crateMask fun i => Xl3.multiLoadsDac i,
  eachCrate crateMask fun i => Xl3.multiLoadsDac i,
  eachCrate crateMask fun i => eachSlot slotMasks i (Xl3.loadTacbits i),
  each (channels channelMask) fun _ => gtValidPass crateMask slotMasks,
  each (List.range 2) fun _ => block [
    .many (gtValidPass crateMask slotMasks),.many (gtValidPass crateMask slotMasks)],
  eachCrate crateMask fun i => each (slots (slotMasks i)) fun slot => block [
    provided (!setOnly) (each (List.range 2) fun _ =>
      each (channels channelMask) fun _ => measureSlot i slot),
    updateSlot i updateDB]]))

def crateCounts (i : Nat) : Calls := block [
  Xl3.getCmosTotalCount i (slotMasks i &&& 0xFF#32),
  Xl3.getCmosTotalCount i (slotMasks i &&& 0xFF00#32)]

def setInitMode : Calls := eachCrate crateMask fun i => Xl3.changeMode i

def loadThreshold (i : Nat) : Calls := block [
  Xl3.multiLoadsDac i,maybe (block [setInitMode crateMask,.leave])]

def tuneChannels : Calls := eachCrate crateMask fun i => eachSlot slotMasks i
  (.many (block [loadThreshold crateMask i,maybe (Xl3.sendCommand i),maybe (Xl3.sendCommand i)]))

def findNoise (useDebug channelTuning updateDB : Bool) : Calls := .call (.attempt (block [
  eachCrate crateMask fun i =>
    block [provided useDebug (Xl3.updateCrateConfig i),maybe .leave],
  setupOrLeave,
  eachCrate crateMask fun i => eachSlot slotMasks i (block [Xl3.multiLoadsDac i,maybe .leave]),
  eachCrate crateMask fun i => Xl3.setCratePedestals i,
  eachCrate crateMask fun i => Xl3.changeMode i,
  .many (block [
    eachCrate crateMask fun i => eachSlot slotMasks i (loadThreshold crateMask i),
    eachCrate crateMask fun i => crateCounts slotMasks i,
    eachCrate crateMask fun i => crateCounts slotMasks i]),
  provided channelTuning (block [
    tuneChannels crateMask slotMasks,Mtc.disablePulser,tuneChannels crateMask slotMasks]),
  eachCrate crateMask fun i => updateSlots i (slotMasks i) updateDB,
  setInitMode crateMask,Mtc.disablePulser]))

def postECALDoc : Calls := .call (block [
  maybe .leave,
  eachCrate crateMask fun i => eachSlot slotMasks i (Xl3.updateCrateConfig i)])

end Masks

/- `MeasureGTValidOnly` has no `try`. -/
def measureGTValidOnly (crateNum : Int) (slotMask : BitVec 32) : Calls := .call (block [
  each (slots slotMask) fun _ => rws crateNum 6,
  Xl3.deselectFECs crateNum,setupOrLeave,
  Xl3.multiLoadsDac crateNum,Xl3.multiLoadsDac crateNum,
  each (slots slotMask) fun _ => Xl3.loadTacbits crateNum,
  each (slots slotMask) fun slot => each (List.range 2) fun _ => each (List.range 32) fun _ =>
    measureSlot crateNum slot])

end PennDaq.MaskCalls
