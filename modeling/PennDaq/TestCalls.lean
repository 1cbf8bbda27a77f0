import PennDaq.LinkCalls

/-! What the tests do on the links: the functions of `tests/`, each with the `try`
that it has. A loop that counts pulses, reads a memory out or searches for a
setting runs any number of times here. -/
namespace PennDaq.TestCalls
open Lib.Skeleton
open LinkCalls

def channels (channelMask : BitVec 32) : List Nat := (List.range 32).filter (hasBit channelMask)

def crates (crateMask : BitVec 32) : List Nat := (List.range 20).filter (hasBit crateMask)

/- `0x1<<n`, of which the processor takes the five low bits of `n`. -/
def bit (n : Int) : BitVec 32 := 1#32 <<< (n % 32).toNat

/- Every error of `SetupPedestals` ends the tests; some take their crates out of the
masks first. -/
def setupOrLeave : Calls := block [Mtc.setupPedestals,maybe .leave]

def setupOrUnset : Calls := block [
  Mtc.setupPedestals,
  maybe (block [Mtc.unsetPedCrateMask,Mtc.unsetGTCrateMask,.leave])]

@[simp] theorem setupEnds : passes setupOrLeave ∧ passes setupOrUnset := by
  simp [setupOrLeave, setupOrUnset]

@[simp] theorem setupOnSBC (holds : Op → Prop) :
    (allOps holds setupOrLeave ↔ holds .sbc) ∧ (allOps holds setupOrUnset ↔ holds .sbc) := by
  simp [setupOrLeave, setupOrUnset]

@[simp] def multiSoftGTs : Calls := .many Mtc.multiSoftGT

section OneCrate
variable (crateNum : Int) (slotMask : BitVec 32) (updateDB : Bool)

@[simp] def rws (count : Nat) : Calls := each (List.range count) fun _ => Xl3.rw crateNum

@[simp] def updateSlot : Calls := provided updateDB (postDebugDoc crateNum true)

@[simp] def updateSlots : Calls :=
  provided updateDB (each (slots slotMask) fun _ => postDebugDoc crateNum true)

def boardID : Calls := .call (.attempt
  (each (slots slotMask) fun _ => each (List.range 6) fun _ => Xl3.sendCommand crateNum))

def caldTest : Calls := .call (block [
  maybe .leave,
  .attempt (block [
    Xl3.sendCommand crateNum,Xl3.getCaldTestResults crateNum,
    updateSlots crateNum slotMask updateDB])])

@[simp] def resetFECs : Calls := block [
  each (List.range 16) fun _ => rws crateNum 5,
  Xl3.deselectFECs crateNum]

def cgtTest : Calls := .call (.attempt (block [
  Mtc.resetMemory,setupOrLeave,Mtc.setGTCounter,resetFECs crateNum,
  Xl3.setCratePedestals crateNum,maybe .leave,Xl3.deselectFECs crateNum,
  each (List.range 16) fun _ => block [
    Mtc.multiSoftGT,
    each (slots slotMask) fun _ => maybe (Xl3.rw crateNum),
    Xl3.sendCommand crateNum,
    each (slots slotMask) fun _ => maybe (Xl3.rw crateNum),
    Mtc.softGT,
    each (slots slotMask) fun _ =>
      maybe (block [Xl3.rw crateNum,.many (rws crateNum 3)])],
  updateSlots crateNum slotMask updateDB]))

def orphanTest : Calls := .call (.attempt (block [
  Mtc.resetMemory,setupOrLeave,Mtc.setGTCounter,resetFECs crateNum,
  Xl3.setCratePedestals crateNum,maybe .leave,Xl3.deselectFECs crateNum,
  .many (block [
    Mtc.multiSoftGT,
    each (slots slotMask) fun _ => block [Xl3.rw crateNum,.many (rws crateNum 3)]])]))

def chinjScan : Calls := .call (block [
  maybe .leave,
  .attempt (block [
    .many (block [
      each (slots slotMask) fun _ => rws crateNum 4,
      Xl3.deselectFECs crateNum,Xl3.loadCrateAddr crateNum slotMask,
      maybe (Xl3.setCratePedestals crateNum),Xl3.deselectFECs crateNum,maybe .leave,
      Xl3.setupChargeInjection crateNum,setupOrUnset,Mtc.multiSoftGT,
      each (slots slotMask) fun _ => Xl3.readOutBundles crateNum,
      Mtc.unsetPedCrateMask,Mtc.unsetGTCrateMask,Xl3.setCratePedestals crateNum,
      Xl3.deselectFECs crateNum]),
    updateSlots crateNum slotMask updateDB])])

@[simp] def getPedestal : Calls := .call (block [
  maybe .leave,rws crateNum 3,Mtc.multiSoftGT,Xl3.rw crateNum,maybe .leave,
  .many (block [Xl3.sendCommand crateNum,maybe (Xl3.getMultiFCResults crateNum)])])

@[simp] def pedestalPoint : Calls := block [
  Xl3.multiLoadsDac crateNum,maybe .leave,
  maybe (block [getPedestal crateNum,maybe .leave]),
  maybe (block [Xl3.rw crateNum,getPedestal crateNum,maybe .leave,Xl3.rw crateNum])]

def crateCBal : Calls := .call (block [
  maybe .leave,
  .attempt (block [
    setupOrLeave,
    each (slots slotMask) fun _ => block [
      Xl3.rw crateNum,Xl3.multiLoadsDac crateNum,
      .call (each (List.range 2) fun _ => maybe (block [
        pedestalPoint crateNum,pedestalPoint crateNum,
        .many (pedestalPoint crateNum),maybe .leave])),
      Xl3.rw crateNum,Xl3.deselectFECs crateNum,updateSlot crateNum updateDB]])])

def discCheck : Calls := .call (.attempt (block [
  Mtc.resetMemory,Mtc.setGTCounter,setupOrLeave,
  each (List.range 16) fun _ => rws crateNum 6,Xl3.deselectFECs crateNum,
  Xl3.getCmosTotalCount crateNum (slotMask &&& 0xFF#32),
  Xl3.getCmosTotalCount crateNum (slotMask &&& 0xFF00#32),
  multiSoftGTs,
  Xl3.getCmosTotalCount crateNum (slotMask &&& 0xFF#32),
  Xl3.getCmosTotalCount crateNum (slotMask &&& 0xFF00#32),
  updateSlots crateNum slotMask updateDB]))

def fecTest : Calls := .attempt (block [
  Xl3.sendCommand crateNum,updateSlots crateNum slotMask updateDB,crateInit crateNum {}])

@[simp] def checkFifo : Calls := rws crateNum 3

def fifoTest : Calls := .call (block [
  maybe .leave,
  .attempt (block [
    Mtc.resetMemory,Mtc.setGTCounter,setupOrLeave,
    each (slots slotMask) fun _ => block [rws crateNum 2,maybe .leave],
    Xl3.setCratePedestals crateNum,
    each (slots slotMask) fun _ => block [checkFifo crateNum,Mtc.getGTCount],
    multiSoftGTs,
    each (slots slotMask) fun _ => block [
      Mtc.getGTCount,checkFifo crateNum,Xl3.setCratePedestals crateNum,
      multiSoftGTs,checkFifo crateNum,rws crateNum 12,checkFifo crateNum,
      multiSoftGTs,checkFifo crateNum,rws crateNum 2,rws crateNum 12,checkFifo crateNum,
      Xl3.rw crateNum,Xl3.readOutBundles crateNum,checkFifo crateNum,
      Xl3.readOutBundles crateNum,checkFifo crateNum,rws crateNum 12,
      Xl3.deselectFECs crateNum,updateSlot crateNum updateDB]])])

def localVMon : Calls := .attempt (Xl3.sendCommand crateNum)

def mbStabilityTest : Calls := .call (.attempt (block [
  Mtc.resetMemory,Mtc.setGTCounter,setupOrLeave,resetFECs crateNum,
  .many (block [
    each (slots slotMask) fun _ => maybe (Xl3.rw crateNum),
    Xl3.deselectFECs crateNum,Mtc.softGT,
    each (slots slotMask) fun _ => maybe (Xl3.rw crateNum),
    each (slots slotMask) fun _ =>
      maybe (block [.many (rws crateNum 4),Xl3.deselectFECs crateNum])]),
  updateSlots crateNum slotMask updateDB]))

def memTest : Calls := .attempt (block [
  Xl3.updateCrateConfig crateNum,Xl3.sendCommand crateNum,
  provided updateDB (postDebugDoc crateNum false)])

@[simp] def pulsePedestals : Calls := block [Mtc.regRead,multiSoftGTs,Mtc.disablePulser,Mtc.regRead]

def pedRun : Calls := .call (block [
  maybe .leave,
  .attempt (block [
    Xl3.changeMode crateNum,setupOrUnset,
    Xl3.rw crateNum,Xl3.sendCommand crateNum,Xl3.rw crateNum,
    each (slots slotMask) fun _ => rws crateNum 4,
    Xl3.deselectFECs crateNum,Xl3.loadCrateAddr crateNum slotMask,Xl3.rw crateNum,
    Xl3.setCratePedestals crateNum,Xl3.rw crateNum,Xl3.deselectFECs crateNum,maybe .leave,
    pulsePedestals,Xl3.rw crateNum,
    each (slots slotMask) fun _ => Xl3.readOutBundles crateNum,
    updateSlots crateNum slotMask updateDB,
    Mtc.unsetPedCrateMask,Mtc.unsetGTCrateMask,
    Xl3.setCratePedestals crateNum,Xl3.deselectFECs crateNum])])

def pedRunByChannel (slotNum : Int) : Calls := .call (block [
  maybe .leave,
  .attempt (block [
    Xl3.changeMode crateNum,setupOrUnset,
    Xl3.rw crateNum,Xl3.sendCommand crateNum,Xl3.rw crateNum,
    Xl3.deselectFECs crateNum,Xl3.loadCrateAddr crateNum (bit slotNum),Xl3.rw crateNum,
    Xl3.setCratePedestals crateNum,Xl3.rw crateNum,Xl3.deselectFECs crateNum,maybe .leave,
    pulsePedestals,Xl3.rw crateNum,Xl3.readOutBundles crateNum,
    Mtc.unsetPedCrateMask,Mtc.unsetGTCrateMask,
    Xl3.setCratePedestals crateNum,Xl3.deselectFECs crateNum])])

/- `CrateInit` and `PostDebugDoc` stand outside of every `try`. -/
def allPedRunByChannel (channelMask : BitVec 32) : Calls := block [
  crateInit crateNum { xilinxLoad := 1 },
  each (slots slotMask) fun slot => block [
    each (channels channelMask) fun _ => pedRunByChannel crateNum slot,
    updateSlot crateNum updateDB]]

@[simp] def stopPulser : Calls := block [Mtc.disablePulser,Xl3.deselectFECs crateNum]

def seeReflection (channelMask : BitVec 32) : Calls := .call (.attempt (block [
  setupOrUnset,
  each (slots slotMask) fun _ => block [
    crateInit crateNum {},
    each (channels channelMask) fun _ => block [
      Xl3.setCratePedestals crateNum,
      maybe (block [Mtc.disablePulser,Mtc.unsetPedCrateMask,Mtc.unsetGTCrateMask,.leave]),
      Xl3.setupChargeInjection crateNum,
      -- the operator may quit
      maybe (block [stopPulser crateNum,.leave])],
    Xl3.setupChargeInjection crateNum,crateInit crateNum {},updateSlot crateNum updateDB],
  stopPulser crateNum]))

def seeReflectionEsum : Calls := .call (.attempt (block [
  setupOrUnset,
  each (slots slotMask) fun _ => block [
    each (List.range 8) fun _ => block [
      Xl3.setupChargeInjection crateNum,maybe (block [stopPulser crateNum,.leave])],
    Xl3.setupChargeInjection crateNum,updateSlot crateNum updateDB],
  stopPulser crateNum]))

def vMon : Calls := .attempt (block [
  each (slots slotMask) fun _ => Xl3.sendCommand crateNum,updateSlots crateNum slotMask updateDB])

def zDisc : Calls := .attempt (each (slots slotMask) fun _ =>
  block [Xl3.sendCommand crateNum,updateSlot crateNum updateDB])

@[simp] def setDelay : Calls := block [Mtc.setGTDelay,.many Mtc.setGTDelay]

@[simp] def countPulses (slot : Nat) : Calls := block [
  Xl3.getCmosTotalCount crateNum (bit slot),Mtc.multiSoftGT,
  Xl3.getCmosTotalCount crateNum (bit slot)]

@[simp] def measureTTot : Calls := each (slots slotMask) fun slot => block [
  Xl3.setCratePedestals crateNum,
  .many (block [setDelay,countPulses crateNum slot]),
  each (List.range 32) fun _ => block [
    Xl3.setCratePedestals crateNum,setDelay,countPulses crateNum slot]]

@[simp] def checkTTot (slot : Nat) : Calls := block [
  Xl3.setCratePedestals crateNum,
  each (List.range 2) fun _ => block [setDelay,countPulses crateNum slot]]

@[simp] def setECALBit : Calls := .op .tubii

@[simp] def withECALBit (ecal : Bool) (test : Calls) : Calls := block [
  provided (!ecal) (.attempt setECALBit),test,provided (!ecal) (.attempt setECALBit)]

def getTTot (ecal : Bool) : Calls := withECALBit ecal (.attempt (block [
  Mtc.setupPedestals,measureTTot crateNum slotMask,updateSlots crateNum slotMask updateDB]))

def setTTot (ecal : Bool) : Calls := withECALBit ecal (.attempt (block [
  Mtc.setupPedestals,
  each (slots slotMask) fun slot => block [
    Xl3.multiLoadsDac crateNum,
    each (List.range 32) fun _ => checkTTot crateNum slot,
    Xl3.multiLoadsDac crateNum,
    .many (block [checkTTot crateNum slot,Xl3.multiLoadsDac crateNum]),
    Xl3.multiLoadsDac crateNum,measureTTot crateNum (bit slot),updateSlot crateNum updateDB]]))

@[simp] def singleDacSweep : Calls := .many (Xl3.loadsDac crateNum)

def numDacs : List Nat := [8,8,8,32,32,32,8,2,2,1,1,1,1]

def dacSweep (dacMask : BitVec 32) (dacNum : Int) : Calls := .call
  (each (slots slotMask) fun _ =>
    if dacNum = -1 then
      each ((List.range 13).filter (hasBit dacMask)) fun j =>
        each (List.range (numDacs.getD j 0)) fun _ =>
          block [singleDacSweep crateNum,maybe .leave]
    else singleDacSweep crateNum)

end OneCrate
end PennDaq.TestCalls
