import Mathlib.Data.BitVec
import PennDaq.Lib.Skeleton

/-! What the methods of `MTCModel` and `XL3Model`, `MTCCmds` and `XL3Cmds` do on the
links: which packets they send, in which order, and inside which `try`. Data is
left out where it decides nothing about that; what an answer or a database
document decides is left open. -/
namespace PennDaq.LinkCalls
open Lib.Skeleton

/- One exchange on a link, or the opening of one. `acks` waits for answers to a
command that has been sent before. -/
inductive Op where
  | xl3 (crateNum : Int)
  | acks (crateNum : Int)
  | sbc
  | tubii
  deriving DecidableEq, Repr

abbrev Calls := Prog Op

def hasBit (mask : BitVec 32) (i : Nat) : Bool := (1#32 <<< i) &&& mask != 0#32

def slots (slotMask : BitVec 32) : List Nat := (List.range 16).filter (hasBit slotMask)

namespace Mtc

def sendCommand : Calls := .op .sbc
@[simp] def regRead : Calls := sendCommand
@[simp] def regWrite : Calls := sendCommand
@[simp] def getGTCount : Calls := regRead
@[simp] def softGT : Calls := regWrite
@[simp] def multiSoftGT : Calls := sendCommand
def connect : Calls := .op .sbc

def toggle : Calls := block [regRead,regWrite]

@[simp] def enablePulser : Calls := toggle
@[simp] def disablePulser : Calls := toggle
@[simp] def enablePedestal : Calls := toggle
@[simp] def disablePedestal : Calls := toggle
@[simp] def setGTMask : Calls := toggle
@[simp] def unsetGTMask : Calls := toggle
@[simp] def setPedCrateMask : Calls := toggle
@[simp] def unsetPedCrateMask : Calls := toggle
@[simp] def setGTCrateMask : Calls := toggle
@[simp] def unsetGTCrateMask : Calls := toggle

def load : Calls := block [toggle,toggle]

def setLockoutWidth : Calls := .call (block [maybe .leave,regWrite,load])
def setPrescale : Calls := .call (block [maybe .leave,regWrite,load])
def setPedestalWidth : Calls := .call (block [maybe .leave,regWrite,load])
def setCoarseDelay : Calls := .call (block [maybe .leave,regWrite,load])
def setFineDelay : Calls := .call (block [maybe .leave,regWrite,load])

def shiftIn : Calls := each (List.range 24) fun _ => block [regWrite,toggle]

def setGTCounter : Calls := block [shiftIn,load]
def setPulserFrequency : Calls := .call (block [maybe .leave,shiftIn,load])

def setGTDelay : Calls := block [setCoarseDelay,setFineDelay]

def resetMemory : Calls := block [load,regWrite]

def loadMTCADacsByCounts : Calls :=
  block [regWrite,each (List.range 4) fun _ => block [regWrite,regWrite],
    each (List.range 12) fun _ => block [regWrite,regWrite,regWrite],regWrite]

@[simp] def loadMTCADacs : Calls := loadMTCADacsByCounts

def xilinxLoad : Calls := .call (block [maybe .leave,.op .sbc])

def setupPedestals : Calls := .call (block [
  setLockoutWidth,maybe setPulserFrequency,maybe setPedestalWidth,maybe setCoarseDelay,
  maybe setFineDelay,maybe .leave,
  enablePulser,enablePedestal,unsetPedCrateMask,unsetGTCrateMask,
  setPedCrateMask,setGTCrateMask,setGTMask])

@[simp] theorem basicPasses : passes sendCommand ∧ passes toggle ∧ passes load ∧ passes shiftIn := by
  simp [sendCommand, toggle, load, shiftIn]

@[simp] theorem setterPasses :
    passes setLockoutWidth ∧ passes setPrescale ∧ passes setPedestalWidth ∧ passes setCoarseDelay ∧
    passes setFineDelay ∧ passes setPulserFrequency ∧ passes setGTCounter ∧ passes setGTDelay ∧
    passes resetMemory ∧ passes loadMTCADacsByCounts ∧ passes xilinxLoad := by
  simp [setLockoutWidth, setPrescale, setPedestalWidth, setCoarseDelay, setFineDelay,
    setPulserFrequency, setGTCounter, setGTDelay, resetMemory, loadMTCADacsByCounts, xilinxLoad]

@[simp] theorem setupPasses : passes setupPedestals := by simp [setupPedestals]

section Ops
variable (holds : Op → Prop)

theorem someTimes (n : Nat) (p : Prop) : (∀ i < n + 1, p) ↔ p :=
  ⟨fun all => all 0 (Nat.succ_pos n), fun always _ _ => always⟩

@[simp] theorem basicOps :
    (allOps holds sendCommand ↔ holds .sbc) ∧ (allOps holds toggle ↔ holds .sbc) ∧
    (allOps holds load ↔ holds .sbc) ∧ (allOps holds shiftIn ↔ holds .sbc) := by
  simp [sendCommand, toggle, load, shiftIn, someTimes]

@[simp] theorem setterOps :
    (allOps holds setLockoutWidth ↔ holds .sbc) ∧ (allOps holds setPrescale ↔ holds .sbc) ∧
    (allOps holds setPedestalWidth ↔ holds .sbc) ∧ (allOps holds setCoarseDelay ↔ holds .sbc) ∧
    (allOps holds setFineDelay ↔ holds .sbc) ∧ (allOps holds setPulserFrequency ↔ holds .sbc) ∧
    (allOps holds setGTCounter ↔ holds .sbc) ∧ (allOps holds setGTDelay ↔ holds .sbc) ∧
    (allOps holds resetMemory ↔ holds .sbc) ∧ (allOps holds loadMTCADacsByCounts ↔ holds .sbc) ∧
    (allOps holds xilinxLoad ↔ holds .sbc) := by
  simp [setLockoutWidth, setPrescale, setPedestalWidth, setCoarseDelay, setFineDelay,
    setPulserFrequency, setGTCounter, setGTDelay, resetMemory, loadMTCADacsByCounts, xilinxLoad,
    someTimes]

@[simp] theorem setupOps : allOps holds setupPedestals ↔ holds .sbc := by simp [setupPedestals]

end Ops
end Mtc

namespace Xl3

variable (crateNum : Int)

@[simp] def sendCommand : Calls := .op (.xl3 crateNum)
@[simp] def getMultiFCResults : Calls := .op (.acks crateNum)
@[simp] def getCaldTestResults : Calls := .op (.acks crateNum)
@[simp] def rw : Calls := sendCommand crateNum
@[simp] def deselectFECs : Calls := sendCommand crateNum
@[simp] def changeMode : Calls := sendCommand crateNum
@[simp] def loadsDac : Calls := sendCommand crateNum
@[simp] def multiLoadsDac : Calls := sendCommand crateNum
@[simp] def setCratePedestals : Calls := sendCommand crateNum
@[simp] def setupChargeInjection : Calls := sendCommand crateNum
@[simp] def loadTacbits : Calls := sendCommand crateNum
@[simp] def setAlarmDacs : Calls := sendCommand crateNum

/- The handler throws again what it catches. -/
@[simp] def updateCrateConfig : Calls := block [sendCommand crateNum,deselectFECs crateNum]

@[simp] def getCmosTotalCount (slotMask : BitVec 32) : Calls :=
  provided (slotMask.setWidth 16 != 0#16) (sendCommand crateNum)

@[simp] def loadCrateAddr (slotMask : BitVec 32) : Calls :=
  block [each (slots slotMask) fun _ => rw crateNum,deselectFECs crateNum]

@[simp] def readOutBundles : Calls := block [
  rw crateNum,.many (block [sendCommand crateNum,maybe (getMultiFCResults crateNum)]),
  deselectFECs crateNum]

end Xl3

@[simp] def postDebugDoc (crateNum : Int) (updateConfig : Bool) : Calls :=
  provided updateConfig (Xl3.updateCrateConfig crateNum)

@[simp] def postDebugDocWithID (crateNum : Int) : Calls := Xl3.updateCrateConfig crateNum

def sbcControl (connect : Bool) : Calls := .attempt (provided connect Mtc.connect)

def mtcInit (xilinx : Bool) : Calls := .call (.attempt (block [
  provided xilinx (block [Mtc.xilinxLoad,maybe .leave]),
  -- the database may be out of reach
  maybe .leave,
  Mtc.unsetGTMask,Mtc.unsetPedCrateMask,Mtc.unsetGTCrateMask,Mtc.loadMTCADacs,Mtc.regWrite,
  Mtc.setLockoutWidth,Mtc.setGTCounter,Mtc.setPrescale,Mtc.setPulserFrequency,
  Mtc.setPedestalWidth,Mtc.setCoarseDelay,Mtc.setFineDelay,Mtc.resetMemory]))

@[simp] def mtcRead : Calls := .attempt Mtc.regRead
@[simp] def mtcWrite : Calls := .attempt Mtc.regWrite
@[simp] def mtcDelay : Calls := Mtc.setGTDelay

section XL3Cmds
variable (crateNum : Int)

@[simp] def xl3RW : Calls := .attempt (Xl3.rw crateNum)
@[simp] def xl3QueueRW : Calls := .attempt (block [Xl3.sendCommand crateNum,Xl3.getMultiFCResults crateNum])
@[simp] def smReset : Calls := .attempt (Xl3.sendCommand crateNum)
@[simp] def debuggingMode : Calls := .attempt (Xl3.sendCommand crateNum)
@[simp] def setRelays : Calls := .attempt (Xl3.sendCommand crateNum)
@[simp] def getRelays : Calls := .attempt (Xl3.sendCommand crateNum)
@[simp] def changeMode : Calls := .attempt (Xl3.sendCommand crateNum)
@[simp] def readLocalVoltage : Calls := .attempt (Xl3.sendCommand crateNum)
@[simp] def hvReadback : Calls := .attempt (Xl3.sendCommand crateNum)
@[simp] def setAlarmDac : Calls := .attempt (Xl3.setAlarmDacs crateNum)
@[simp] def setAlarmLevel : Calls := .attempt (Xl3.sendCommand crateNum)
@[simp] def checkXL3Status : Calls := .attempt (Xl3.sendCommand crateNum)

@[simp] def loadRelays : Calls := .attempt (block [
  each (List.range 64) fun _ => block [Xl3.rw crateNum,Xl3.rw crateNum,Xl3.rw crateNum],
  Xl3.rw crateNum])

@[simp] def readBundle : Calls :=
  .call (.attempt (block [Xl3.rw crateNum,Xl3.rw crateNum,Xl3.rw crateNum,maybe .leave]))

end XL3Cmds

structure InitFlags where
  xilinxLoad : Nat := 0
  useVBal : Bool := false
  useVThr : Bool := false
  useTDisc : Bool := false
  useTCmos : Bool := false
  useAll : Bool := false
  deriving DecidableEq, Repr

def InitFlags.update (flags : InitFlags) : Bool :=
  flags.useVBal || flags.useVThr || flags.useTDisc || flags.useTCmos || flags.useAll

/- The reset that loads the Xilinx stands in front of the `try`. -/
def crateInit (crateNum : Int) (flags : InitFlags) : Calls := .call (block [
  provided (flags.xilinxLoad != 0) (block [Xl3.sendCommand crateNum,maybe .leave]),
  .attempt (block [
    maybe .leave,
    provided flags.update (Xl3.updateCrateConfig crateNum),
    each (List.range 16) fun _ => block [maybe .leave,Xl3.sendCommand crateNum],
    maybe .leave,
    Xl3.sendCommand crateNum])])

end PennDaq.LinkCalls
