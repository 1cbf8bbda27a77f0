import PennDaq.Lib.Scan
import PennDaq.Lib.Sweep
import PennDaq.Pedestals
import PennDaq.TriggerCounts

/-! `AllPedRunByChannel`: a run for each channel, whose flag and extremes come back over a
return value and global variables, and a document for each slot. -/
namespace PennDaq.PedRunByChannel
open Lib.Loop
open Lib.Scan
open Pedestals
open TriggerCounts

structure Channel where
  crateNum : ℤ
  slotNum : Fin 16
  channelNum : Fin 32
  deriving DecidableEq

structure Args where
  crateNum : ℤ
  slotMask : BitVec 32
  channelMask : BitVec 32
  frequency : ℚ
  numPedestals : ℤ
  upper : ℤ
  lower : ℤ
  updateDB : Bool

inductive Op where
  | changeMode
  | setupPedestals
  | unsetPedCrateMask
  | unsetGTCrateMask
  | readDiff
  | resetFifos
  | deselectFECs
  | loadCrateAddr
  | setCratePedestals
  | regRead
  | multiSoftGT
  | disablePulser
  | readOutBundles
  deriving DecidableEq

/- What a run finds: what each operation returns the first time, the second time and so
on, nothing where it throws; whether both buffers are allocated, and what they hold. -/
structure Env where
  reply : Op → ℕ → Option ℤ
  buffers : Bool
  pmtBuffer : ℕ → BitVec 32
  ped : Ped

inductive Fault where
  | returned
  | thrown
  deriving DecidableEq

def link (env : Env) (op : Op) (n : ℕ) : Except Fault ℤ :=
  match env.reply op n with
  | some value => .ok value
  | none => .error .thrown

def setUp (env : Env) : Except Fault Unit := do
  if env.buffers then
    let _ ← link env .changeMode 0
    let errors ← link env .setupPedestals 0
    if errors ≠ 0 then
      let _ ← link env .unsetPedCrateMask 0
      let _ ← link env .unsetGTCrateMask 0
      throw .returned
    let _ ← link env .readDiff 0
    let _ ← link env .resetFifos 0
    let _ ← link env .readDiff 1
    let _ ← link env .deselectFECs 0
    let errors ← link env .loadCrateAddr 0
    let _ ← link env .readDiff 2
    let errors' ← link env .setCratePedestals 0
    let _ ← link env .readDiff 3
    let _ ← link env .deselectFECs 1
    if errors+errors' ≠ 0 then throw .returned
  else throw .returned

def sendPedestals (a : Args) (env : Env) : Except Fault Unit := do
  if a.frequency = 0 then
    (List.range ((a.numPedestals*16+999)/1000).toNat).forM fun n => discard (link env .multiSoftGT n)
  let _ ← link env .disablePulser 0

structure ReadOut where
  totalPulses : BitVec 32
  bundles : List Bundles.Bundle

def readOut (a : Args) (env : Env) : Except Fault ReadOut := do
  let beforeGT ← link env .regRead 0
  sendPedestals a env
  let afterGT ← link env .regRead 1
  let _ ← link env .readDiff 4
  let count ← link env .readOutBundles 0
  return ⟨pedRunByChannelPulses (BitVec.ofInt 32 beforeGT) (BitVec.ofInt 32 afterGT),
    bundlesIn (3*count.toNat) env.pmtBuffer⟩

def prepare (a : Args) (env : Env) : Except Fault ReadOut := do
  setUp env
  readOut a env

/- `disable triggers` and `turn off pedestals`. -/
def turnOff (env : Env) : Option Unit := do
  let _ ← env.reply .unsetPedCrateMask 1
  let _ ← env.reply .unsetGTCrateMask 1
  let _ ← env.reply .setCratePedestals 1
  let _ ← env.reply .deselectFECs 2

structure Extremes where
  qhsMax : ℚ
  qhlMax : ℚ
  qlxMax : ℚ
  qhsMin : ℚ
  qhlMin : ℚ
  qlxMin : ℚ

def extremesOf (p : Pedestal) : Extremes :=
  let largest (q : Quantity) : ℚ := (List.finRange 16).foldl (fun most j =>
    if (p.thiscell j).bar q > most then (p.thiscell j).bar q else most) 0
  let least (q : Quantity) : ℚ := (List.finRange 16).foldl (fun few j =>
    if (p.thiscell j).bar q < few then (p.thiscell j).bar q else few) 4095
  ⟨largest .qhs,largest .qhl,largest .qlx,least .qhs,least .qhl,least .qlx⟩

/- `totalPulses/16` is a division of integers. -/
def CountOff (totalPulses : BitVec 32) (c : Cell) : Prop :=
  (c.perCell.toNat : ℚ) < (totalPulses.toNat/16 : ℕ)*(8/10) ∨ (c.perCell.toNat : ℚ) > (totalPulses.toNat/16 : ℕ)*(12/10)

def MeanOff (a : Args) (c : Cell) : Prop :=
  c.bar .qhl < a.lower ∨ c.bar .qhl > a.upper ∨ c.bar .qhs < a.lower ∨ c.bar .qhs > a.upper ∨
    c.bar .qlx < a.lower ∨ c.bar .qlx > a.upper

instance (totalPulses : BitVec 32) (c : Cell) : Decidable (CountOff totalPulses c) := by
  unfold CountOff
  infer_instance

instance (a : Args) (c : Cell) : Decidable (MeanOff a c) := by
  unfold MeanOff
  infer_instance

def flagCell (a : Args) (totalPulses : BitVec 32) (errorFlag : BitVec 32) (c : Cell) : BitVec 32 :=
  let errorFlag := if CountOff totalPulses c then errorFlag ||| 0x1 else errorFlag
  if MeanOff a c then errorFlag ||| 0x2 else errorFlag

def flagOf (a : Args) (totalPulses : BitVec 32) (p : Pedestal) : BitVec 32 :=
  (List.finRange 16).foldl (fun errorFlag j => flagCell a totalPulses errorFlag (p.thiscell j)) 0

def measured (a : Args) (channelNum : Fin 32) (env : Env) (r : ReadOut) : Pedestal :=
  Pedestals.pedRunByChannel a.crateNum channelNum env.ped r.bundles

/- `qhs_max` to `qlx_min`, and the channel that they were measured on, if any. -/
structure Globals where
  extremes : Extremes
  source : Option Channel

structure Returned where
  errorFlag : BitVec 32
  globals : Globals

def pedRunByChannel (a : Args) (slotNum : Fin 16) (channelNum : Fin 32) (env : Env) (g : Globals) : Returned :=
  match prepare a env with
  | .error .returned => ⟨BitVec.ofInt 32 (-1),g⟩
  | .error .thrown => ⟨0,g⟩
  | .ok r =>
    let globals : Globals := ⟨extremesOf (measured a channelNum env r),some ⟨a.crateNum,slotNum,channelNum⟩⟩
    let errorFlag := flagOf a r.totalPulses (measured a channelNum env r)
    match turnOff env with
    | some _ => ⟨errorFlag,globals⟩
    | none => ⟨errorFlag,globals⟩

structure Document where
  slot : Fin 16
  errors : Fin 32 → Option (BitVec 32)
  extremes : Fin 32 → Option Globals

structure State where
  globals : Globals
  errorFlags : Fin 32 → Option (BitVec 32)
  extremes : Fin 32 → Option Globals
  docs : List Document

/- `crateInit` and `post` are false where a link throws: neither exception is caught. -/
structure Hardware where
  crateInit : Bool
  run : Fin 16 → Fin 32 → Env
  post : Fin 16 → Bool

section All
variable (a : Args) (hardware : Hardware)

def runChannel (slot : Fin 16) (s : State) (ch : Fin 32) : State :=
  if a.channelMask.getLsbD ch then
    let r := pedRunByChannel a slot ch (hardware.run slot ch) s.globals
    { s with
      globals := r.globals
      errorFlags := Function.update s.errorFlags ch (some r.errorFlag)
      extremes := Function.update s.extremes ch (some r.globals) }
  else s

def runSlot (s : State) (slot : Fin 16) : Turn State State :=
  if a.slotMask.getLsbD slot then
    let s := (List.finRange 32).foldl (runChannel a hardware slot) s
    if a.updateDB then
      if hardware.post slot then .again { s with docs := s.docs ++ [⟨slot,s.errorFlags,s.extremes⟩] } else .stop s
    else .again s
  else .again s

def allPedRunByChannel (g : Globals) : List Document :=
  if hardware.crateInit then (scan (runSlot a hardware) (List.finRange 16) ⟨g,fun _ => none,fun _ => none,[]⟩).docs else []

end All
end PennDaq.PedRunByChannel
