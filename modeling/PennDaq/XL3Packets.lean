import Mathlib.Tactic.IntervalCases
import PennDaq.FECSettings
import PennDaq.Lib.Block
import PennDaq.XL3Model

/-! The packets between an XL3 and the DAQ. A payload is what the host, which is little
endian, sees in its 1440 bytes: 360 words, or 720 shorts. -/
namespace PennDaq.XL3Packets
open Lib.Block
open FECSettings (swapShort swapLong)
open XL3Model (Header)

def payloadWords : Nat := 360

theorem somePayload : 0 < payloadWords := by decide

abbrev Payload := Fin payloadWords → BitVec 32

structure XL3Packet where
  header : Header
  payload : Payload

def swapLongBlock (needToSwap : Bool) (first count : Nat) (payload : Payload) : Option Payload :=
  if needToSwap then mapCells (swapLong needToSwap) first count payload else some payload

def shorts (payload : Payload) : Fin 720 → BitVec 16 :=
  fun i => (payload ⟨i/2, by unfold payloadWords; omega⟩).extractLsb' (16*(i%2)) 16

structure Command where
  cmdNum : BitVec 32
  packetNum : BitVec 16
  flags : BitVec 16
  address : BitVec 32
  data : BitVec 32
  deriving DecidableEq, Repr

def maxAcksPerPacket : Nat := 80

def recordWord (i : Nat) : Nat := 1 + 4*i

def recordAt (payload : Payload) (first : Nat) : Option Command := do
  let cmdNum ← cell payload first
  let second ← cell payload (first+1)
  let address ← cell payload (first+2)
  let data ← cell payload (first+3)
  return ⟨cmdNum, second.extractLsb' 0 16, second.extractLsb' 16 16, address, data⟩

def fastCmdId : UInt8 := 0x20
def multiLoadsDacId : UInt8 := 0x28
def deselectFECsId : UInt8 := 0x29
def readPedestalsId : UInt8 := 0x2A
def caldTestId : UInt8 := 0x65
def caldResponseId : UInt8 := 0xAA

theorem swapLongTwice (needToSwap : Bool) (x : BitVec 32) :
    swapLong needToSwap (swapLong needToSwap x) = x := by
  cases needToSwap with
  | false => rfl
  | true =>
    apply BitVec.eq_of_getLsbD_eq
    intro i inside
    simp only [swapLong, if_true, BitVec.getLsbD_and, BitVec.getLsbD_or, BitVec.getLsbD_shiftLeft,
      BitVec.getLsbD_ushiftRight]
    interval_cases i <;> simp

theorem swapLongBlockInside (needToSwap : Bool) (first count : Nat) (payload : Payload) :
    (∃ after, swapLongBlock needToSwap first count payload = some after) ↔
      (needToSwap = true → first + count ≤ payloadWords) := by
  unfold swapLongBlock
  cases needToSwap with
  | false => simp
  | true => simp [mapCellsInside]

theorem cellSwapped {needToSwap : Bool} {first count : Nat} {payload after : Payload}
    (swapped : swapLongBlock needToSwap first count payload = some after) (i : Nat) :
    cell after i = if first ≤ i ∧ i < first + count then (cell payload i).map (swapLong needToSwap)
      else cell payload i := by
  unfold swapLongBlock at swapped
  cases needToSwap with
  | false =>
    cases Option.some.inj swapped
    have same : swapLong false = id := rfl
    simp only [same, Option.map_id, id, ite_self]
  | true => exact cellMapped swapped i

end PennDaq.XL3Packets
