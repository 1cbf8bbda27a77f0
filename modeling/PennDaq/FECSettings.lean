import Mathlib.Data.Fin.VecNotation
import PennDaq.Lib.CString
import PennDaq.Lib.JsonTree
import PennDaq.Lib.Mask

/-! The settings of one motherboard: the `MB` block, the readers that fill it from the
debug document and from a FEC document, and the swap of its bytes. -/
namespace PennDaq.FECSettings
open Lib.CString
open Lib.CNumber
open Lib.JsonTree
open Lib.Mask

@[ext] structure TDisc where
  rmp : Fin 8 → BitVec 8
  rmpup : Fin 8 → BitVec 8
  vsi : Fin 8 → BitVec 8
  vli : Fin 8 → BitVec 8

@[ext] structure TCmos where
  vMax : BitVec 8
  tacRef : BitVec 8
  isetm : Fin 2 → BitVec 8
  iseta : Fin 2 → BitVec 8
  tacShift : Fin 32 → BitVec 8

@[ext] structure Tr100 where
  mask : Fin 32 → BitVec 8
  tDelay : Fin 32 → BitVec 8

@[ext] structure Tr20 where
  mask : Fin 32 → BitVec 8
  tWidth : Fin 32 → BitVec 8
  tDelay : Fin 32 → BitVec 8

@[ext] structure MB where
  mbID : BitVec 16
  dbID : Fin 4 → BitVec 16
  vBal : Fin 2 → Fin 32 → BitVec 8
  vThr : Fin 32 → BitVec 8
  tDisc : TDisc
  tCmos : TCmos
  vInt : BitVec 8
  hvRef : BitVec 8
  tr100 : Tr100
  tr20 : Tr20
  sCmos : Fin 32 → BitVec 16
  disableMask : BitVec 32

def intOf (w : Nat) (node : Node) : BitVec w := toUInt w (getNumber node)

def byteOf (node : Node) : BitVec 8 := intOf 8 node

/- The channels whose `chan_disable` is not zero, as an integer. -/
def disableMaskOf (hw : Node) : BitVec 32 :=
  orBits 0#32 ((List.range 32).filter fun j =>
    truncate (getNumber (findElement (findMember hw "chan_disable") j)) ≠ 0)

/- The fields that both readers fill. The two documents have other names for two of
the members of `tcmos`. -/
def parseSettings (tacRef tacShift : String) (hw : Node) (mb : MB) : MB :=
  let tdisc := findMember hw "tdisc"
  let tcmos := findMember hw "tcmos"
  let tr100 := findMember hw "tr100"
  let tr20 := findMember hw "tr20"
  { mb with
    vBal := fun j k => byteOf (findElement (findElement (findMember hw "vbal") j) k)
    vThr := fun k => byteOf (findElement (findMember hw "vthr") k)
    tDisc := {
      rmp := fun j => byteOf (findElement (findMember tdisc "rmp") j)
      rmpup := fun j => byteOf (findElement (findMember tdisc "rmpup") j)
      vsi := fun j => byteOf (findElement (findMember tdisc "vsi") j)
      vli := fun j => byteOf (findElement (findMember tdisc "vli") j) }
    tCmos := {
      vMax := byteOf (findMember tcmos "vmax")
      tacRef := byteOf (findMember tcmos tacRef)
      isetm := fun j => byteOf (findElement (findMember tcmos "isetm") j)
      iseta := fun j => byteOf (findElement (findMember tcmos "iseta") j)
      tacShift := fun j => byteOf (findElement (findMember tcmos tacShift) j) }
    vInt := byteOf (findMember hw "vint")
    hvRef := byteOf (findMember hw "hvref")
    tr100 := {
      mask := fun j => byteOf (findElement (findMember tr100 "mask") j)
      tDelay := fun j => byteOf (findElement (findMember tr100 "delay") j) }
    tr20 := {
      mask := fun j => byteOf (findElement (findMember tr20 "mask") j)
      tWidth := fun j => byteOf (findElement (findMember tr20 "width") j)
      tDelay := fun j => byteOf (findElement (findMember tr20 "delay") j) }
    sCmos := fun j => intOf 16 (findElement (findMember hw "scmos") j)
    disableMask := disableMaskOf hw }

def parseFECDebug (value : Node) (mb : MB) : MB := parseSettings "tacref" "tac_shift" value mb

/- `strtoul` of a string of the document, which has to be there. -/
def idOf (node : Node) : Option (BitVec 16) :=
  (getString node).map fun s => BitVec.ofNat 16 (strtoul16 s.toList)

def parseFECHw (value : Node) (mb : MB) : Option MB := do
  let hw := findMember value "hw"
  -- `printf` of the id; a NULL pointer is nothing that it can print
  let _ ← getString (findMember value "_id")
  let id := findMember value "id"
  let mbID ← idOf (findMember value "board_id")
  let db0 ← idOf (findMember id "db0")
  let db1 ← idOf (findMember id "db1")
  let db2 ← idOf (findMember id "db2")
  let db3 ← idOf (findMember id "db3")
  return parseSettings "vtacref" "tac_trim" hw { mb with mbID := mbID, dbID := ![db0,db1,db2,db3] }

/- `SwapShortBlock` and `SwapLongBlock` on one word. -/
def swapShort (needToSwap : Bool) (x : BitVec 16) : BitVec 16 :=
  if needToSwap then ((x &&& 0x00FF#16) <<< 8) ||| ((x &&& 0xFF00#16) >>> 8) else x

def swapLong (needToSwap : Bool) (x : BitVec 32) : BitVec 32 :=
  if needToSwap then ((x &&& 0x000000FF#32) <<< 24) ||| ((x &&& 0x0000FF00#32) <<< 8) |||
    ((x &&& 0x00FF0000#32) >>> 8) ||| ((x &&& 0xFF000000#32) >>> 24)
  else x

def swapFECDB (needToSwap : Bool) (mb : MB) : MB :=
  { mb with
    mbID := swapShort needToSwap mb.mbID
    dbID := fun j => swapShort needToSwap (mb.dbID j)
    sCmos := fun j => swapShort needToSwap (mb.sCmos j)
    disableMask := swapLong needToSwap mb.disableMask }

theorem parseSettingsIds (tacRef tacShift : String) (hw : Node) (a b : MB) (mbID : a.mbID = b.mbID)
    (dbID : a.dbID = b.dbID) :
    parseSettings tacRef tacShift hw a = parseSettings tacRef tacShift hw b := by
  simp only [parseSettings, mbID, dbID]

theorem disableMaskMissing {hw : Node} (missing : findMember hw "chan_disable" = none) :
    disableMaskOf hw = 0xFFFFFFFF#32 := by
  have element (j : Nat) : findElement none j = none := rfl
  have minus : truncate (-1) = -1 := truncateInt (-1)
  unfold disableMaskOf
  simp only [missing, element, getNumberNone, minus]
  decide

end PennDaq.FECSettings
