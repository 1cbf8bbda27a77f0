import PennDaq.MaskCalls

/-! The two sequences of tests. `ECAL` takes its crates from the command or, with
`-l`, from the document of an earlier one. -/
namespace PennDaq.Sequences
open Lib.Skeleton
open LinkCalls TestCalls MaskCalls

structure DocumentCrate where
  crateId : Int
  slotIds : List Int
  deriving DecidableEq, Repr

/- What a command reads besides its line: the ECAL documents that the database
answers with, the slot masks that the detector database gives underground, if it
does, and the lines of the macro files. -/
structure Surroundings where
  ecalDocument : List Char → Option (List DocumentCrate)
  underground : Bool
  detectorSlotMask : BitVec 32 → SlotMasks → Option SlotMasks
  macroLines : List Char → Option (List (List Char))

structure Selection where
  crateMask : BitVec 32
  slotMasks : SlotMasks

def emptySelection : Selection := ⟨0#32,fun _ => 0#32⟩

/- A `crateId` outside of the array has its slots written beside it. -/
def addCrate (selection : Selection) (crate : DocumentCrate) : Selection where
  crateMask := selection.crateMask ||| bit crate.crateId
  slotMasks i := if (i : Int) = crate.crateId then
      crate.slotIds.foldl (fun slotMask slot => slotMask ||| bit slot) (selection.slotMasks i)
    else selection.slotMasks i

def documentSelection (document : List DocumentCrate) : Selection :=
  document.foldl addCrate emptySelection

/- The crates and slots that `ECAL` goes on with, unless it returns. -/
def selectBoards (around : Surroundings) (crateMask : BitVec 32) (slotMasks : SlotMasks)
    (loadECAL : List Char) : Option Selection :=
  if loadECAL = [] then some ⟨crateMask,slotMasks⟩
  else match around.ecalDocument loadECAL with
    | none => none
    | some document =>
      if crateMask = 0#32 ∧ slotMasks 0 = 0#32 then some (documentSelection document)
      else if crateMask = 0#32 ∨ slotMasks 0 = 0#32 then none
      else some ⟨crateMask,slotMasks⟩

def detectorBoards (around : Surroundings) (detectorFlag : Bool) (selection : Selection) :
    Option Selection :=
  if around.underground && detectorFlag then
    (around.detectorSlotMask selection.crateMask selection.slotMasks).map (⟨selection.crateMask,·⟩)
  else some selection

def allTests : BitVec 32 := 0xFFF#32
def quickTestMask : BitVec 32 := 0xF28#32

def selectTests (testMask : BitVec 32) (quickFlag : Bool) : BitVec 32 :=
  if (testMask = 0xFFFFFFFF#32 ∨ testMask &&& allTests = allTests) ∧ quickFlag = false then allTests
  else if testMask ≠ 0#32 then
    if quickFlag then testMask &&& quickTestMask else testMask
  else if quickFlag = false then testMask
  else quickTestMask

def onCrates (crateMask testMask : BitVec 32) (testCounter : Nat) (test : Nat → Calls) : Calls :=
  provided (hasBit testMask testCounter) (eachCrate crateMask test)

def initCrates (crateMask : BitVec 32) (flags : InitFlags) : Calls :=
  eachCrate crateMask fun i => crateInit i flags

/- A new ECAL gets its document before the first test. `PostECALDoc` and the last of
the tests have no `try` around them. -/
def ecalTests (boards : Selection) (testMask : BitVec 32) (newECAL : Bool) : Calls :=
  let slotMasks := boards.slotMasks
  let initAll := initCrates boards.crateMask
  let test := onCrates boards.crateMask testMask
  block [
    initAll { xilinxLoad := 1 },mtcInit true,
    provided newECAL (postECALDoc boards.crateMask slotMasks),
    test 0 fun i => fecTest i (slotMasks i) true,
    test 1 fun i => boardID i (slotMasks i),
    test 2 fun i => cgtTest i (slotMasks i) true,
    mtcInit true,initAll {},
    test 3 fun i => crateCBal i (slotMasks i) true,
    initAll { useVBal := true },
    test 4 fun i => pedRun i (slotMasks i) true,
    mtcInit true,initAll { useVBal := true },.attempt setECALBit,
    test 5 fun i => setTTot i (slotMasks i) true true,
    initAll { useVBal := true, useTDisc := true },
    test 6 fun i => getTTot i (slotMasks i) true true,
    .attempt setECALBit,initAll { useVBal := true, useTDisc := true },
    test 7 fun i => discCheck i (slotMasks i) true,
    mtcInit true,initAll { useVBal := true, useTDisc := true },
    -- runs on one crate at a time
    test 8 fun i => gtValidTest (bit i) slotMasks 0xFFFFFFFF#32 false true,
    mtcInit true,initAll { useVBal := true, useTDisc := true, useTCmos := true },
    test 9 fun i => zDisc i (slotMasks i) true,
    test 10 fun i => findNoise (bit i) slotMasks true true true,
    test 11 fun i => allPedRunByChannel i (slotMasks i) true 0xFFFFFFFF#32]

def ecal (around : Surroundings) (crateMask : BitVec 32) (slotMasks : SlotMasks)
    (testMask : BitVec 32) (quickFlag : Bool) (loadECAL : List Char) (detectorFlag : Bool) : Calls :=
  match (selectBoards around crateMask slotMasks loadECAL).bind (detectorBoards around detectorFlag) with
  | none => .skip
  | some boards =>
    let tests := selectTests testMask quickFlag
    .call (block [maybe .leave,provided (tests != 0#32) (ecalTests boards tests (loadECAL == []))])

/- The crate is initialised before the operator can quit. The documents are posted
outside of every `try`. -/
def finalTest (crateNum : Int) (slotMask testMask : BitVec 32) : Calls :=
  let updateDB := true
  let test := fun testCounter calls => provided (hasBit testMask testCounter) calls
  let xilinx := crateInit crateNum { xilinxLoad := 1 }
  .call (block [
    xilinx,maybe .leave,mtcInit true,maybe .leave,
    boardID crateNum slotMask,
    provided updateDB (each (slots slotMask) fun _ => postDebugDocWithID crateNum),
    test 0 (fecTest crateNum slotMask updateDB),test 1 (vMon crateNum slotMask updateDB),
    test 2 (cgtTest crateNum slotMask updateDB),
    xilinx,test 3 (pedRun crateNum slotMask updateDB),
    xilinx,mtcInit true,test 4 (crateCBal crateNum slotMask updateDB),
    crateInit crateNum { useVBal := true },
    test 5 (pedRun crateNum slotMask updateDB),test 6 (chinjScan crateNum slotMask updateDB),
    test 7 (setTTot crateNum slotMask updateDB false),
    crateInit crateNum { useVBal := true, useTDisc := true },
    test 8 (getTTot crateNum slotMask updateDB false),test 9 (discCheck crateNum slotMask updateDB),
    test 10 (gtValidTest (bit crateNum) (fun _ => slotMask) 0xFFFFFFFF#32 false updateDB),
    xilinx,test 11 (zDisc crateNum slotMask updateDB),
    mtcInit false,xilinx,
    test 12 (mbStabilityTest crateNum slotMask updateDB),test 13 (fifoTest crateNum slotMask updateDB),
    crateInit crateNum { xilinxLoad := 2 },test 14 (caldTest crateNum slotMask updateDB),
    each (slots slotMask) fun _ => block [xilinx,test 15 (memTest crateNum updateDB)],
    xilinx,test 16 (maybe (seeReflection crateNum slotMask updateDB 0xFFFFFFFF#32)),
    crateInit crateNum {}])

end PennDaq.Sequences
