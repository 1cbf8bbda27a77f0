import PennDaq.Lib.CString
import PennDaq.Lib.JsonTree
import PennDaq.Lib.Mask
import PennDaq.Globals
import PennDaq.Sequences

/-! The ECAL document: `PostECALDoc` writes the selection of crates and slots, and
`ECAL`, `CreateFECDocs` and `CreateFECDBDoc` read it. -/
namespace PennDaq.ECALDocument
open Lib.CString
open Lib.JsonTree
open Lib.Mask
open Globals LinkCalls TestCalls MaskCalls Sequences

structure FECConfiguration where
  mbID : BitVec 16
  dbID : Fin 4 → BitVec 16

abbrev Boards := Nat → Nat → FECConfiguration

def hexString (n : BitVec 16) : Json := .string (String.ofList (hex4 n))

def slotEntry (config : FECConfiguration) (j : Nat) : Json :=
  .object [("slot_id",ofNat j),
    ("mb_id",hexString config.mbID),
    ("db0_id",hexString (config.dbID 0)),
    ("db1_id",hexString (config.dbID 1)),
    ("db2_id",hexString (config.dbID 2)),
    ("db3_id",hexString (config.dbID 3))]

def slotMaskString (slotMask : BitVec 32) : Json := hexString (slotMask.setWidth 16)

def crateEntry (boards : Boards) (slotMasks : SlotMasks) (i : Nat) : Json :=
  .object [("crate_id",ofNat i),
    ("slot_mask",slotMaskString (slotMasks i)),
    ("slots",.array ((slots (slotMasks i)).map fun j => slotEntry (boards i j) j))]

def selectedCrates (crateMask : BitVec 32) : List Nat :=
  (List.range maxXL3Con).filter (hasBit crateMask)

def settingsOf (initDoc : Node) : Option Json := do
  let tr100 ← findMember initDoc "tr100"
  let tr20 ← findMember initDoc "tr20"
  let scmos ← findMember initDoc "scmos"
  return .object [("vint",.number (getNumber (findMember initDoc "vint"))),
    ("hvref",.number (getNumber (findMember initDoc "hvref"))),
    ("tr100",tr100),("tr20",tr20),("scmos",scmos)]

structure Stamp where
  timestamp : ℕ
  created : String
  formatted : String
  logfile : String

def postECALDoc (initDoc : Node) (boards : Boards) (stamp : Stamp) (crateMask : BitVec 32)
    (slotMasks : SlotMasks) : Option Json := do
  let settings ← settingsOf initDoc
  return .object [("settings",settings),
    ("crates",.array ((selectedCrates crateMask).map (crateEntry boards slotMasks))),
    ("logfile_name",.string stamp.logfile),
    ("type",.string "ecal"),
    ("timestamp",ofNat stamp.timestamp),
    ("created",.string stamp.created),
    ("formatted_timestamp",.string stamp.formatted)]

def readCrate (oneCrate : Node) : DocumentCrate where
  crateId := Lib.CNumber.truncate (getNumber (findMember oneCrate "crate_id"))
  slotIds := (loopOver (findMember oneCrate "slots")).map fun oneSlot =>
    Lib.CNumber.truncate (getNumber (findMember oneSlot "slot_id"))

def readCrates (ecalDoc : Node) : List DocumentCrate :=
  (loopOver (findMember ecalDoc "crates")).map readCrate

/- `ECAL -l`, where the masks are cleared first if none was given. -/
def ecalLoop (ecalDoc : Node) (crateMask : BitVec 32) (slotMasks : SlotMasks) : Option Selection :=
  if crateMask = 0#32 ∧ slotMasks 0 = 0#32 then some (documentSelection (readCrates ecalDoc))
  else if crateMask = 0#32 ∨ slotMasks 0 = 0#32 then none
  else some ⟨crateMask,slotMasks⟩

/- `CreateFECDocs` has the same loop under the same test. -/
def createFECDocsLoop (ecalDoc : Node) (crateMask : BitVec 32) (slotMasks : SlotMasks) :
    Option Selection :=
  if crateMask = 0#32 ∧ slotMasks 0 = 0#32 then some (documentSelection (readCrates ecalDoc))
  else if crateMask = 0#32 ∨ slotMasks 0 = 0#32 then none
  else some ⟨crateMask,slotMasks⟩

/- The `break` of `CreateFECDBDoc` leaves the loop over the slots only, so that a
later crate of the same id counts. -/
def findConfig (ecalDoc : Node) (crate card : Int) : Option Node :=
  (loopOver (findMember ecalDoc "crates")).foldl (fun config oneCrate =>
    if getNumber (findMember oneCrate "crate_id") = crate then
      ((loopOver (findMember oneCrate "slots")).find? fun oneSlot =>
        getNumber (findMember oneSlot "slot_id") = card).or config
    else config) none

theorem readCrateEntry (boards : Boards) (slotMasks : SlotMasks) (i : Nat) :
    readCrate (some (crateEntry boards slotMasks i)) = ⟨i,(slots (slotMasks i)).map Nat.cast⟩ := by
  have crate : findMember (some (crateEntry boards slotMasks i)) "crate_id" = some (ofNat i) := rfl
  have list : findMember (some (crateEntry boards slotMasks i)) "slots" =
      some (.array ((slots (slotMasks i)).map fun j => slotEntry (boards i j) j)) := rfl
  have slot (j : Nat) : findMember (some (slotEntry (boards i j) j)) "slot_id" = some (ofNat j) := rfl
  simp only [readCrate, crate, list, getNumberNat, Lib.CNumber.truncateNat, loopOverArray,
    List.map_map, DocumentCrate.mk.injEq, true_and]
  refine List.map_congr_left fun j _ => ?_
  simp only [Function.comp_apply, slot, getNumberNat, Lib.CNumber.truncateNat]

theorem bitNat {n : Nat} (h : n < 32) : bit n = 1#32 <<< n := by
  have same : ((n : Int) % 32).toNat = n := by omega
  rw [bit, same]

theorem foldBits (mask : BitVec 32) {bits : List Nat} (small : ∀ j ∈ bits, j < 32) :
    (bits.map (Nat.cast : Nat → Int)).foldl (fun mask j => mask ||| bit j) mask = orBits mask bits := by
  induction bits generalizing mask with
  | nil => rfl
  | cons j bits ih =>
    have rest := fun k mem => small k (List.mem_cons_of_mem j mem)
    rw [List.map_cons, List.foldl_cons, ih _ rest, bitNat (small j List.mem_cons_self)]
    rfl

theorem slotsSmall {slotMask : BitVec 32} : ∀ j ∈ slots slotMask, j < 32 := by
  intro j mem
  have inside := List.mem_range.mp (List.mem_filter.mp mem).1
  omega

theorem foldCrates (slotMasks : SlotMasks) {crates : List Nat} (small : ∀ i ∈ crates, i < 32)
    (once : crates.Nodup) (start : Selection) :
    let done := (crates.map fun i : Nat => (⟨i,(slots (slotMasks i)).map Nat.cast⟩ : DocumentCrate)).foldl
      addCrate start
    done.crateMask = orBits start.crateMask crates ∧ ∀ k, done.slotMasks k =
      if k ∈ crates then orBits (start.slotMasks k) (slots (slotMasks k)) else start.slotMasks k := by
  induction crates generalizing start with
  | nil => exact ⟨rfl, fun k => rfl⟩
  | cons i crates ih =>
    obtain ⟨fresh, once⟩ := List.nodup_cons.mp once
    have rest := fun k mem => small k (List.mem_cons_of_mem i mem)
    obtain ⟨mask, masks⟩ := ih rest once (addCrate start ⟨i,(slots (slotMasks i)).map Nat.cast⟩)
    refine ⟨?_, fun k => ?_⟩
    · rw [List.map_cons, List.foldl_cons, mask, addCrate, bitNat (small i List.mem_cons_self)]
      rfl
    · rw [List.map_cons, List.foldl_cons, masks k]
      simp only [addCrate, foldBits _ slotsSmall, Nat.cast_inj, List.mem_cons]
      by_cases here : k = i
      · subst here
        simp [fresh]
      · simp [here]

theorem selectedMem {crateMask : BitVec 32} {i : Nat} :
    i ∈ selectedCrates crateMask ↔ i < maxXL3Con ∧ crateMask.getLsbD i = true := by
  rw [selectedCrates, List.mem_filter, List.mem_range, hasBit, testedBit]

theorem slotsMem {slotMask : BitVec 32} {j : Nat} :
    j ∈ slots slotMask ↔ j < 16 ∧ slotMask.getLsbD j = true := by
  rw [slots, List.mem_filter, List.mem_range, hasBit, testedBit]

theorem bitBelow {w n j : Nat} {mask : BitVec w} (small : mask.toNat < 2^n)
    (set : mask.getLsbD j = true) : j < n := by
  by_contra outside
  have high : mask.toNat < 2^j :=
    Nat.lt_of_lt_of_le small (Nat.pow_le_pow_right (by decide) (Nat.le_of_not_lt outside))
  rw [BitVec.getLsbD, Nat.testBit_lt_two_pow high] at set
  contradiction

structure Selects (crateMask : BitVec 32) (slotMasks : SlotMasks) (s : Selection) : Prop where
  crates : s.crateMask = crateMask
  slots : ∀ i, s.slotMasks i = if crateMask.getLsbD i then slotMasks i else 0#32

theorem documentSelects {crateMask : BitVec 32} (crates : crateMask.toNat < 2^maxXL3Con)
    {slotMasks : SlotMasks} (wide : ∀ i, (slotMasks i).toNat < 2^16) (boards : Boards) :
    Selects crateMask slotMasks (documentSelection
      ((((selectedCrates crateMask).map (crateEntry boards slotMasks)).map some).map readCrate)) := by
  have read : (((selectedCrates crateMask).map (crateEntry boards slotMasks)).map some).map readCrate =
      (selectedCrates crateMask).map fun i : Nat => ⟨i,(slots (slotMasks i)).map Nat.cast⟩ := by
    simp only [List.map_map]
    exact List.map_congr_left fun i _ => readCrateEntry boards slotMasks i
  have small : ∀ i ∈ selectedCrates crateMask, i < 32 := by
    intro i mem
    exact Nat.lt_trans (selectedMem.mp mem).1 (by decide)
  have once : (selectedCrates crateMask).Nodup := List.nodup_range.filter _
  obtain ⟨mask, masks⟩ := foldCrates slotMasks small once emptySelection
  have tested : hasBit crateMask = fun j => crateMask.getLsbD j :=
    funext fun j => testedBit crateMask j
  rw [read]
  refine ⟨?_, fun i => ?_⟩
  · rw [documentSelection, mask, selectedCrates, tested]
    exact orBitsFilter crateMask crates
  · have testedSlot : hasBit (slotMasks i) = fun j => (slotMasks i).getLsbD j :=
      funext fun j => testedBit (slotMasks i) j
    have whole : orBits 0#32 (slots (slotMasks i)) = slotMasks i := by
      rw [slots, testedSlot]
      exact orBitsFilter (slotMasks i) (wide i)
    rw [documentSelection, masks i]
    simp only [emptySelection, whole]
    by_cases set : crateMask.getLsbD i = true
    · rw [if_pos (selectedMem.mpr ⟨bitBelow crates set,set⟩), if_pos set]
    · rw [if_neg (fun mem => set (selectedMem.mp mem).2), if_neg set]

theorem foldLast {α β : Type} (p : α → Prop) [DecidablePred p] (f : α → Option β) (list : List α)
    (start : Option β) :
    (list.foldl (fun found x => if p x then (f x).or found else found) start).isSome =
      (start.isSome || list.any fun x => decide (p x) && (f x).isSome) := by
  induction list generalizing start with
  | nil => simp
  | cons x list ih =>
    rw [List.foldl_cons, ih, List.any_cons]
    by_cases here : p x
    · simp [here, Bool.or_comm, Bool.or_assoc]
    · simp [here]

/- An entry is found for exactly the pairs of the selection. -/
def FindsSelected (doc : Json) (crateMask : BitVec 32) (slotMasks : SlotMasks) : Prop :=
  ∀ crate card : Int, (findConfig (some doc) crate card).isSome = true ↔
    ∃ i j : Nat, crate = i ∧ card = j ∧ crateMask.getLsbD i = true ∧ (slotMasks i).getLsbD j = true

theorem configFound {doc : Json} {crateMask : BitVec 32} (crates : crateMask.toNat < 2^maxXL3Con)
    {slotMasks : SlotMasks} (wide : ∀ i, (slotMasks i).toNat < 2^16) {boards : Boards}
    (list : findMember (some doc) "crates" =
      some (.array ((selectedCrates crateMask).map (crateEntry boards slotMasks)))) :
    FindsSelected doc crateMask slotMasks := by
  intro crate card
  have crateId (i : Nat) : findMember (some (crateEntry boards slotMasks i)) "crate_id" =
      some (ofNat i) := rfl
  have slotList (i : Nat) : findMember (some (crateEntry boards slotMasks i)) "slots" =
      some (.array ((slots (slotMasks i)).map fun j => slotEntry (boards i j) j)) := rfl
  have slotId (i j : Nat) : findMember (some (slotEntry (boards i j) j)) "slot_id" = some (ofNat j) := rfl
  rw [findConfig, foldLast, list, loopOverArray]
  simp only [List.map_map, List.any_map, Option.isSome_none, Bool.false_or, List.any_eq_true,
    Function.comp_apply, crateId, slotList, loopOverArray, getNumberNat, Bool.and_eq_true,
    decide_eq_true_eq, List.find?_isSome, List.mem_map, exists_exists_and_eq_and, slotId,
    selectedMem, slotsMem]
  constructor
  · rintro ⟨i, ⟨-, set⟩, same, j, ⟨-, set'⟩, same'⟩
    exact ⟨i, j, by exact_mod_cast same.symm, by exact_mod_cast same'.symm, set, set'⟩
  · rintro ⟨i, j, rfl, rfl, set, set'⟩
    exact ⟨i, ⟨bitBelow crates set,set⟩, by simp, j, ⟨bitBelow (wide i) set',set'⟩, by simp⟩

/- What is saved is what each of the readers gets back. -/
theorem selectionRoundTrips {initDoc : Node} {boards : Boards} {stamp : Stamp} {doc : Json}
    {crateMask : BitVec 32} (crates : crateMask.toNat < 2^maxXL3Con)
    {slotMasks : SlotMasks} (wide : ∀ i, (slotMasks i).toNat < 2^16)
    (posted : postECALDoc initDoc boards stamp crateMask slotMasks = some doc) :
    (∃ s, ecalLoop (some doc) 0#32 (fun _ => 0#32) = some s ∧ Selects crateMask slotMasks s) ∧
    (∃ s, createFECDocsLoop (some doc) 0#32 (fun _ => 0#32) = some s ∧
      Selects crateMask slotMasks s) ∧
    FindsSelected doc crateMask slotMasks := by
  obtain ⟨settings, -, same⟩ := Option.bind_eq_some_iff.mp posted
  have list : findMember (some doc) "crates" =
      some (.array ((selectedCrates crateMask).map (crateEntry boards slotMasks))) := by
    rw [← Option.some.inj same]
    rfl
  have read : readCrates (some doc) =
      (((selectedCrates crateMask).map (crateEntry boards slotMasks)).map some).map readCrate := by
    rw [readCrates, list, loopOverArray]
  have selects := documentSelects crates wide boards
  rw [← read] at selects
  exact ⟨⟨_, if_pos ⟨rfl,rfl⟩, selects⟩, ⟨_, if_pos ⟨rfl,rfl⟩, selects⟩, configFound crates wide list⟩

def sampleMasks : SlotMasks := fun i => if i = 17 then 0x8001#32 else 0#32

def sampleInit : Node := some (.object [("vint",ofNat 205),("hvref",ofNat 0),
  ("tr100",.object []),("tr20",.object []),("scmos",.array [])])

def sampleStamp : Stamp := ⟨1400000000,"Tue May 13 12:53:20 2014","2014-05-13T12:53:20","ECAL.log"⟩

def sampleBoards : Boards := fun _ _ => ⟨0x1234,fun _ => 0xf00d⟩

theorem selectionRoundTripsSample : ∃ doc,
    postECALDoc sampleInit sampleBoards sampleStamp 0x20001#32 sampleMasks = some doc ∧
    (∃ s, ecalLoop (some doc) 0#32 (fun _ => 0#32) = some s ∧ Selects 0x20001#32 sampleMasks s) ∧
    (∃ s, createFECDocsLoop (some doc) 0#32 (fun _ => 0#32) = some s ∧
      Selects 0x20001#32 sampleMasks s) ∧ FindsSelected doc 0x20001#32 sampleMasks := by
  have wide : ∀ i, (sampleMasks i).toNat < 2^16 := by
    intro i
    unfold sampleMasks
    split <;> decide
  obtain ⟨doc, posted⟩ : ∃ doc,
      postECALDoc sampleInit sampleBoards sampleStamp 0x20001#32 sampleMasks = some doc := ⟨_, rfl⟩
  exact ⟨doc, posted, selectionRoundTrips (by decide) wide posted⟩

end PennDaq.ECALDocument
