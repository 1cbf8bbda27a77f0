import PennDaq.Globals
import PennDaq.Sequences

/-! Which XL3s the commands talk to. A test of one crate sends to that crate only, and
most of them whatever the slots are; a test of several crates sends to those of its
mask that the array has. -/
namespace PennDaq.CrateScope
open Lib.Skeleton
open Globals LinkCalls TestCalls MaskCalls Sequences

def Inside (xl3List : BitVec 32) : Op → Prop
  | .xl3 crateNum => 0 ≤ crateNum ∧ crateNum < maxXL3Con ∧ hasBit xl3List crateNum.toNat = true
  | _ => True

@[simp] theorem insideOthers (xl3List : BitVec 32) :
    Inside xl3List .sbc ∧ Inside xl3List .tubii ∧ ∀ crateNum, Inside xl3List (.acks crateNum) :=
  ⟨trivial,trivial,fun _ => trivial⟩

def only (n : Int) (o : Op) : Prop := o = .xl3 n ∨ Inside (bit n) o

@[simp] theorem onlyMine (n : Int) : only n (.xl3 n) := .inl rfl

/- The calls send to crate `n` and to no other, and come to it exactly if `sends`. -/
structure Talks (n : Int) (sends : Prop) (calls : Calls) : Prop where
  only : allOps (only n) calls
  sends : performs (.xl3 n) calls ↔ sends

theorem insideBit (n : Int) : Inside (bit n) (.xl3 n) ↔ 0 ≤ n ∧ n < maxXL3Con := by
  refine ⟨fun inside => ⟨inside.1,inside.2.1⟩, fun ⟨low,high⟩ => ⟨low,high,?_⟩⟩
  obtain ⟨k, rfl⟩ := Int.eq_ofNat_of_zero_le low
  have small : k < maxXL3Con := Int.ofNat_lt.mp high
  have each : ∀ k : Fin maxXL3Con, hasBit (bit (k.val : Int)) k.val = true := by decide
  exact each ⟨k,small⟩

theorem talksInside {n : Int} {sends : Prop} {calls : Calls} (talks : Talks n sends calls) :
    (∀ o, performs o calls → Inside (bit n) o) ↔ (sends → 0 ≤ n ∧ n < maxXL3Con) := by
  rw [← talks.sends, ← insideBit]
  refine ⟨fun all can => all _ can, fun own o can => ?_⟩
  rcases performsAll talks.only can with mine | inside
  · exact mine ▸ own (mine ▸ can)
  · exact inside

@[simp] theorem insideCrates {crateMask : BitVec 32} {i : Nat} (mem : i ∈ crates crateMask) :
    Inside crateMask (.xl3 i) := by
  obtain ⟨small, bit⟩ := List.mem_filter.mp mem
  exact ⟨Int.natCast_nonneg i, Int.ofNat_lt.mpr (List.mem_range.mp small), by simpa using bit⟩

theorem insideMem {crateMask : BitVec 32} {crateNum : Int} (inside : Inside crateMask (.xl3 crateNum)) :
    ∃ i ∈ crates crateMask, crateNum = i := by
  obtain ⟨low, high, bit⟩ := inside
  obtain ⟨i, rfl⟩ := Int.eq_ofNat_of_zero_le low
  exact ⟨i, List.mem_filter.mpr ⟨List.mem_range.mpr (Int.ofNat_lt.mp high),bit⟩, rfl⟩

theorem bitCrate {crateMask : BitVec 32} {i j : Nat} (mem : i ∈ crates crateMask)
    (other : j ∈ crates (bit i)) : j = i := by
  have small := List.mem_range.mp (List.mem_filter.mp mem).1
  obtain ⟨small', bit⟩ := List.mem_filter.mp other
  have each : ∀ i j : Fin 20, hasBit (TestCalls.bit (i.val : Int)) j.val = true → j = i := by decide
  exact congrArg Fin.val (each ⟨i,small⟩ ⟨j,List.mem_range.mp small'⟩ bit)

section Masks
variable (crateMask : BitVec 32) (slotMasks : SlotMasks)

theorem pedestalsInside (setupCrates setupMTC : Bool) :
    allOps (Inside (if setupCrates then crateMask else 0#32))
      (runPedestals crateMask slotMasks setupCrates setupMTC) := by
  cases setupCrates <;> simp +contextual [runPedestals, eachCrate, eachSlot, Xl3.loadCrateAddr]

theorem pedestalsEndInside (setupCrates setupMTC : Bool) :
    allOps (Inside (if setupCrates then crateMask else 0#32))
      (runPedestalsEnd crateMask setupCrates setupMTC) := by
  cases setupCrates <;> simp +contextual [runPedestalsEnd, eachCrate]

theorem triggerScanInside : allOps (Inside crateMask) (triggerScan crateMask slotMasks) := by
  simp +contextual [triggerScan, eachCrate, eachSlot]

theorem measureInside {crateMask : BitVec 32} {i : Nat} (mem : i ∈ crates crateMask) (slotNum : Nat) :
    allOps (Inside crateMask) (measureSlot i slotNum) := by
  have alone : ∀ j ∈ crates (bit i), Inside crateMask (.xl3 j) := fun j other =>
    bitCrate mem other ▸ insideCrates mem
  simp +contextual [measureSlot, measureGTValid, isGTValidLonger, eachCrate, eachSlot, alone,
    insideCrates mem]

theorem gtValidInside (channelMask : BitVec 32) (setOnly updateDB : Bool) :
    allOps (Inside crateMask) (gtValidTest crateMask slotMasks channelMask setOnly updateDB) := by
  simp +contextual [gtValidTest, gtValidPass, isGTValidLonger, measureInside, eachCrate, eachSlot]

theorem findNoiseInside (useDebug channelTuning updateDB : Bool) :
    allOps (Inside crateMask) (findNoise crateMask slotMasks useDebug channelTuning updateDB) := by
  simp +contextual [findNoise, tuneChannels, loadThreshold, setInitMode, crateCounts, eachCrate, eachSlot]

theorem postECALInside : allOps (Inside crateMask) (postECALDoc crateMask slotMasks) := by
  simp +contextual [postECALDoc, eachCrate, eachSlot]

end Masks

theorem elsewhere {calls : Calls} (all : allOps (fun o => ∀ n, o ≠ .xl3 n) calls) (n : Int) :
    ¬ performs (.xl3 n) calls := fun can => performsAll all can n rfl

section OneCrate
variable (n : Int) (slotMask : BitVec 32) (updateDB : Bool)

@[simp] theorem someIndex (count : Nat) : ∃ i, i < count + 1 := ⟨0,Nat.succ_pos count⟩

@[simp] theorem quietSetup :
    ¬ performs (.xl3 n) Mtc.setupPedestals ∧ ¬ performs (.xl3 n) setupOrLeave ∧
    ¬ performs (.xl3 n) setupOrUnset ∧ ¬ performs (.xl3 n) Mtc.setGTDelay := by
  refine ⟨elsewhere ?_ n, elsewhere ?_ n, elsewhere ?_ n, elsewhere ?_ n⟩ <;> simp

@[simp] theorem onlyInit (flags : InitFlags) : allOps (only n) (crateInit n flags) := by
  simp [crateInit, only]

@[simp] theorem initSends (flags : InitFlags) : performs (.xl3 n) (crateInit n flags) := by
  simp [crateInit]

@[simp] theorem initPasses (flags : InitFlags) : passes (crateInit n flags) := by
  simp [crateInit]

@[simp] theorem onlyMTCInit (xilinx : Bool) : allOps (only n) (mtcInit xilinx) := by
  simp [mtcInit, only]

theorem talksOnce : Talks n True (.attempt (Xl3.sendCommand n)) := by
  constructor <;> simp [only]

theorem talksBare : Talks n True (Xl3.sendCommand n) := by
  constructor <;> simp [only]

theorem talksInit (flags : InitFlags) : Talks n True (crateInit n flags) :=
  ⟨onlyInit n flags, iff_true_intro (initSends n flags)⟩

theorem talksQueue : Talks n True (xl3QueueRW n) := by
  constructor <;> simp [only]

theorem talksRelays : Talks n True (loadRelays n) := by
  constructor <;> simp [only]

theorem talksBundle : Talks n True (readBundle n) := by
  constructor <;> simp [only]

theorem talksBoardID : Talks n (∃ i, i ∈ slots slotMask) (boardID n slotMask) := by
  constructor <;> simp [boardID, only]

theorem talksCald : Talks n True (caldTest n slotMask updateDB) := by
  constructor <;> simp [caldTest, only]

theorem talksCGT : Talks n True (cgtTest n slotMask updateDB) := by
  constructor <;> simp [cgtTest, only]

theorem talksOrphan : Talks n True (orphanTest n slotMask) := by
  constructor <;> simp [orphanTest, only]

theorem talksChinj : Talks n True (chinjScan n slotMask updateDB) := by
  constructor <;> simp [chinjScan, only]

theorem talksCBal : Talks n (∃ i, i ∈ slots slotMask) (crateCBal n slotMask updateDB) := by
  constructor <;> simp [crateCBal, only]

theorem talksDisc : Talks n True (discCheck n slotMask updateDB) := by
  constructor <;> simp [discCheck, only]

theorem talksFEC : Talks n True (fecTest n slotMask updateDB) := by
  constructor <;> simp [fecTest, only]

theorem talksFifo : Talks n True (fifoTest n slotMask updateDB) := by
  constructor <;> simp [fifoTest, only]

theorem talksStability : Talks n True (mbStabilityTest n slotMask updateDB) := by
  constructor <;> simp [mbStabilityTest, only]

theorem talksMem : Talks n True (memTest n updateDB) := by
  constructor <;> simp [memTest, only]

theorem talksPedRun : Talks n True (pedRun n slotMask updateDB) := by
  constructor <;> simp [pedRun, only]

theorem talksPedChannel (slotNum : Int) : Talks n True (pedRunByChannel n slotNum) := by
  constructor <;> simp [pedRunByChannel, only]

theorem talksAllPed (channelMask : BitVec 32) : Talks n True (allPedRunByChannel n slotMask updateDB channelMask) := by
  constructor <;> simp [allPedRunByChannel, (talksPedChannel n _).only]

theorem talksReflection (channelMask : BitVec 32) : Talks n True (seeReflection n slotMask updateDB channelMask) := by
  constructor <;> simp [seeReflection, only]

theorem talksReflectionEsum : Talks n True (seeReflectionEsum n slotMask updateDB) := by
  constructor <;> simp [seeReflectionEsum, only]

theorem talksVMon : Talks n (∃ i, i ∈ slots slotMask) (vMon n slotMask updateDB) := by
  constructor <;> simp [vMon, only]

theorem talksLocalVMon : Talks n True (localVMon n) := by
  constructor <;> simp [localVMon, only]

theorem talksZDisc : Talks n (∃ i, i ∈ slots slotMask) (zDisc n slotMask updateDB) := by
  constructor <;> simp [zDisc, only]

theorem talksGetTTot (ecal : Bool) : Talks n (∃ i, i ∈ slots slotMask) (getTTot n slotMask updateDB ecal) := by
  constructor <;> simp [getTTot, only]

theorem talksSetTTot (ecal : Bool) : Talks n (∃ i, i ∈ slots slotMask) (setTTot n slotMask updateDB ecal) := by
  constructor <;> simp [setTTot, only]

theorem onlyMeasure (slotNum : Nat) : allOps (only n) (measureSlot n slotNum) := by
  simp +contextual [measureSlot, measureGTValid, isGTValidLonger, eachCrate, eachSlot, only]

theorem talksMeasure : Talks n True (measureGTValidOnly n slotMask) := by
  constructor <;> simp [measureGTValidOnly, only, onlyMeasure]

theorem onlyInside {n : Int} {calls : Calls} (inside : allOps (Inside (bit n)) calls) :
    allOps (only n) calls := allOpsImp (fun _ => Or.inr) inside

theorem talksFinal (testMask : BitVec 32) : Talks n True (finalTest n slotMask testMask) := by
  refine ⟨?_, by simp [finalTest]⟩
  simp [finalTest, (talksBoardID n _).only, (talksFEC n _ _).only, (talksVMon n _ _).only,
    (talksCGT n _ _).only, (talksPedRun n _ _).only, (talksCBal n _ _).only, (talksChinj n _ _).only,
    (talksSetTTot n _ _ _).only, (talksGetTTot n _ _ _).only, (talksDisc n _ _).only,
    onlyInside (gtValidInside _ _ _ _ _), (talksZDisc n _ _).only, (talksStability n _ _).only,
    (talksFifo n _ _).only, (talksCald n _ _).only, (talksMem n _).only, (talksReflection n _ _ _).only]

theorem someChannel {j : Nat} (small : j < 13) : ∃ i, i < numDacs.getD j 0 := by
  have each : ∀ j : Fin 13, 0 < numDacs.getD j.val 0 := by decide
  exact ⟨0,each ⟨j,small⟩⟩

theorem talksDacSweep (dacMask : BitVec 32) (dacNum : Int) :
    Talks n ((∃ i, i ∈ slots slotMask) ∧ (dacNum = -1 → ∃ j < 13, hasBit dacMask j = true))
      (dacSweep n slotMask dacMask dacNum) := by
  unfold dacSweep
  by_cases all : dacNum = -1
  · refine ⟨by simp [all, only], ?_⟩
    have dacs : (∃ j ∈ (List.range 13).filter (hasBit dacMask), ∃ i ∈ List.range (numDacs.getD j 0), True) ↔
        ∃ j < 13, hasBit dacMask j = true := by
      simp only [List.mem_filter, List.mem_range, and_true]
      exact ⟨fun ⟨j,mem,_⟩ => ⟨j,mem⟩, fun ⟨j,small,mem⟩ => ⟨j,⟨small,mem⟩,someChannel small⟩⟩
    simp [all, ← dacs]
  · constructor <;> simp [all, only]

end OneCrate

theorem hasBitOf {mask : BitVec 32} {i : Nat} (small : i < 32) : hasBit mask i = mask.getLsbD i := by
  have set : BitVec.twoPow 32 i ≠ 0#32 := fun zero => by
    have bit := congrArg (BitVec.getLsbD · i) zero
    simp [small] at bit
  unfold hasBit
  rw [← BitVec.twoPow_eq, BitVec.twoPow_and]
  cases mask.getLsbD i with
  | true => simpa using set
  | false => rfl

theorem hasBitOr (a b : BitVec 32) {i : Nat} (small : i < 32) :
    hasBit (a ||| b) i = (hasBit a i || hasBit b i) := by
  simp only [hasBitOf small, BitVec.getLsbD_or]

theorem hasBitBit (n : Int) {i : Nat} (small : i < 32) : hasBit (bit n) i = true ↔ n % 32 = i := by
  have low := Int.emod_nonneg n (by decide : (32 : Int) ≠ 0)
  have high := Int.emod_lt_of_pos n (by decide : (0 : Int) < 32)
  rw [hasBitOf small, bit, ← BitVec.twoPow_eq, BitVec.getLsbD_twoPow]
  simp only [Bool.and_eq_true, decide_eq_true_eq]
  omega

theorem documentBit (document : List DocumentCrate) (selection : Selection) {i : Nat} (small : i < 32) :
    hasBit (document.foldl addCrate selection).crateMask i = true ↔
      hasBit selection.crateMask i = true ∨ ∃ crate ∈ document, crate.crateId % 32 = i := by
  induction document generalizing selection with
  | nil => simp
  | cons crate document ih =>
    rw [List.foldl_cons, ih, List.exists_mem_cons_iff, ← or_assoc]
    simp only [addCrate, hasBitOr _ _ small, Bool.or_eq_true, hasBitBit _ small]

theorem documentCrates (document : List DocumentCrate) :
    crates (documentSelection document).crateMask = [] ↔
      ∀ crate ∈ document, maxXL3Con ≤ crate.crateId % 32 := by
  unfold crates
  rw [List.filter_eq_nil_iff]
  constructor
  · intro none crate mem
    by_contra other
    have low := Int.emod_nonneg crate.crateId (by decide : (32 : Int) ≠ 0)
    obtain ⟨i, same⟩ := Int.eq_ofNat_of_zero_le low
    have small : i < maxXL3Con := by omega
    refine none i (List.mem_range.mpr small) ?_
    exact (documentBit document emptySelection (Nat.lt_trans small (by decide))).mpr (.inr ⟨crate,mem,same⟩)
  · intro beyond i mem bit
    have small := List.mem_range.mp mem
    have found := (documentBit document emptySelection (by omega)).mp bit
    rcases found with nothing | ⟨crate, mem, same⟩
    · rw [hasBitOf (by omega)] at nothing
      simp [emptySelection] at nothing
    · have := beyond crate mem
      simp only [maxXL3Con] at this
      omega

theorem onlyWithin {crateMask : BitVec 32} {i : Nat} (mem : i ∈ crates crateMask) {calls : Calls}
    (mine : allOps (only i) calls) : allOps (Inside crateMask) calls := by
  refine allOpsImp (fun o near => ?_) mine
  rcases near with rfl | own
  · exact insideCrates mem
  · cases o with
    | xl3 crateNum =>
      obtain ⟨j, other, rfl⟩ := insideMem own
      exact bitCrate mem other ▸ insideCrates mem
    | _ => trivial

theorem testInside {crateMask testMask : BitVec 32} {testCounter : Nat} {test : Nat → Calls}
    (mine : ∀ i : Nat, allOps (only i) (test i)) :
    allOps (Inside crateMask) (onCrates crateMask testMask testCounter test) := by
  simp only [onCrates, eachCrate, allOpsProvided, allOpsEach]
  exact fun _ i mem => onlyWithin mem (mine i)

theorem initInside (crateMask : BitVec 32) (flags : InitFlags) :
    allOps (Inside crateMask) (initCrates crateMask flags) := by
  simp only [initCrates, eachCrate, allOpsEach]
  exact fun i mem => onlyWithin mem (onlyInit i flags)

theorem ecalInside (boards : Selection) (testMask : BitVec 32) (newECAL : Bool) :
    allOps (Inside boards.crateMask) (ecalTests boards testMask newECAL) := by
  have mtc : allOps (Inside boards.crateMask) (mtcInit true) := by simp [mtcInit]
  simp only [ecalTests, allOpsCons, allOpsNil, allOpsAttempt, setECALBit, allOpsOp, insideOthers,
    initInside, mtc, allOpsProvided, postECALInside, implies_true, true_and, and_true]
  exact ⟨testInside fun i => (talksFEC i _ _).only,testInside fun i => (talksBoardID i _).only,
    testInside fun i => (talksCGT i _ _).only,testInside fun i => (talksCBal i _ _).only,
    testInside fun i => (talksPedRun i _ _).only,testInside fun i => (talksSetTTot i _ _ _).only,
    testInside fun i => (talksGetTTot i _ _ _).only,testInside fun i => (talksDisc i _ _).only,
    testInside fun i => onlyInside (gtValidInside _ _ _ _ _),testInside fun i => (talksZDisc i _ _).only,
    testInside fun i => onlyInside (findNoiseInside _ _ _ _ _),
    testInside fun i => (talksAllPed i _ _ _).only⟩

theorem ecalSends {boards : Selection} {testMask : BitVec 32} {newECAL : Bool} {i : Nat}
    (mem : i ∈ crates boards.crateMask) : performs (.xl3 i) (ecalTests boards testMask newECAL) := by
  refine .inl ((performsEach (fun j => initPasses j _) _).mpr ⟨i,mem,initSends i _⟩)

theorem ecalUnlocked (boards : Selection) (testMask : BitVec 32) (newECAL : Bool) :
    (∀ o, performs o (ecalTests boards testMask newECAL) → Inside 0#32 o) ↔
      crates boards.crateMask = [] := by
  have nothing : ∀ crateNum, ¬ Inside 0#32 (.xl3 crateNum) := fun crateNum inside => by
    have bit := inside.2.2
    simp [hasBit] at bit
  constructor
  · intro all
    rw [List.eq_nil_iff_forall_not_mem]
    exact fun i mem => nothing i (all _ (ecalSends mem))
  · intro none o can
    cases o with
    | xl3 crateNum =>
      obtain ⟨i, mem, -⟩ := insideMem (performsAll (ecalInside boards testMask newECAL) can)
      rw [none] at mem
      exact absurd mem List.not_mem_nil
    | _ => trivial

end PennDaq.CrateScope
