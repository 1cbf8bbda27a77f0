import PennDaq.TestDocuments

/-! The problem bits of the channels: what `AddECALTestResults` sees of the errors in the
documents of the test programs. -/
namespace PennDaq.ProblemBits
open Lib.JsonTree
open Lib.CNumber
open FECDocument
open TestDocuments

/- The bit of the test becomes set for exactly the channels that are recorded as failing. -/
def SetsBits (run : TestRun) (testDoc : Node) : Prop :=
  ∀ before after, addECALTestResults testDoc before = .ok after → ∀ ch : Fin 32,
    (after.problems ch).getLsbD run.bit = ((before.problems ch).getLsbD run.bit || run.recordsFailing ch)

/- No chip ended the setup of `set_ttot`, no time of `get_ttot` is the one for a
measurement that failed, or is too long to tell, and `disc_check` counted every pulse. -/
def Readable : TestRun → Prop
  | .setTtot setup => setup.aborted = none
  | .getTtot targetTime times =>
    ∀ ch, (times ch).toNat ≠ 9999 ∧ (targetTime = 9999 → (times ch).toNat < 9999)
  | .discCheck counts numPeds => ∀ ch, (counts ch).final - (counts ch).initial = numPeds
  | _ => True

def sees : TestRun → Fin 32 → Bool
  | .setTtot setup, ch => setup.errorOf ch = 2
  | .getTtot targetTime times, ch => getTtotError targetTime (times ch) = 1
  | .discCheck _ _, _ => false
  | run, ch => run.recordsFailing ch

section
variable {id : String} {ending : Members} {testDoc : Node}

theorem branchOfType {type : String} {rest : Members}
    (stored : StoredAs id (("type",.string type)::rest) testDoc) :
    branchFor testDoc = branchOf type testDoc := by
  have found := stored.members "type" (.string type) rfl
  rw [branchFor, typeOf, found]
  rfl

theorem crateCBalSeen {chanParam : Channels BalanceParams} {returnValue : Int}
    (stored : StoredAs id (TestDocuments.crateCBal chanParam returnValue ++ ending) testDoc) (ch : Fin 32) :
    (crateCBalBranch testDoc).fails ch = decide ((chanParam ch).errorFlag ≠ 0) := by
  have channels := stored.members "channels" _ rfl
  simp only [crateCBalBranch, channels, findElementArrayOf]
  rfl

theorem zdiscSeen {results : Channels ZDiscResult} {rate : ℚ}
    (stored : StoredAs id (TestDocuments.zdisc results rate ++ ending) testDoc) (ch : Fin 32) :
    (zdiscBranch testDoc).fails ch = (results ch).failed := by
  have errors := stored.members "errors" _ rfl
  simp only [zdiscBranch, errors, findElementArrayOf, getBoolBool]

theorem setTtotSeen {setup : TTotSetup}
    (stored : StoredAs id (TestDocuments.setTtot setup ++ ending) testDoc) (ch : Fin 32) :
    (setTtotBranch testDoc).fails ch = decide (setup.errorOf ch = 2) := by
  have chips := stored.members "chips" _ rfl
  have chip := findElementArrayOf (fun k : Fin 8 => Json.object [("rmp",ofNat (setup.chips k).rmp.toNat),
      ("vsi",ofNat (setup.chips k).vsi.toNat),("rmpup",ofNat rmpupDefault),("vli",ofNat vliDefault),
      ("channels",arrayOf fun j : Fin 4 => .object [("id",ofNat (4*k+j)),
        ("time",ofNat (setup.times ⟨k*4+j,by omega⟩).toNat),("errors",ofNat (setup.error k j))])])
    ⟨ch/4,by omega⟩
  have channel := findElementArrayOf (fun j : Fin 4 => Json.object [("id",ofNat (4*(ch/4)+j)),
    ("time",ofNat (setup.times ⟨(ch/4)*4+j,by omega⟩).toNat),
    ("errors",ofNat (setup.error ⟨ch/4,by omega⟩ j))]) ⟨ch%4,by omega⟩
  have errors : findMember (findElement (findMember (findElement (findMember testDoc "chips") (ch/4))
      "channels") (ch%4)) "errors" = some (ofNat (setup.errorOf ch)) := by
    rw [chips]
    refine (congrArg (fun c => findMember (findElement (findMember c "channels") (ch%4)) "errors") chip).trans ?_
    exact congrArg (fun c => findMember c "errors") channel
  simp only [setTtotBranch, errors, intNumber, getNumberNat, truncateNat]
  norm_cast

theorem gtvalidSeen {slot : GTValidSlot}
    (stored : StoredAs id (TestDocuments.cmosMGtvalid slot ++ ending) testDoc) (ch : Fin 32) :
    (gtvalidBranch testDoc).fails ch = (slot.results ch).failed := by
  have channels := stored.members "channels" _ rfl
  simp only [gtvalidBranch, channels, findElementArrayOf]
  rfl

theorem notZero (flag : BitVec 32) : flag.toNat ≠ 0 ↔ flag ≠ 0#32 := by
  rw [ne_eq, ne_eq, ← BitVec.toNat_inj]
  rfl

theorem pedRunSeen {pedestals : Pedestals}
    (stored : StoredAs id (TestDocuments.pedRun pedestals ++ ending) testDoc) (ch : Fin 32) :
    (pedRunBranch testDoc).fails ch = decide (pedestals.errorFlag ch ≠ 0#32) := by
  have errors := stored.members "error_flags" _ rfl
  simp only [pedRunBranch, errors, findElementArrayOf, intNumber, getNumberNat, truncateNat]
  norm_cast
  exact decide_eq_decide.mpr (notZero _)

theorem cgtTestSeen {missingBundles : Bool} {chanErrors : Channels Int} {errorHistory : String}
    (stored : StoredAs id (TestDocuments.cgtTest missingBundles chanErrors errorHistory ++ ending) testDoc)
    (ch : Fin 32) : (cgtTestBranch testDoc).fails ch = decide (chanErrors ch ≠ 0) := by
  have errors := stored.members "errors" _ rfl
  simp only [cgtTestBranch, errors, findElementArrayOf, getBoolBool]

theorem getTtotSeen {targetTime : Int} {times : Channels (BitVec 16)}
    (stored : StoredAs id (TestDocuments.getTtot targetTime times ++ ending) testDoc) (ch : Fin 32) :
    (errorIsOne gttotFail testDoc).fails ch = decide (getTtotError targetTime (times ch) = 1) := by
  have channels := stored.members "channels" _ rfl
  simp only [errorIsOne, channels, findElementArrayOf, intNumber]
  change decide (truncate (getNumber (some (ofNat (getTtotError targetTime (times ch))))) = 1) = _
  rw [getNumberNat, truncateNat]
  norm_cast

theorem fecTestSeen {discreteRegErrors cmosTestRegErrors : BitVec 32}
    (stored : StoredAs id (TestDocuments.fecTest discreteRegErrors cmosTestRegErrors ++ ending) testDoc)
    (ch : Fin 32) : (fecTestBranch testDoc).fails ch = ofBit cmosTestRegErrors (2^ch.val) := by
  have registers := stored.members "cmos_test_reg" _ rfl
  have inside : ch.val < (List.ofFn fun i : Fin 32 =>
    Json.bool (!ofBit cmosTestRegErrors (2^i.val))).length := by simp
  simp only [fecTestBranch, registers, findElementArray, List.getElem?_append_left inside,
    List.getElem?_ofFn, ch.isLt, ↓reduceDIte, getBoolBool, Bool.not_not]

theorem discCheckSeen {counts : Channels DiscCounts} {numPeds : BitVec 32}
    (stored : StoredAs id (TestDocuments.discCheck counts numPeds ++ ending) testDoc) (ch : Fin 32) :
    (errorIsOne discCheckFail testDoc).fails ch = false := by
  have channels := stored.members "channels" _ rfl
  have minusOne : truncate (-1) = -1 := truncateInt (-1)
  simp only [errorIsOne, channels, findElementArrayOf, intNumber]
  change decide (truncate (-1) = 1) = false
  rw [minusOne]
  rfl

theorem pedRunByChannelSeen {errorFlags : Channels (BitVec 32)} {extremes : Channels Extremes}
    (stored : StoredAs id (pedRunByChannelDoc errorFlags extremes ++ ending) testDoc) (ch : Fin 32) :
    (pedRunByChannelBranch testDoc).fails ch = decide (errorFlags ch ≠ 0#32) := by
  have errors := stored.members "errors" _ rfl
  simp only [pedRunByChannelBranch, errors, findElementArrayOf, getNumberNat]
  norm_cast
  exact decide_eq_decide.mpr (Nat.pos_iff_ne_zero.trans (notZero _))

theorem seenThrough {run : TestRun} {branch : Branch} (taken : branchFor testDoc = branch)
    (bit : branch.bit = run.bit) (seen : ∀ ch, branch.fails ch = sees run ch) :
    (branchFor testDoc).bit = run.bit ∧ ∀ ch, (branchFor testDoc).fails ch = sees run ch := by
  subst taken
  exact ⟨bit, seen⟩

theorem branchSeen {run : TestRun} (stored : StoredAs id (run.document ++ ending) testDoc) :
    (branchFor testDoc).bit = run.bit ∧ ∀ ch, (branchFor testDoc).fails ch = sees run ch := by
  cases run with
  | crateCBal chanParam returnValue => exact seenThrough (branchOfType stored) rfl (crateCBalSeen stored)
  | zdisc results rate => exact seenThrough (branchOfType stored) rfl (zdiscSeen stored)
  | setTtot setup => exact seenThrough (branchOfType stored) rfl (setTtotSeen stored)
  | cmosMGtvalid slot => exact seenThrough (branchOfType stored) rfl (gtvalidSeen stored)
  | pedRun pedestals => exact seenThrough (branchOfType stored) rfl (pedRunSeen stored)
  | cgtTest missingBundles chanErrors errorHistory =>
    exact seenThrough (branchOfType stored) rfl (cgtTestSeen stored)
  | getTtot targetTime times => exact seenThrough (branchOfType stored) rfl (getTtotSeen stored)
  | fecTest discreteRegErrors cmosTestRegErrors =>
    exact seenThrough (branchOfType stored) rfl (fecTestSeen stored)
  | discCheck counts numPeds => exact seenThrough (branchOfType stored) rfl (discCheckSeen stored)
  | pedRunByChannel errorFlags extremes =>
    exact seenThrough (branchOfType stored) rfl (pedRunByChannelSeen stored)

end

theorem bitInside (run : TestRun) : run.bit < 32 := by
  cases run <;> simp only [TestRun.bit] <;> decide

theorem bitRecorded {run : TestRun} {id : String} {ending : Members} {testDoc : Node}
    (stored : StoredAs id (run.document ++ ending) testDoc) {before after : Building}
    (added : addECALTestResults testDoc before = .ok after) (ch : Fin 32) :
    (after.problems ch).getLsbD run.bit = ((before.problems ch).getLsbD run.bit || sees run ch) := by
  obtain ⟨bit, seen⟩ := branchSeen stored
  rw [addProblems added, record, seen, bit]
  cases sees run ch with
  | false => exact (Bool.or_false _).symm
  | true => simp [Lib.Mask.oneBit (bitInside run)]

def emptyBuilding : Building :=
  ⟨.object [("hw",.object []),("test",.object []),("channel",channelOf fun _ => 0#32)],
    fun _ => 0#32,fun _ => 0⟩

theorem setsBitsSeen {run : TestRun} {id : String} {ending : Members} {testDoc : Node}
    (stored : StoredAs id (run.document ++ ending) testDoc) :
    SetsBits run testDoc ↔ ∀ ch, sees run ch = run.recordsFailing ch := by
  constructor
  · intro sets ch
    have shows' : Shows emptyBuilding [] [] := by
      refine ⟨⟨_, rfl, ?_⟩, rfl, rfl, rfl⟩
      simp only [keys, List.map_cons, List.map_nil]
      decide
    have identified : Identified testDoc := ⟨id, by rw [stored.id]; rfl⟩
    obtain ⟨after, added, -, -⟩ := addECALTestResultsSpec shows' identified
    have claimed := sets _ _ added ch
    rw [bitRecorded stored added] at claimed
    simpa [emptyBuilding] using claimed
  · intro same before after added ch
    rw [bitRecorded stored added, same]

theorem setTtotReadable (setup : TTotSetup) :
    (∀ ch, sees (.setTtot setup) ch = (TestRun.setTtot setup).recordsFailing ch) ↔ setup.aborted = none := by
  constructor
  · intro same
    cases h : setup.aborted with
    | none => rfl
    | some chip =>
      have first := same ⟨4*chip,by omega⟩
      simp [sees, TestRun.recordsFailing, TTotSetup.errorOf, TTotSetup.error, setTtotError, h] at first
  · intro none' ch
    simp only [sees, TestRun.recordsFailing, TTotSetup.errorOf, TTotSetup.error, setTtotError, none']
    split
    · contradiction
    · split <;> rfl

theorem getTtotReadable (targetTime : Int) (time : BitVec 16) :
    (decide (getTtotError targetTime time = 1) = decide (getTtotError targetTime time ≠ 0)) ↔
      time.toNat ≠ 9999 ∧ (targetTime = 9999 → time.toNat < 9999) := by
  rw [decide_eq_decide]
  unfold getTtotError
  simp only []
  split_ifs <;> simp <;> omega

theorem readableSeen (run : TestRun) :
    (∀ ch, sees run ch = run.recordsFailing ch) ↔ Readable run := by
  cases run with
  | setTtot setup => exact setTtotReadable setup
  | getTtot targetTime times => exact forall_congr' fun ch => getTtotReadable targetTime (times ch)
  | discCheck counts numPeds =>
    simp [sees, TestRun.recordsFailing, Readable, DiscCounts.failed, DiscCounts.cdiff]
  | _ => exact iff_of_true (fun _ => rfl) trivial

theorem failingSeen {run : TestRun} {posting : Posting} {id : String} {testDoc : Node}
    (stored : StoredAs id (run.document ++ posting.members) testDoc) :
    SetsBits run testDoc ↔ Readable run :=
  (setsBitsSeen stored).trans (readableSeen run)

def samplePosting : Posting where
  finalTestId := none
  ecalId := some "e1"
  config := .object [("crate_id",ofNat 2),("slot",ofNat 3)]
  timestamp := 1370000000
  created := "Fri May 31 11:33:20 2013"

def sampleDocument (run : TestRun) : Node :=
  some (.object (("_id",.string "t1")::(run.document ++ samplePosting.members)))

theorem storedUnder {members : Members} (noId : members.lookup "_id" = none) (id : String) :
    StoredAs id members (some (.object (("_id",.string id)::members))) := by
  refine ⟨rfl, fun name value found => ?_⟩
  rw [findMemberObject, lookupCons, if_neg ?_, found]
  intro same
  rw [← same, noId] at found
  cases found

def pulseMissing : TestRun := .discCheck (fun _ => ⟨0#32,99#32⟩) 100#32

def pulsesCounted : TestRun := .discCheck (fun _ => ⟨0#32,100#32⟩) 100#32

theorem failingSeenCounted : SetsBits pulsesCounted (sampleDocument pulsesCounted) :=
  (failingSeen (storedUnder rfl "t1")).mpr fun _ => BitVec.sub_zero 100#32

theorem missingPulseUnseen :
    StoredAs "t1" (pulseMissing.document ++ samplePosting.members) (sampleDocument pulseMissing) ∧
      ¬SetsBits pulseMissing (sampleDocument pulseMissing) := by
  have stored : StoredAs "t1" (pulseMissing.document ++ samplePosting.members)
    (sampleDocument pulseMissing) := storedUnder rfl "t1"
  refine ⟨stored, fun sets => ?_⟩
  have first := (setsBitsSeen stored).mp sets 0
  revert first
  decide

end PennDaq.ProblemBits
