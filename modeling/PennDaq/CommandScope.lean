import PennDaq.ControllerLink
import PennDaq.CrateScope

/-! Whether a command sends to the crates that it has locked and to no others. The
number behind `-c` becomes a mask for the lock and an index for the links, and
`ecal` reads its crates from a document after it has locked those of its line. -/
namespace PennDaq.CommandScope
open Lib.CString
open Lib.Skeleton
open Options Globals LinkCalls TestCalls MaskCalls Sequences ControllerLink CrateScope

def lockedList : Job → BitVec 32
  | .holding _ xl3List _ => xl3List
  | _ => 0#32

def callsOf : Job → Calls
  | .free calls => .call calls
  | .holding _ _ calls => .call calls
  | .sbcControl connect => .call (LinkCalls.sbcControl connect)
  | _ => .skip

def JobInside (job : Job) : Prop := ∀ o, performs o (callsOf job) → Inside (lockedList job) o

def Goes (links : Links) : Job → Prop
  | .holding mtc xl3List _ => Lockable links (sbcFlag mtc) xl3List
  | .sbcControl _ => Lockable links 2 0#32
  | _ => True

/- Whatever the operations do, each index that a packet is sent to is one of the
array and of the list that was locked. -/
def SendsInside (around : Surroundings) (input : Text) (links : Links) : Prop :=
  ∀ after events exit, Performs around links (jobOf around input) after events exit →
    ∀ ev ∈ events, Inside (lockedList (jobOf around input)) ev.op

theorem performedRuns {around : Surroundings} {before after : Links} {job : Job}
    {events : List (Event Op)} {exit : Exit} (performed : Performs around before job after events exit) :
    events = [] ∨ Goes before job ∧ ∃ e, Runs false (callsOf job) events e := by
  cases performed with
  | nothing | refused _ | sbcRefused _ | checkRecvQueues | noMacro _ => exact .inl rfl
  | free run _ => exact .inr ⟨trivial,_,run⟩
  | held zero run _ | escaped zero run _ => exact .inr ⟨(lockSucceeds _ _ _).mp zero,_,run⟩
  | sbcHeld zero run _ | sbcEscaped zero run _ => exact .inr ⟨(lockSucceeds _ _ _).mp zero,_,run⟩

theorem callNotLeft {g : Bool} {p : Calls} {events : List (Event Op)} {e : Exit}
    (run : Runs g (.call p) events e) : e = .passed ∨ e = .threw := by
  cases e with
  | passed => exact .inl rfl
  | threw => exact .inr rfl
  | left => exact absurd (runsEnds run) (by simp [ends])

theorem runsPerformed {around : Surroundings} {before : Links} {job : Job} {events : List (Event Op)}
    {e : Exit} (goes : Goes before job) (run : Runs false (callsOf job) events e) (some : events ≠ []) :
    ∃ after exit, Performs around before job after events exit := by
  cases job with
  | free calls => exact ⟨_, _, .free run rfl⟩
  | holding mtc xl3List calls =>
    have zero := (lockSucceeds _ _ _).mpr goes
    rcases callNotLeft run with rfl | rfl
    · exact ⟨_, _, .held zero run rfl⟩
    · exact ⟨_, _, .escaped zero run rfl⟩
  | sbcControl connect =>
    have zero := (lockSucceeds _ _ _).mpr goes
    rcases callNotLeft run with rfl | rfl
    · exact ⟨_, _, .sbcHeld zero run rfl⟩
    · exact ⟨_, _, .sbcEscaped zero run rfl⟩
  | nothing | checkRecvQueues | runMacro fileName =>
    cases run with
    | skip => exact absurd rfl some

theorem sendsInside (around : Surroundings) (input : Text) (links : Links) :
    SendsInside around input links ↔
      (Goes links (jobOf around input) → JobInside (jobOf around input)) := by
  unfold JobInside
  rw [← everyOperation false]
  constructor
  · intro all goes events e run ev mem
    obtain ⟨after, exit, performed⟩ := runsPerformed goes run (List.ne_nil_of_mem mem)
    exact all after events exit performed ev mem
  · intro all after events exit performed ev mem
    rcases performedRuns performed with rfl | ⟨goes, e, run⟩
    · exact absurd mem List.not_mem_nil
    · exact all goes events e run ev mem

def crateCommands : List String := [
  "xl3_rw","crate_init","xr","xw","xl3_queue_rw","sm_reset","debugging_on","debugging_off",
  "change_mode","set_relays","get_relays","check_xl3_status","read_local_voltage","hv_readback",
  "set_alarm_level","set_alarm_dac","fr","fw","load_relays","read_bundle","setup_chinj","load_dac",
  "cald_test","cgt_test","orphan_test","chinj_scan","disc_check","fec_test","fifo_test",
  "measure_gtvalids","mb_stability_test","mem_test","ped_run","all_ped_by_channel",
  "ped_by_channel","see_refl","esum_see_refl","local_vmon","final_test"]

def slotCommands : List String := ["board_id","crate_cbal","get_ttot","set_ttot","vmon","zdisc"]

def OnArray (input : Text) : Prop := 0 ≤ crateNumOf input ∧ crateNumOf input < maxXL3Con

/- `ecal` takes its crates from the document: there is one, the line names neither
crates nor slots, the detector database does not stop it, and a test is selected. -/
structure LoadsCrates (around : Surroundings) (input : Text) (document : List DocumentCrate) : Prop where
  load : getString input 'l' [] ≠ []
  found : around.ecalDocument (getString input 'l' []) = some document
  crateMask : hexOf input "c" 0#32 = 0#32
  slotMask : ecalSlotMasks input 0 = 0#32
  detector : around.underground = true → getFlag input 'z' = true →
    (around.detectorSlotMask (documentSelection document).crateMask
      (documentSelection document).slotMasks).isSome = true
  tests : selectTests (hexOf input "t" 0xFFFFFFFF#32) (getFlag input 'q') ≠ 0#32

inductive Scope where
  | free
  | array
  | slotted
  | dacs
  | document
  deriving DecidableEq, Repr

def scopeOf (name : String) : Scope :=
  if name ∈ crateCommands then .array
  else if name ∈ slotCommands then .slotted
  else if name = "dac_sweep" then .dacs
  else if name = "ecal" then .document
  else .free

def Meets (around : Surroundings) (input : Text) : Scope → Prop
  | .free => True
  | .array => OnArray input
  | .slotted => (∃ i, i ∈ slots (slotMaskIn input)) → OnArray input
  | .dacs => (∃ i, i ∈ slots (slotMaskIn input)) ∧
      (getInt input 'n' (-1) = -1 → ∃ j < 13, hasBit (hexOf input "m" 0xFFFFFFFF#32) j = true) →
      OnArray input
  | .document => ∀ document, LoadsCrates around input document →
      ∀ crate ∈ document, maxXL3Con ≤ crate.crateId % 32

def asksUsage (name : String) (input : Text) : Bool := getFlag input 'h' && name != "check_xl3_status"

def InScopeOf (around : Surroundings) (name : String) (input : Text) : Prop :=
  asksUsage name input = false → Meets around input (scopeOf name)

/- The condition: a crate number is an index of the array where the command comes to
use it, and `ecal` loads no crate of the array. -/
def InScope (around : Surroundings) (input : Text) : Prop :=
  ∀ branch, branchOf input = some branch → InScopeOf around branch.name input

theorem holdingInside {mtc : Bool} {xl3List : BitVec 32} {calls : Calls}
    (inside : allOps (Inside xl3List) calls) : JobInside (.holding mtc xl3List calls) :=
  fun _ can => performsAll inside can

theorem nothingInside : JobInside .nothing := fun _ can => can.elim

theorem checkInside : JobInside .checkRecvQueues := fun _ can => can.elim

theorem macroInside (fileName : Text) : JobInside (.runMacro fileName) := fun _ can => can.elim

theorem controlInside (connect : Bool) : JobInside (.sbcControl connect) :=
  fun _ can => performsAll (p := callsOf (.sbcControl connect)) (by
    simp [callsOf, LinkCalls.sbcControl, Mtc.connect]) can

theorem setECALBitInside (input : Text) : JobInside (setECALBitJob input) := by
  simp only [setECALBitJob]
  split
  · exact fun _ can => performsAll (p := callsOf (.free setECALBit)) (by simp [callsOf]) can
  · exact nothingInside

theorem helpInside {job : Text → Job} (inside : ∀ input, JobInside (job input)) (input : Text) :
    JobInside (unlessHelp job input) := unlessHelpHolds nothingInside inside input

theorem crateInside {mtc : Bool} {calls : Int → Text → Calls}
    (inside : ∀ n input, allOps (Inside (bit n)) (calls n input)) (input : Text) :
    JobInside (onCrate mtc calls input) :=
  helpInside (fun input => holdingInside (inside _ input)) input

theorem mtcInside {calls : Text → Calls} (inside : ∀ input, allOps (Inside 0#32) (calls input))
    (input : Text) : JobInside (onMTC calls input) :=
  helpInside (fun input => holdingInside (inside input)) input

theorem masksInside {dflt : BitVec 32} {calls : BitVec 32 → Text → Calls}
    (inside : ∀ crateMask input, allOps (Inside crateMask) (calls crateMask input)) (input : Text) :
    JobInside (onMasks dflt calls input) :=
  helpInside (fun input => holdingInside (inside _ input)) input

theorem pedestalsJobInside {name : String} {calls : BitVec 32 → Bool → Bool → Text → Calls}
    (inside : ∀ crateMask crate mtc input,
      allOps (Inside (if crate then crateMask else 0#32)) (calls crateMask crate mtc input))
    (input : Text) : JobInside (runPedestalsJob name calls input) :=
  helpInside (fun input => holdingInside (inside _ _ _ input)) input

theorem setOrAddInside {unset set : Calls} (first : allOps (Inside 0#32) unset)
    (rest : allOps (Inside 0#32) set) (input : Text) : allOps (Inside 0#32) (setOrAdd unset set input) := by
  unfold setOrAdd
  split
  · exact rest
  · exact ⟨first,rest,trivial⟩

theorem helpScope {job : Text → Job} {name : String} {around : Surroundings} {input : Text}
    (usage : name ≠ "check_xl3_status")
    (scope : JobInside (job input) ↔ Meets around input (scopeOf name)) :
    JobInside (unlessHelp job input) ↔ InScopeOf around name input := by
  have asks : asksUsage name input = getFlag input 'h' := by simp [asksUsage, usage]
  unfold unlessHelp InScopeOf
  rw [asks, ← scope]
  split
  · rename_i help
    exact ⟨fun _ none => absurd (help.symm.trans none) (by decide), fun _ => nothingInside⟩
  · rename_i none
    exact ⟨fun inside _ => inside, fun inside => inside (Bool.eq_false_iff.mpr none)⟩

theorem freeScope {name : String} {around : Surroundings} {input : Text} {job : Job}
    (inside : JobInside job) (free : scopeOf name = .free) :
    JobInside job ↔ InScopeOf around name input := by
  refine iff_of_true inside fun _ => ?_
  rw [free]
  trivial

theorem crateTalks {mtc : Bool} {n : Int} {sends : Prop} {calls : Calls} (talks : Talks n sends calls) :
    JobInside (.holding mtc (bit n) calls) ↔ (sends → 0 ≤ n ∧ n < maxXL3Con) :=
  talksInside ⟨talks.only,talks.sends⟩

theorem dacSweepScope (around : Surroundings) (input : Text) :
    JobInside (onCrate false (fun n input => dacSweep n (slotMaskIn input)
      (hexOf input "m" 0xFFFFFFFF#32) (getInt input 'n' (-1))) input) ↔
      InScopeOf around "dac_sweep" input :=
  helpScope (by decide) (crateTalks (talksDacSweep _ _ _ _))

theorem statusScope (around : Surroundings) (input : Text) :
    JobInside (.holding false (bit (crateNumOf input)) (checkXL3Status (crateNumOf input))) ↔
      InScopeOf around "check_xl3_status" input := by
  have asks : asksUsage "check_xl3_status" input = false := by simp [asksUsage]
  refine (crateTalks (talksOnce _)).trans ?_
  rw [InScopeOf, asks]
  exact ⟨fun on _ => on trivial, fun on _ => on rfl⟩

theorem selectedBoards {around : Surroundings} {crateMask : BitVec 32} {slotMasks : SlotMasks}
    {loadECAL : Text} {selection : Selection}
    (selected : selectBoards around crateMask slotMasks loadECAL = some selection) :
    selection.crateMask = crateMask ∨ ∃ document, loadECAL ≠ [] ∧
      around.ecalDocument loadECAL = some document ∧ crateMask = 0#32 ∧ slotMasks 0 = 0#32 ∧
      selection = documentSelection document := by
  unfold selectBoards at selected
  split at selected
  · exact .inl (congrArg Selection.crateMask (Option.some.inj selected)).symm
  · rename_i load
    split at selected
    · contradiction
    · rename_i document found
      split at selected
      · rename_i empty
        exact .inr ⟨document, load, found, empty.1, empty.2, (Option.some.inj selected).symm⟩
      · split at selected
        · contradiction
        · exact .inl (congrArg Selection.crateMask (Option.some.inj selected)).symm

theorem detectedBoards {around : Surroundings} {detectorFlag : Bool} {selection boards : Selection}
    (detected : detectorBoards around detectorFlag selection = some boards) :
    boards.crateMask = selection.crateMask ∧ (around.underground = true → detectorFlag = true →
      (around.detectorSlotMask selection.crateMask selection.slotMasks).isSome = true) := by
  unfold detectorBoards at detected
  split at detected
  · obtain ⟨slotMasks, given, rfl⟩ := Option.map_eq_some_iff.mp detected
    exact ⟨rfl, fun _ _ => by rw [given]; rfl⟩
  · rename_i away
    obtain rfl := Option.some.inj detected
    exact ⟨rfl, fun underground flag => absurd (by rw [underground, flag]; rfl) away⟩

theorem detectorGives {around : Surroundings} {detectorFlag : Bool} {selection : Selection}
    (given : around.underground = true → detectorFlag = true →
      (around.detectorSlotMask selection.crateMask selection.slotMasks).isSome = true) :
    ∃ boards, detectorBoards around detectorFlag selection = some boards := by
  unfold detectorBoards
  split
  · rename_i both
    obtain ⟨underground, flag⟩ := Bool.and_eq_true_iff.mp both
    obtain ⟨slotMasks, some⟩ := Option.isSome_iff_exists.mp (given underground flag)
    exact ⟨_, by rw [some]; rfl⟩
  · exact ⟨_, rfl⟩

theorem ecalTalks (around : Surroundings) (crateMask : BitVec 32) (slotMasks : SlotMasks)
    (testMask : BitVec 32) (quickFlag : Bool) (loadECAL : Text) (detectorFlag : Bool) :
    JobInside (.holding true crateMask
        (ecal around crateMask slotMasks testMask quickFlag loadECAL detectorFlag)) ↔
      ∀ selection, selectBoards around crateMask slotMasks loadECAL = some selection →
        ∀ boards, detectorBoards around detectorFlag selection = some boards →
        selectTests testMask quickFlag ≠ 0#32 →
        ∀ o, performs o (ecalTests boards (selectTests testMask quickFlag) (loadECAL == [])) →
          Inside crateMask o := by
  simp only [JobInside, callsOf, lockedList, performsCall, ecal]
  cases selected : selectBoards around crateMask slotMasks loadECAL with
  | none => simp
  | some selection =>
    cases detected : detectorBoards around detectorFlag selection with
    | none => simp [detected]
    | some boards =>
      simp only [Option.bind_some, detected, Option.some.injEq, forall_eq', performsCall, performsCons,
        performsMaybe, performsProvided, passesMaybe, performsLeave, performsNil, false_or, true_and,
        and_false, or_false, bne_iff_ne, and_imp]
      exact forall_comm

theorem ecalScope (around : Surroundings) (input : Text) :
    JobInside (ecalJob around input) ↔ InScopeOf around "ecal" input := by
  have usage : "ecal" ≠ "check_xl3_status" := by decide
  unfold ecalJob onMasks
  refine helpScope usage ((ecalTalks _ _ _ _ _ _ _).trans ?_)
  change _ ↔ ∀ document, LoadsCrates around input document → _
  constructor
  · intro inside document loads
    have selected : selectBoards around (hexOf input "c" 0#32) (ecalSlotMasks input)
        (getString input 'l' []) = some (documentSelection document) := by
      rw [selectBoards, if_neg loads.load, loads.found]
      exact if_pos ⟨loads.crateMask,loads.slotMask⟩
    obtain ⟨boards, detected⟩ := detectorGives loads.detector
    have all := inside _ selected boards detected loads.tests
    rw [loads.crateMask, ecalUnlocked, (detectedBoards detected).1, documentCrates] at all
    exact all
  · intro beyond selection selected boards detected tests
    obtain ⟨same, given⟩ := detectedBoards detected
    rcases selectedBoards selected with own | ⟨document, load, found, crateMask, slotMask, rfl⟩
    · rw [← own, ← same]
      exact fun o can => performsAll (ecalInside boards _ _) can
    · have none := beyond document ⟨load,found,crateMask,slotMask,given,tests⟩
      rw [crateMask, ecalUnlocked, same, documentCrates]
      exact none

def Scoped (branch : Branch) : Prop := ∀ around input,
  JobInside (branch.job around input) ↔ InScopeOf around branch.name input

section Scoped
variable {name : String} {mtc : Bool}

theorem freeScoped {job : Surroundings → Text → Job} (inside : ∀ around input, JobInside (job around input))
    (free : scopeOf name = .free) : Scoped ⟨name,job⟩ :=
  fun around input => freeScope (inside around input) free

theorem quietScoped (free : scopeOf name = .free) : Scoped ⟨name,fun _ _ => .nothing⟩ :=
  freeScoped (fun _ _ => nothingInside) free

theorem mtcScoped {calls : Text → Calls} (inside : ∀ input, allOps (Inside 0#32) (calls input))
    (free : scopeOf name = .free) : Scoped ⟨name,fun _ => onMTC calls⟩ :=
  freeScoped (fun _ => mtcInside inside) free

theorem masksScoped {dflt : BitVec 32} {calls : BitVec 32 → Text → Calls}
    (inside : ∀ crateMask input, allOps (Inside crateMask) (calls crateMask input))
    (free : scopeOf name = .free) : Scoped ⟨name,fun _ => onMasks dflt calls⟩ :=
  freeScoped (fun _ => masksInside inside) free

theorem arrayScoped {calls : Int → Text → Calls} (talks : ∀ n input, Talks n True (calls n input))
    (array : name ≠ "check_xl3_status" ∧ scopeOf name = .array) :
    Scoped ⟨name,fun _ => onCrate mtc calls⟩ := by
  intro around input
  change JobInside (onCrate mtc calls input) ↔ _
  unfold onCrate
  refine helpScope array.1 ((crateTalks (talks _ input)).trans ?_)
  rw [array.2]
  exact true_imp_iff

theorem onceScoped (array : name ≠ "check_xl3_status" ∧ scopeOf name = .array) :
    Scoped ⟨name,fun _ => onCrate mtc fun n _ => .attempt (Xl3.sendCommand n)⟩ :=
  arrayScoped (fun n _ => talksOnce n) array

theorem slottedScoped {calls : Int → Text → Calls}
    (talks : ∀ n input, Talks n (∃ i, i ∈ slots (slotMaskIn input)) (calls n input))
    (slotted : name ≠ "check_xl3_status" ∧ scopeOf name = .slotted) :
    Scoped ⟨name,fun _ => onCrate mtc calls⟩ := by
  intro around input
  change JobInside (onCrate mtc calls input) ↔ _
  unfold onCrate
  refine helpScope slotted.1 ((crateTalks (talks _ input)).trans ?_)
  rw [slotted.2]
  exact Iff.rfl

end Scoped

theorem xl3Scoped : ∀ branch ∈ xl3Branches, Scoped branch := by
  simp only [xl3Branches, List.forall_mem_cons]
  exact ⟨(quietScoped (by decide) : Scoped ⟨"exit",_⟩),
    (onceScoped (by decide) : Scoped ⟨"xl3_rw",_⟩),
    (arrayScoped (fun n _ => talksInit n _) (by decide) : Scoped ⟨"crate_init",_⟩),
    (onceScoped (by decide) : Scoped ⟨"xr",_⟩),
    (onceScoped (by decide) : Scoped ⟨"xw",_⟩),
    (arrayScoped (fun n _ => talksQueue n) (by decide) : Scoped ⟨"xl3_queue_rw",_⟩),
    (onceScoped (by decide) : Scoped ⟨"sm_reset",_⟩),
    (onceScoped (by decide) : Scoped ⟨"debugging_on",_⟩),
    (onceScoped (by decide) : Scoped ⟨"debugging_off",_⟩),
    (onceScoped (by decide) : Scoped ⟨"change_mode",_⟩),
    (onceScoped (by decide) : Scoped ⟨"set_relays",_⟩),
    (onceScoped (by decide) : Scoped ⟨"get_relays",_⟩),
    (statusScope : Scoped ⟨"check_xl3_status",_⟩),
    (onceScoped (by decide) : Scoped ⟨"read_local_voltage",_⟩),
    (onceScoped (by decide) : Scoped ⟨"hv_readback",_⟩),
    (onceScoped (by decide) : Scoped ⟨"set_alarm_level",_⟩),
    (onceScoped (by decide) : Scoped ⟨"set_alarm_dac",_⟩),
    (onceScoped (by decide) : Scoped ⟨"fr",_⟩),
    (onceScoped (by decide) : Scoped ⟨"fw",_⟩),
    (arrayScoped (fun n _ => talksRelays n) (by decide) : Scoped ⟨"load_relays",_⟩),
    (arrayScoped (fun n _ => talksBundle n) (by decide) : Scoped ⟨"read_bundle",_⟩),
    (arrayScoped (fun n _ => talksBare n) (by decide) : Scoped ⟨"setup_chinj",_⟩),
    (arrayScoped (fun n _ => talksBare n) (by decide) : Scoped ⟨"load_dac",_⟩),
    fun _ mem => absurd mem List.not_mem_nil⟩

theorem mtcBranchesScoped : ∀ branch ∈ mtcBranches, Scoped branch := by
  have sbc : ∀ {name : String} {calls : Calls}, allOps (Inside 0#32) calls → scopeOf name = .free →
      Scoped ⟨name,fun _ => onMTC fun _ => calls⟩ := fun all => mtcScoped fun _ => all
  have added : ∀ input, allOps (Inside 0#32) (setOrAdd Mtc.toggle Mtc.toggle input) :=
    fun _ => setOrAddInside (by simp) (by simp) _
  simp only [mtcBranches, List.forall_mem_cons]
  exact ⟨(freeScoped (fun _ => helpInside fun _ => controlInside _) (by decide) : Scoped ⟨"sbc_control",_⟩),
    (mtcScoped (fun _ => by simp [mtcInit]) (by decide) : Scoped ⟨"mtc_init",_⟩),
    (sbc (by simp) (by decide) : Scoped ⟨"mr",_⟩),
    (sbc (by simp) (by decide) : Scoped ⟨"mw",_⟩),
    (sbc (by simp) (by decide) : Scoped ⟨"mtc_read",_⟩),
    (sbc (by simp) (by decide) : Scoped ⟨"mtc_write",_⟩),
    (sbc (by simp) (by decide) : Scoped ⟨"mtc_delay",_⟩),
    (sbc (by simp) (by decide) : Scoped ⟨"set_mtca_thresholds",_⟩),
    (mtcScoped added (by decide) : Scoped ⟨"set_gt_mask",_⟩),
    (mtcScoped added (by decide) : Scoped ⟨"set_gt_crate_mask",_⟩),
    (mtcScoped added (by decide) : Scoped ⟨"set_ped_crate_mask",_⟩),
    (sbc (by simp) (by decide) : Scoped ⟨"enable_pulser",_⟩),
    (sbc (by simp) (by decide) : Scoped ⟨"disable_pulser",_⟩),
    (sbc (by simp) (by decide) : Scoped ⟨"enable_pedestal",_⟩),
    (sbc (by simp) (by decide) : Scoped ⟨"disable_pedestal",_⟩),
    (sbc (by simp) (by decide) : Scoped ⟨"set_pulser_freq",_⟩),
    (sbc (by simp) (by decide) : Scoped ⟨"send_softgt",_⟩),
    (sbc (by simp) (by decide) : Scoped ⟨"multi_softgt",_⟩),
    fun _ mem => absurd mem List.not_mem_nil⟩

theorem testsScoped : ∀ branch ∈ testBranches, Scoped branch := by
  simp only [testBranches, List.forall_mem_cons]
  exact ⟨(slottedScoped (fun n _ => talksBoardID n _) (by decide) : Scoped ⟨"board_id",_⟩),
    (arrayScoped (fun n _ => talksCald n _ _) (by decide) : Scoped ⟨"cald_test",_⟩),
    (arrayScoped (fun n _ => talksCGT n _ _) (by decide) : Scoped ⟨"cgt_test",_⟩),
    (arrayScoped (fun n _ => talksOrphan n _) (by decide) : Scoped ⟨"orphan_test",_⟩),
    (arrayScoped (fun n _ => talksChinj n _ _) (by decide) : Scoped ⟨"chinj_scan",_⟩),
    (slottedScoped (fun n _ => talksCBal n _ _) (by decide) : Scoped ⟨"crate_cbal",_⟩),
    (arrayScoped (fun n _ => talksDisc n _ _) (by decide) : Scoped ⟨"disc_check",_⟩),
    (arrayScoped (fun n _ => talksFEC n _ _) (by decide) : Scoped ⟨"fec_test",_⟩),
    (arrayScoped (fun n _ => talksFifo n _ _) (by decide) : Scoped ⟨"fifo_test",_⟩),
    (freeScoped (fun _ => crateInside fun _ _ => gtValidInside _ _ _ _ _) (by decide) : Scoped ⟨"gtvalid_test",_⟩),
    (arrayScoped (fun n _ => talksMeasure n _) (by decide) : Scoped ⟨"measure_gtvalids",_⟩),
    (arrayScoped (fun n _ => talksStability n _ _) (by decide) : Scoped ⟨"mb_stability_test",_⟩),
    (arrayScoped (fun n _ => talksMem n _) (by decide) : Scoped ⟨"mem_test",_⟩),
    (arrayScoped (fun n _ => talksPedRun n _ _) (by decide) : Scoped ⟨"ped_run",_⟩),
    (arrayScoped (fun n _ => talksAllPed n _ _ _) (by decide) : Scoped ⟨"all_ped_by_channel",_⟩),
    (arrayScoped (fun n _ => talksPedChannel n _) (by decide) : Scoped ⟨"ped_by_channel",_⟩),
    (arrayScoped (fun n _ => talksReflection n _ _ _) (by decide) : Scoped ⟨"see_refl",_⟩),
    (arrayScoped (fun n _ => talksReflectionEsum n _ _) (by decide) : Scoped ⟨"esum_see_refl",_⟩),
    (masksScoped (fun _ _ => triggerScanInside _ _) (by decide) : Scoped ⟨"trigger_scan",_⟩),
    (slottedScoped (fun n _ => talksGetTTot n _ _ _) (by decide) : Scoped ⟨"get_ttot",_⟩),
    (slottedScoped (fun n _ => talksSetTTot n _ _ _) (by decide) : Scoped ⟨"set_ttot",_⟩),
    (slottedScoped (fun n _ => talksVMon n _ _) (by decide) : Scoped ⟨"vmon",_⟩),
    (arrayScoped (fun n _ => talksLocalVMon n) (by decide) : Scoped ⟨"local_vmon",_⟩),
    (slottedScoped (fun n _ => talksZDisc n _ _) (by decide) : Scoped ⟨"zdisc",_⟩),
    (freeScoped (fun _ => pedestalsJobInside fun _ _ _ _ => pedestalsEndInside _ _ _) (by decide) :
      Scoped ⟨"run_pedestals_end",_⟩),
    (freeScoped (fun _ => pedestalsJobInside fun _ _ _ _ => pedestalsInside _ _ _ _) (by decide) :
      Scoped ⟨"run_pedestals",_⟩),
    fun _ mem => absurd mem List.not_mem_nil⟩

theorem othersScoped : ∀ branch ∈ otherBranches, Scoped branch := by
  simp only [otherBranches, List.forall_mem_cons]
  exact ⟨(arrayScoped (fun n _ => talksFinal n _ _) (by decide) : Scoped ⟨"final_test",_⟩),
    (ecalScope : Scoped ⟨"ecal",_⟩),
    (quietScoped (by decide) : Scoped ⟨"create_fec_doc",_⟩),
    (masksScoped (fun _ _ => findNoiseInside _ _ _ _ _) (by decide) : Scoped ⟨"find_noise",_⟩),
    (dacSweepScope : Scoped ⟨"dac_sweep",_⟩),
    (freeScoped (fun _ _ => checkInside) (by decide) : Scoped ⟨"check_recv_queues",_⟩),
    (freeScoped (fun _ => helpInside fun _ => macroInside _) (by decide) : Scoped ⟨"run_macro",_⟩),
    (quietScoped (by decide) : Scoped ⟨"reset_speed",_⟩),
    (quietScoped (by decide) : Scoped ⟨"help",_⟩),
    (quietScoped (by decide) : Scoped ⟨"clear_screen",_⟩),
    (quietScoped (by decide) : Scoped ⟨"start_logging",_⟩),
    (quietScoped (by decide) : Scoped ⟨"stop_logging",_⟩),
    (quietScoped (by decide) : Scoped ⟨"print_connected",_⟩),
    (freeScoped (fun _ => helpInside setECALBitInside) (by decide) : Scoped ⟨"set_ecal_bit",_⟩),
    fun _ mem => absurd mem List.not_mem_nil⟩

theorem branchesScope : ∀ branch ∈ branches, Scoped branch := by
  unfold branches
  simp only [List.forall_mem_append]
  exact ⟨⟨⟨xl3Scoped,mtcBranchesScoped⟩,testsScoped⟩,othersScoped⟩

/- A line that `ProcessCommand` is called with, itself or from a macro, and the links
then. The commands before it have returned. -/
inductive Reaches (around : Surroundings) : List Text → Links → Text → Links → Prop where
  | here {input later links} : Reaches around (input::later) links input links
  | inside {input later fileName lines links line links'} :
      jobOf around input = .runMacro fileName → around.macroLines fileName = some lines →
      Reaches around lines links line links' → Reaches around (input::later) links line links'
  | behind {input later links calls mid mid' line links'} :
      Processes around [input] links calls mid .passed → SameLocks mid mid' →
      Reaches around later mid' line links' → Reaches around (input::later) links line links'

theorem jobScope (around : Surroundings) (input : Text) :
    JobInside (jobOf around input) ↔ InScope around input := by
  unfold jobOf InScope
  cases found : branchOf input with
  | none => exact iff_of_true nothingInside fun _ impossible => absurd impossible (by simp)
  | some branch =>
    have scope := branchesScope branch (List.mem_of_find?_eq_some found) around input
    exact scope.trans ⟨fun inside _ same => Option.some.inj same ▸ inside, fun all => all branch rfl⟩

/- In every run of a line, each command sends to crates of the array that it has
locked, exactly when every command that gets its locks meets the condition. -/
theorem commandsSendInside (around : Surroundings) (input : Text) (links : Links) :
    (∀ line links', Reaches around [input] links line links' → SendsInside around line links') ↔
      ∀ line links', Reaches around [input] links line links' →
        Goes links' (jobOf around line) → InScope around line := by
  refine forall_congr' fun line => forall_congr' fun links' => imp_congr_right fun _ => ?_
  rw [sendsInside, jobScope]

def oneDocument : Surroundings :=
  { ecalDocument := fun _ => some [⟨3,[0]⟩], underground := false,
    detectorSlotMask := fun _ _ => none, macroLines := fun _ => none }

def SendsOutside (input : Text) : Prop :=
  ¬ ∀ line links, Reaches oneDocument [input] allConnected line links → SendsInside oneDocument line links

theorem sendsOutside : SendsOutside "xl3_rw -c 25".toList ∧ SendsOutside "ecal -l 1".toList := by
  have outside : ∀ {name : String} {job : Surroundings → Text → Job} {input : Text},
      branchOf input = some ⟨name,job⟩ → Goes allConnected (jobOf oneDocument input) →
      asksUsage name input = false → ¬ Meets oneDocument input (scopeOf name) → SendsOutside input :=
    fun found goes usage fails all => by
      have inside := (sendsInside _ _ _).mp (all _ _ .here) goes
      exact fails ((jobScope _ _).mp inside _ found usage)
  have goes : ∀ {mtc : Bool} {xl3List : BitVec 32} {calls : Calls},
      (lockConnections allConnected (sbcFlag mtc) xl3List).1 = 0 →
      Goes allConnected (.holding mtc xl3List calls) := (lockSucceeds _ _ _).mp
  refine ⟨?_, ?_⟩
  · refine outside rfl (goes (by decide)) (by decide) ?_
    rw [show scopeOf "xl3_rw" = .array by decide]
    exact fun on => absurd on.2 (by decide)
  · refine outside rfl (goes (by decide)) (by decide) ?_
    rw [show scopeOf "ecal" = .document by decide]
    have loads : LoadsCrates oneDocument "ecal -l 1".toList [⟨3,[0]⟩] :=
      ⟨by decide, rfl, by decide, by decide, fun underground => absurd underground (by decide), by decide⟩
    exact fun meets => absurd (meets _ loads _ (List.mem_singleton_self _)) (by decide)

end PennDaq.CommandScope
