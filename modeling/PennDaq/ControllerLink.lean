import PennDaq.Globals
import PennDaq.Options
import PennDaq.Sequences

/-! `ControllerLink::ProcessCommand`: which command a line is, what the command locks
and unlocks, and what it does on the links in between. -/
namespace PennDaq.ControllerLink
open Lib.CString
open Lib.Skeleton
open Options Globals LinkCalls TestCalls MaskCalls Sequences

/- What a line makes `ProcessCommand` do. `holding` stands for a call between
`LockConnections(sbc,xl3List)` and `UnlockConnections` with the same arguments. -/
inductive Job where
  | nothing
  | free (calls : Calls)
  | holding (mtc : Bool) (xl3List : BitVec 32) (calls : Calls)
  | sbcControl (connect : Bool)
  | checkRecvQueues
  | runMacro (fileName : Text)

def crateNumOf (input : Text) : Int := getInt input 'c' 2

def hexOf (input : Text) (flag : String) (dflt : BitVec 32) : BitVec 32 :=
  getUInt input flag.toList dflt 1

def slotMaskIn (input : Text) : BitVec 32 := hexOf input "s" 0xFFFF#32

def slotMasksIn (input : Text) : SlotMasks := getMultiUInt input maxXL3Con 's' 0xFFFF#32

def unlessHelp (job : Text → Job) (input : Text) : Job :=
  if getFlag input 'h' then .nothing else job input

def onCrate (mtc : Bool) (calls : Int → Text → Calls) : Text → Job :=
  unlessHelp fun input =>
    .holding mtc (bit (crateNumOf input)) (calls (crateNumOf input) input)

def onSlots (mtc : Bool) (calls : Int → BitVec 32 → Calls) : Text → Job :=
  onCrate mtc fun crateNum input => calls crateNum (slotMaskIn input)

def updateIn (input : Text) : Bool := getFlag input 'd'

def onSlotsUpdating (mtc : Bool) (calls : Int → BitVec 32 → Bool → Calls) : Text → Job :=
  onCrate mtc fun crateNum input => calls crateNum (slotMaskIn input) (updateIn input)

def onMTC (calls : Text → Calls) : Text → Job :=
  unlessHelp fun input => .holding true 0#32 (calls input)

def onMasks (dflt : BitVec 32) (calls : BitVec 32 → Text → Calls) : Text → Job :=
  unlessHelp fun input =>
    .holding true (hexOf input "c" dflt) (calls (hexOf input "c" dflt) input)

def initFlags (input : Text) : InitFlags where
  xilinxLoad := if getFlag input 'x' then 1 else if getFlag input 'X' then 2 else 0
  useVBal := getFlag input 'B'
  useVThr := getFlag input 'T'
  useTDisc := getFlag input 'D'
  useTCmos := getFlag input 'C'
  useAll := getFlag input 'A'

def setOrAdd (unset set : Calls) (input : Text) : Calls :=
  if getFlag input 'o' then set else block [unset,set]

def sbcControlJob (input : Text) : Job :=
  let connect := getFlag input 'c'
  let kill := getFlag input 'k'
  let reconnect := getFlag input 'r'
  .sbcControl (connect || reconnect || (!connect && !kill && !reconnect))

/- `run_pedestals` and `run_pedestals_end` are for the crates and the MTC, or with
`_crate` and `_mtc` behind the name for one of both. -/
def runPedestalsJob (name : String) (calls : BitVec 32 → Bool → Bool → Text → Calls) (input : Text) :
    Job :=
  let crate := !sameStart (name.length+4) input (name.toList ++ "_mtc".toList)
  let mtc := !sameStart (name.length+6) input (name.toList ++ "_crate".toList)
  unlessHelp (fun input =>
    let crateMask := hexOf input "c" 4#32
    .holding mtc (if crate then crateMask else 0#32) (calls crateMask crate mtc input)) input

/- The slot mask of a crate stands behind its number, `-s` is for the others. -/
def ecalSlotMasks (input : Text) : SlotMasks := fun i =>
  getUInt input (Nat.toDigits 10 i) (hexOf input "s" 0#32) 2

def ecalJob (around : Surroundings) : Text → Job :=
  onMasks 0#32 fun crateMask input =>
    ecal around crateMask (ecalSlotMasks input) (hexOf input "t" 0xFFFFFFFF#32) (getFlag input 'q')
      (getString input 'l' []) (getFlag input 'z')

def setECALBitJob (input : Text) : Job :=
  let b := getUInt input "b".toList 0#32 1
  if b = 0#32 ∨ b = 1#32 then .free setECALBit else .nothing

structure Branch where
  name : String
  job : Surroundings → Text → Job

/- The branches in the order of the source. -/

def xl3Branches : List Branch := [
  ⟨"exit",fun _ _ => .nothing⟩,
  ⟨"xl3_rw",fun _ => onCrate false fun n _ => xl3RW n⟩,
  ⟨"crate_init",fun _ => onCrate false fun n input => crateInit n (initFlags input)⟩,
  ⟨"xr",fun _ => onCrate false fun n _ => xl3RW n⟩,
  ⟨"xw",fun _ => onCrate false fun n _ => xl3RW n⟩,
  ⟨"xl3_queue_rw",fun _ => onCrate false fun n _ => xl3QueueRW n⟩,
  ⟨"sm_reset",fun _ => onCrate false fun n _ => smReset n⟩,
  ⟨"debugging_on",fun _ => onCrate false fun n _ => debuggingMode n⟩,
  ⟨"debugging_off",fun _ => onCrate false fun n _ => debuggingMode n⟩,
  ⟨"change_mode",fun _ => onCrate false fun n _ => changeMode n⟩,
  ⟨"set_relays",fun _ => onCrate false fun n _ => setRelays n⟩,
  ⟨"get_relays",fun _ => onCrate false fun n _ => getRelays n⟩,
  -- this one has no usage
  ⟨"check_xl3_status",fun _ input =>
    .holding false (bit (crateNumOf input)) (checkXL3Status (crateNumOf input))⟩,
  ⟨"read_local_voltage",fun _ => onCrate false fun n _ => readLocalVoltage n⟩,
  ⟨"hv_readback",fun _ => onCrate false fun n _ => hvReadback n⟩,
  ⟨"set_alarm_level",fun _ => onCrate false fun n _ => setAlarmLevel n⟩,
  ⟨"set_alarm_dac",fun _ => onCrate false fun n _ => setAlarmDac n⟩,
  ⟨"fr",fun _ => onCrate false fun n _ => xl3RW n⟩,
  ⟨"fw",fun _ => onCrate false fun n _ => xl3RW n⟩,
  ⟨"load_relays",fun _ => onCrate false fun n _ => loadRelays n⟩,
  ⟨"read_bundle",fun _ => onCrate false fun n _ => readBundle n⟩,
  ⟨"setup_chinj",fun _ => onCrate false fun n _ => Xl3.setupChargeInjection n⟩,
  ⟨"load_dac",fun _ => onCrate false fun n _ => Xl3.loadsDac n⟩]

def mtcBranches : List Branch := [
  ⟨"sbc_control",fun _ => unlessHelp sbcControlJob⟩,
  ⟨"mtc_init",fun _ => onMTC fun input => mtcInit (getFlag input 'x')⟩,
  ⟨"mr",fun _ => onMTC fun _ => mtcRead⟩,
  ⟨"mw",fun _ => onMTC fun _ => mtcWrite⟩,
  ⟨"mtc_read",fun _ => onMTC fun _ => mtcRead⟩,
  ⟨"mtc_write",fun _ => onMTC fun _ => mtcWrite⟩,
  ⟨"mtc_delay",fun _ => onMTC fun _ => mtcDelay⟩,
  ⟨"set_mtca_thresholds",fun _ => onMTC fun _ => Mtc.loadMTCADacs⟩,
  ⟨"set_gt_mask",fun _ => onMTC (setOrAdd Mtc.unsetGTMask Mtc.setGTMask)⟩,
  ⟨"set_gt_crate_mask",fun _ => onMTC (setOrAdd Mtc.unsetGTCrateMask Mtc.setGTCrateMask)⟩,
  ⟨"set_ped_crate_mask",fun _ => onMTC (setOrAdd Mtc.unsetPedCrateMask Mtc.setPedCrateMask)⟩,
  ⟨"enable_pulser",fun _ => onMTC fun _ => Mtc.enablePulser⟩,
  ⟨"disable_pulser",fun _ => onMTC fun _ => Mtc.disablePulser⟩,
  ⟨"enable_pedestal",fun _ => onMTC fun _ => Mtc.enablePedestal⟩,
  ⟨"disable_pedestal",fun _ => onMTC fun _ => Mtc.disablePedestal⟩,
  ⟨"set_pulser_freq",fun _ => onMTC fun _ => Mtc.setPulserFrequency⟩,
  ⟨"send_softgt",fun _ => onMTC fun _ => Mtc.softGT⟩,
  ⟨"multi_softgt",fun _ => onMTC fun _ => Mtc.multiSoftGT⟩]

def testBranches : List Branch := [
  ⟨"board_id",fun _ => onSlots false boardID⟩,
  ⟨"cald_test",fun _ => onSlotsUpdating false caldTest⟩,
  ⟨"cgt_test",fun _ => onSlotsUpdating true cgtTest⟩,
  ⟨"orphan_test",fun _ => onSlots true orphanTest⟩,
  ⟨"chinj_scan",fun _ => onSlotsUpdating true chinjScan⟩,
  ⟨"crate_cbal",fun _ => onSlotsUpdating true crateCBal⟩,
  ⟨"disc_check",fun _ => onSlotsUpdating true discCheck⟩,
  ⟨"fec_test",fun _ => onSlotsUpdating false fecTest⟩,
  ⟨"fifo_test",fun _ => onSlotsUpdating true fifoTest⟩,
  ⟨"gtvalid_test",fun _ => onCrate true fun n input =>
    gtValidTest (bit n) (slotMasksIn input) (hexOf input "p" 0xFFFFFFFF#32) (getFlag input 'q')
      (updateIn input || getFlag input 'z')⟩,
  ⟨"measure_gtvalids",fun _ => onSlots true measureGTValidOnly⟩,
  ⟨"mb_stability_test",fun _ => onSlotsUpdating true mbStabilityTest⟩,
  ⟨"mem_test",fun _ => onCrate false fun n input => memTest n (updateIn input)⟩,
  ⟨"ped_run",fun _ => onSlotsUpdating true pedRun⟩,
  ⟨"all_ped_by_channel",fun _ => onCrate true fun n input =>
    allPedRunByChannel n (hexOf input "s" 0#32) (updateIn input) (hexOf input "p" 0xFFFFFFFF#32)⟩,
  ⟨"ped_by_channel",fun _ => onCrate true fun n input => pedRunByChannel n (getInt input 's' 0)⟩,
  ⟨"see_refl",fun _ => onCrate true fun n input =>
    seeReflection n (slotMaskIn input) (updateIn input) (hexOf input "p" 0xFFFFFFFF#32)⟩,
  ⟨"esum_see_refl",fun _ => onSlotsUpdating true seeReflectionEsum⟩,
  ⟨"trigger_scan",fun _ => onMasks 4#32 fun crateMask input => triggerScan crateMask (slotMasksIn input)⟩,
  ⟨"get_ttot",fun _ => onSlotsUpdating true fun n slotMask update => getTTot n slotMask update false⟩,
  ⟨"set_ttot",fun _ => onSlotsUpdating true fun n slotMask update => setTTot n slotMask update false⟩,
  ⟨"vmon",fun _ => onSlotsUpdating false vMon⟩,
  ⟨"local_vmon",fun _ => onCrate false fun n _ => localVMon n⟩,
  ⟨"zdisc",fun _ => onCrate false fun n input =>
    zDisc n (slotMaskIn input) (updateIn input || getFlag input 'z')⟩,
  ⟨"run_pedestals_end",fun _ => runPedestalsJob "run_pedestals_end" fun crateMask crate mtc _ =>
    runPedestalsEnd crateMask crate mtc⟩,
  ⟨"run_pedestals",fun _ => runPedestalsJob "run_pedestals" fun crateMask crate mtc input =>
    runPedestals crateMask (slotMasksIn input) crate mtc⟩]

def otherBranches : List Branch := [
  ⟨"final_test",fun _ => onCrate true fun n input =>
    finalTest n (slotMaskIn input) (hexOf input "t" 0xFFFFFFFF#32)⟩,
  ⟨"ecal",ecalJob⟩,
  -- `create_fec_docs`, of which 14 characters are compared; it is about documents only
  ⟨"create_fec_doc",fun _ _ => .nothing⟩,
  ⟨"find_noise",fun _ => onMasks 4#32 fun crateMask input =>
    findNoise crateMask (slotMasksIn input) true (getFlag input 'i') (updateIn input)⟩,
  ⟨"dac_sweep",fun _ => onCrate false fun n input =>
    dacSweep n (slotMaskIn input) (hexOf input "m" 0xFFFFFFFF#32) (getInt input 'n' (-1))⟩,
  ⟨"check_recv_queues",fun _ _ => .checkRecvQueues⟩,
  ⟨"run_macro",fun _ => unlessHelp fun input => .runMacro (getString input 'f' [])⟩,
  ⟨"reset_speed",fun _ _ => .nothing⟩,
  ⟨"help",fun _ _ => .nothing⟩,
  ⟨"clear_screen",fun _ _ => .nothing⟩,
  ⟨"start_logging",fun _ _ => .nothing⟩,
  ⟨"stop_logging",fun _ _ => .nothing⟩,
  ⟨"print_connected",fun _ _ => .nothing⟩,
  ⟨"set_ecal_bit",fun _ => unlessHelp setECALBitJob⟩]

def branches : List Branch := xl3Branches ++ mtcBranches ++ testBranches ++ otherBranches

def branchOf (input : Text) : Option Branch :=
  branches.find? fun branch => sameStart branch.name.length input branch.name.toList

def jobOf (around : Surroundings) (input : Text) : Job :=
  match branchOf input with
  | none => .nothing
  | some branch => branch.job around input

theorem unlessHelpHolds {holds : Job → Prop} (nothing : holds .nothing) {job : Text → Job}
    (each : ∀ input, holds (job input)) (input : Text) : holds (unlessHelp job input) := by
  unfold unlessHelp
  split
  · exact nothing
  · exact each input

/- Whoever opens and closes connections meanwhile leaves the locks alone. -/
def SameLocks (links links' : Links) : Prop := lockedBoards links' = lockedBoards links

def sbcFlag (mtc : Bool) : Int := if mtc then 1 else 0

/- `if (LockConnections(1,0x0))`: the queue is looked at and the lock given back when
it was not taken. -/
def checkMTCQueue (links : Links) : Links :=
  let locked := lockConnections links 1 0#32
  if locked.1 ≠ 0 then unlockConnections locked.2 1 0#32 else locked.2

def checkXL3Queue (links : Links) (i : Fin maxXL3Con) : Links :=
  let locked := lockConnections links 0 (1#32 <<< i.val)
  if locked.1 ≠ 0 then unlockConnections locked.2 0 (1#32 <<< i.val) else locked.2

def checkRecvQueues (links : Links) : Links :=
  (List.finRange maxXL3Con).foldl checkXL3Queue (checkMTCQueue links)

inductive Performs (around : Surroundings) (before : Links) :
    Job → Links → List (Event Op) → Exit → Prop where
  | nothing : Performs around before .nothing before [] .passed
  | free {calls events exit after} : Runs false (.call calls) events exit →
      SameLocks before after → Performs around before (.free calls) after events exit
  | refused {mtc xl3List calls} :
      (lockConnections before (sbcFlag mtc) xl3List).1 ≠ 0 →
      Performs around before (.holding mtc xl3List calls)
        (lockConnections before (sbcFlag mtc) xl3List).2 [] .passed
  | held {mtc xl3List calls events between} :
      (lockConnections before (sbcFlag mtc) xl3List).1 = 0 →
      Runs false (.call calls) events .passed →
      SameLocks (lockConnections before (sbcFlag mtc) xl3List).2 between →
      Performs around before (.holding mtc xl3List calls)
        (unlockConnections between (sbcFlag mtc) xl3List) events .passed
  | escaped {mtc xl3List calls events after} :
      (lockConnections before (sbcFlag mtc) xl3List).1 = 0 →
      Runs false (.call calls) events .threw →
      SameLocks (lockConnections before (sbcFlag mtc) xl3List).2 after →
      Performs around before (.holding mtc xl3List calls) after events .threw
  | sbcRefused {connect} :
      (lockConnections before 2 0#32).1 ≠ 0 →
      Performs around before (.sbcControl connect) (lockConnections before 2 0#32).2 [] .passed
  | sbcHeld {connect events between} :
      (lockConnections before 2 0#32).1 = 0 →
      Runs false (.call (sbcControl connect)) events .passed →
      SameLocks (lockConnections before 2 0#32).2 between →
      Performs around before (.sbcControl connect) (unlockConnections between 1 0#32) events .passed
  | sbcEscaped {connect events after} :
      (lockConnections before 2 0#32).1 = 0 →
      Runs false (.call (sbcControl connect)) events .threw →
      SameLocks (lockConnections before 2 0#32).2 after →
      Performs around before (.sbcControl connect) after events .threw
  | checkRecvQueues : Performs around before .checkRecvQueues (checkRecvQueues before) [] .passed
  | noMacro {fileName} : around.macroLines fileName = none →
      Performs around before (.runMacro fileName) before [] .passed

structure Call where
  input : Text
  before : Links
  after : Links
  events : List (Event Op)
  exit : Exit

/- The calls that processing some lines makes, those of the lines of macros among
them; a macro's own call is left behind those of its lines. -/
inductive Processes (around : Surroundings) :
    List Text → Links → List Call → Links → Exit → Prop where
  | nil {links} : Processes around [] links [] links .passed
  | command {input later links mid mid' after events calls exit} :
      Performs around links (jobOf around input) mid events .passed → SameLocks mid mid' →
      Processes around later mid' calls after exit →
      Processes around (input::later) links (⟨input,links,mid,events,.passed⟩::calls) after exit
  | commandThrew {input later links after events} :
      Performs around links (jobOf around input) after events .threw →
      Processes around (input::later) links [⟨input,links,after,events,.threw⟩] after .threw
  | macroRan {input later fileName lines links mid mid' after inner calls exit} :
      jobOf around input = .runMacro fileName → around.macroLines fileName = some lines →
      Processes around lines links inner mid .passed → SameLocks mid mid' →
      Processes around later mid' calls after exit →
      Processes around (input::later) links (inner ++ ⟨input,links,mid,[],.passed⟩::calls) after exit
  | macroThrew {input later fileName lines links after inner} :
      jobOf around input = .runMacro fileName → around.macroLines fileName = some lines →
      Processes around lines links inner after .threw →
      Processes around (input::later) links (inner ++ [⟨input,links,after,[],.threw⟩]) after .threw

end PennDaq.ControllerLink
