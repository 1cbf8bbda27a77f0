import PennDaq.Bundles
import PennDaq.Messages
import Mathlib.Data.List.FinRange
import Mathlib.Logic.Function.Basic

/-! The error histories of `CGTTest`: a text of 5000 characters for each slot, with the
errors that the test has seen and a line for each bunch of pulses. -/
namespace PennDaq.CGTTest
open Lib.Rows Bundles Messages

def notEnough (i : Fin 16) (expected found : Nat) : Text :=
  literal "Not enough bundles slot " ++ decimal i ++ literal ": expected " ++ decimal expected ++
    literal ", found " ++ decimal found ++ literal "\n"

def wrong (what : String) (i : Fin 16) (between : String) (chan : Fin 32) (expected read : Nat) : Text :=
  literal what ++ decimal i ++ literal between ++ decimal chan ++ literal ": expected " ++ decimal expected ++
    literal ", read " ++ decimal read ++ literal "\n"

def crateWrong (i : Fin 16) (chan : Fin 32) (expected read : Nat) : Text :=
  wrong "Crate wrong for slot " i ", chan " chan expected read

def slotWrong (i : Fin 16) (chan : Fin 32) (expected read : Nat) : Text :=
  wrong "Slot wrong for slot " i " chan " chan expected read

def ncWrong (i : Fin 16) (chan : Fin 32) (expected read : Nat) : Text :=
  wrong "NC_CC wrong for slot " i " chan " chan expected read

def bundleWords (b : Bundle) : Text := onWords hexWords b

def badUpper (i : Fin 16) (chan : Fin 32) (expected read : Nat) (b : Bundle) : Text :=
  wrong "Bad upper 8 Gtid bits for slot " i " chan " chan expected read ++ bundleWords b

def badLower (i : Fin 16) (chan : Fin 32) (expected read : Nat) (b : Bundle) : Text :=
  wrong "Bad lower 16 gtid bits for slot " i " chan " chan expected read ++ bundleWords b

def badGtid (i : Fin 16) (chan : Fin 32) (expected read : Nat) (b : Bundle) : Text :=
  wrong "Bad gtid for slot " i " chan " chan expected read ++ bundleWords b

def synclear (i : Fin 16) (chan : Fin 32) : Text :=
  literal "Synclear error for slot " ++ decimal i ++ literal " chan " ++ decimal chan ++ literal ".\n"

def noBundle (i : Fin 16) (k : Fin 32) : Text :=
  literal "No bundle found for slot " ++ decimal i ++ literal " chan " ++ decimal k ++ literal "\n"

def progressLine (totalPulses : Nat) : Text := decimal totalPulses ++ literal " pulses\n"

def historySize : Nat := 5000

structure State where
  writes : List (Write 16)
  maxErrors : Fin 16 → Nat
  missingBundles : Fin 16 → Bool
  chanErrors : Fin 16 → Fin 32 → Bool
  totalPulses : Nat

def State.history (s : State) (i : Fin 16) : Nat := length historySize s.writes i

def State.append (s : State) (i : Fin 16) (text : Text) : State :=
  { s with writes := ⟨i,text.bytes,text.noZero⟩::s.writes }

def report (s : State) (i : Fin 16) (curMsg : Text) : State :=
  if s.history i + curMsg.bytes.length < historySize then s.append i curMsg
  else { s with maxErrors := Function.update s.maxErrors i 2 }

def missingBundle (s : State) (i : Fin 16) : State :=
  { s with missingBundles := Function.update s.missingBundles i true }

def chanError (s : State) (i : Fin 16) (chan : Fin 32) : State :=
  { s with chanErrors := Function.update s.chanErrors i (Function.update (s.chanErrors i) chan true) }

def reportChan (s : State) (i : Fin 16) (chan : Fin 32) (found : Bool) (curMsg : Text) : State :=
  if found then chanError (report s i curMsg) i chan else s

structure Reading where
  skipped : BitVec 32
  level : BitVec 32
  bundles : Nat → Bundle

abbrev Readings := Nat → Fin 16 → Reading

section Test
variable (crateNum : Fin 20) (slotMask channelMask : BitVec 32) (readings : Readings)

def numChans : Nat := (List.range 32).countP fun k => channelMask.getLsbD k

def numgt (j : Nat) : Nat := if j ≠ 13 then 4999 else 534

def tested (s : State) (i : Fin 16) : Bool := slotMask.getLsbD i && s.maxErrors i == 0

def checkLevel (s : State) (i : Fin 16) (result : BitVec 32) (expected : Nat) : State :=
  let found := (result &&& 0x000FFFFF).toNat
  if found ≠ expected then missingBundle (report s i (notEnough i expected found)) i else s

def checkSkipped (j : Nat) (s : State) (i : Fin 16) : State :=
  if tested slotMask s i then checkLevel s i (readings j i).skipped (numgt j*3*numChans channelMask) else s

def chanOf (b : Bundle) : Fin 32 := ⟨(unpkChannelID b).toNat % 32,Nat.mod_lt _ (by decide)⟩

/- `rollover bug` in the fourteenth round -/
def countPulses (j : Nat) (s : State) : State :=
  { s with totalPulses := s.totalPulses + (numgt j+1) + if j = 13 then 1 else 0 }

def checkBundle (j : Nat) (i : Fin 16) (s : State) (b : Bundle) : State :=
  let crateID := (unpkCrateID b).toNat
  let slotID := (unpkBoardID b).toNat
  let chan := chanOf b
  let ncID := (unpkNcCC b).toNat
  let gt16 := (unpkFecGT16ID b).toNat
  let gt8 := (unpkFecGT8ID b).toNat
  let es16 := (unpkCgtES16 b).toNat
  let total := s.totalPulses
  let s := reportChan s i chan (crateID ≠ crateNum) (crateWrong i chan crateNum crateID)
  let s := reportChan s i chan (slotID ≠ i) (slotWrong i chan i slotID)
  let s := reportChan s i chan (ncID ≠ 0) (ncWrong i chan 0 ncID)
  let s := reportChan s i chan (gt16 + 65536*gt8 ≠ total)
    (if gt16 = total % 65536 then badUpper i chan (total - total % 65536) (65536*gt8) b
      else if gt8 = total/65536 then badLower i chan (total % 65536) gt16 b
      else badGtid i chan total (gt16 + 65536*gt8) b)
  reportChan s i chan (es16 ≠ 0 ∧ j ≥ 13) (synclear i chan)

def checkBundles (j : Nat) (i : Fin 16) (s : State) : State × BitVec 32 :=
  (List.range (((readings j i).level &&& 0x000FFFFF).toNat/3)).foldl
    (fun (s,badchanmask) k => (checkBundle crateNum j i s ((readings j i).bundles k),
      badchanmask &&& ~~~(1#32 <<< (chanOf ((readings j i).bundles k)).val))) (s,channelMask)

def checkMissing (i : Fin 16) (s : State) (badchanmask : BitVec 32) : State :=
  (List.finRange 32).foldl (fun s k => reportChan s i k (badchanmask.getLsbD k) (noBundle i k)) s

def checkSlot (j : Nat) (s : State) (i : Fin 16) : State :=
  if tested slotMask s i then
    let s := checkLevel s i (readings j i).level (3*numChans channelMask)
    let (s,badchanmask) := checkBundles crateNum channelMask readings j i s
    checkMissing i s badchanmask
  else s

def giveUp (s : State) (i : Fin 16) : State :=
  if s.history i > historySize ∧ s.maxErrors i = 0 ∨ s.maxErrors i = 2 then
    { s with maxErrors := Function.update s.maxErrors i 1 }
  else s

def eachSlot (step : State → Fin 16 → State) (s : State) : State := (List.finRange 16).foldl step s

def checked (j : Nat) (s : State) : State :=
  let s := eachSlot (checkSkipped slotMask channelMask readings j) s
  let s := countPulses j s
  let s := eachSlot (checkSlot crateNum slotMask channelMask readings j) s
  eachSlot giveUp s

def progress (s : State) : State := eachSlot (fun s' i => s'.append i (progressLine s.totalPulses)) s

def start : State := ⟨[],fun _ => 0,fun _ => false,fun _ _ => false,0⟩

def after : Nat → State
  | 0 => start
  | j+1 => progress (checked crateNum slotMask channelMask readings j (after j))

/- In each of so many rounds the progress line still fits into the history of every slot. -/
def LineFits (rounds : Nat) : Prop := ∀ j < rounds, ∀ i,
  (checked crateNum slotMask channelMask readings j (after crateNum slotMask channelMask readings j)).history i +
    (progressLine (checked crateNum slotMask channelMask readings j
      (after crateNum slotMask channelMask readings j)).totalPulses).bytes.length < historySize

end Test

def Fits (s : State) : Prop := Fit historySize s.writes

theorem reportFits (s : State) (i : Fin 16) (curMsg : Text) : Fits (report s i curMsg) ↔ Fits s := by
  unfold report
  split
  · rename_i room
    exact and_iff_left room
  · rfl

theorem missingFits (s : State) (i : Fin 16) : Fits (missingBundle s i) ↔ Fits s := Iff.rfl

theorem chanFits (s : State) (i : Fin 16) (chan : Fin 32) : Fits (chanError s i chan) ↔ Fits s := Iff.rfl

theorem reportChanFits (s : State) (i : Fin 16) (chan : Fin 32) (found : Bool) (curMsg : Text) :
    Fits (reportChan s i chan found curMsg) ↔ Fits s := by
  unfold reportChan
  split
  · exact (chanFits _ i chan).trans (reportFits s i curMsg)
  · rfl

theorem foldKeeps {α : Type} {ι : Type} {step : State → ι → State} {part : State → α}
    (each : ∀ s i, part (step s i) = part s) (items : List ι) (s : State) : part (items.foldl step s) = part s := by
  induction items generalizing s with
  | nil => rfl
  | cons i later ih => exact (ih (step s i)).trans (each s i)

theorem foldFits {ι : Type} {step : State → ι → State} (each : ∀ s i, Fits (step s i) ↔ Fits s) (items : List ι)
    (s : State) : Fits (items.foldl step s) ↔ Fits s :=
  iff_of_eq (foldKeeps (fun s i => propext (each s i)) items s)

theorem checkLevelFits (s : State) (i : Fin 16) (result : BitVec 32) (expected : Nat) :
    Fits (checkLevel s i result expected) ↔ Fits s := by
  unfold checkLevel
  simp only
  split
  · exact (missingFits _ i).trans (reportFits s i _)
  · rfl

section Rounds
variable (crateNum : Fin 20) (slotMask channelMask : BitVec 32) (readings : Readings)

theorem checkBundleFits (j : Nat) (i : Fin 16) (s : State) (b : Bundle) :
    Fits (checkBundle crateNum j i s b) ↔ Fits s := by
  unfold checkBundle
  simp only [reportChanFits]

theorem checkBundlesFits (j : Nat) (i : Fin 16) (s : State) :
    Fits (checkBundles crateNum channelMask readings j i s).1 ↔ Fits s := by
  unfold checkBundles
  generalize channelMask = mask
  induction List.range (((readings j i).level &&& 0x000FFFFF).toNat/3) generalizing s mask with
  | nil => rfl
  | cons k later ih => exact (ih _ _).trans (checkBundleFits crateNum j i s _)

theorem checkSlotFits (j : Nat) (s : State) (i : Fin 16) :
    Fits (checkSlot crateNum slotMask channelMask readings j s i) ↔ Fits s := by
  unfold checkSlot
  split
  · simp only [checkMissing]
    rw [foldFits (fun s k => reportChanFits s i k _ _), checkBundlesFits, checkLevelFits]
  · rfl

theorem checkedFits (j : Nat) (s : State) :
    Fits (checked crateNum slotMask channelMask readings j s) ↔ Fits s := by
  have skips (s : State) (i : Fin 16) : Fits (checkSkipped slotMask channelMask readings j s i) ↔ Fits s := by
    unfold checkSkipped
    split
    · exact checkLevelFits s i _ _
    · rfl
  have gives (s : State) (i : Fin 16) : Fits (giveUp s i) ↔ Fits s := by
    unfold giveUp
    split
    · rfl
    · rfl
  unfold checked eachSlot
  rw [foldFits gives, foldFits (checkSlotFits crateNum slotMask channelMask readings j)]
  exact foldFits skips _ s

end Rounds

theorem historyAppended {s : State} {i : Fin 16} {text : Text} (fits : Fits (s.append i text)) (k : Fin 16) :
    (s.append i text).history k = if i = k then s.history k + text.bytes.length else s.history k :=
  lengthAppended (by decide) fits k

theorem linesFit (text : Text) {items : List (Fin 16)} (distinct : items.Nodup) (s : State) :
    Fits (items.foldl (fun s' i => s'.append i text) s) ↔
      Fits s ∧ ∀ i ∈ items, s.history i + text.bytes.length < historySize := by
  have writes : (items.foldl (fun s' i => s'.append i text) s).writes = alike items text.bytes text.noZero s.writes := by
    clear distinct
    induction items generalizing s with
    | nil => rfl
    | cons i later ih => exact ih (s.append i text)
  rw [Fits, writes]
  exact alikeFit distinct (by decide) s.writes

section Run
variable (crateNum : Fin 20) (slotMask channelMask : BitVec 32) (readings : Readings)

theorem afterFits (rounds : Nat) : Fits (after crateNum slotMask channelMask readings rounds) ↔
    LineFits crateNum slotMask channelMask readings rounds := by
  unfold LineFits
  induction rounds with
  | zero => exact iff_of_true trivial fun j none' => absurd none' (Nat.not_lt_zero j)
  | succ j ih =>
    rw [after, progress, eachSlot, linesFit _ (List.nodup_finRange 16), checkedFits, ih, Nat.forall_lt_succ_right]
    simp only [List.mem_finRange, true_implies]

/- Also in a round that a failed read ends, which is some way from the first state to the second. -/
theorem historiesSeparate (rounds : Nat) :
    (Separate historySize (after crateNum slotMask channelMask readings rounds).writes ↔
      LineFits crateNum slotMask channelMask readings rounds) ∧
    (Separate historySize (checked crateNum slotMask channelMask readings rounds
        (after crateNum slotMask channelMask readings rounds)).writes ↔
      LineFits crateNum slotMask channelMask readings rounds) := by
  have fits := afterFits crateNum slotMask channelMask readings rounds
  have kept := checkedFits crateNum slotMask channelMask readings rounds
    (after crateNum slotMask channelMask readings rounds)
  exact ⟨(separateFit (by decide) _).trans fits,(separateFit (by decide) _).trans (kept.trans fits)⟩

end Run

def otherCrate : Bundle
  | 0 => 0x00200000 ||| 5000
  | 1 | 2 => 0

def crowded : Readings := fun _ _ => ⟨4999*3,97*3,fun _ => otherCrate⟩

theorem crateWrongLength : (crateWrong 0 0 0 1).bytes.length = 51 := by decide

theorem notEnoughLength : (notEnough 0 3 (97*3)).bytes.length = 49 := by decide

def Crowded (i : Fin 16) (n : Nat) (s : State) : Prop := Fits s ∧ s.history i = 49 + 51*n ∧ s.totalPulses = 5000

theorem crowdedChan {k : Fin 16} {n : Nat} {s : State} (crowd : Crowded k n s) (i : Fin 16) (chan : Fin 32) :
    Crowded k n (chanError s i chan) := crowd

theorem crowdedMissing {k : Fin 16} {n : Nat} {s : State} (crowd : Crowded k n s) (i : Fin 16) :
    Crowded k n (missingBundle s i) := crowd

theorem reportAdds {s : State} {i : Fin 16} {curMsg : Text} (fits : Fits s)
    (room : s.history i + curMsg.bytes.length < historySize) : Fits (report s i curMsg) ∧
      (report s i curMsg).history i = s.history i + curMsg.bytes.length ∧
      (report s i curMsg).totalPulses = s.totalPulses := by
  rw [report, if_pos room, historyAppended ⟨fits,room⟩, if_pos rfl]
  exact ⟨⟨fits,room⟩, rfl, rfl⟩

theorem crowdedBundle {n : Nat} (few : n < 97) {s : State} (crowd : Crowded 0 n s) :
    Crowded 0 (n+1) (checkBundle 0 0 0 s otherCrate) := by
  obtain ⟨fits, history, pulses⟩ := crowd
  have crate : (unpkCrateID otherCrate).toNat = 1 := by decide
  have slot : (unpkBoardID otherCrate).toNat = 0 := by decide
  have chan : chanOf otherCrate = 0 := by decide
  have nc : (unpkNcCC otherCrate).toNat = 0 := by decide
  have gt16 : (unpkFecGT16ID otherCrate).toNat = 5000 := by decide
  have gt8 : (unpkFecGT8ID otherCrate).toNat = 0 := by decide
  have es16 : (unpkCgtES16 otherCrate).toNat = 0 := by decide
  have one : checkBundle 0 0 0 s otherCrate = chanError (report s 0 (crateWrong 0 0 0 1)) 0 0 := by
    simp [checkBundle, reportChan, crate, slot, chan, nc, gt16, gt8, es16, pulses]
  have room : s.history 0 + (crateWrong 0 0 0 1).bytes.length < historySize := by
    rw [history, crateWrongLength, historySize]
    omega
  obtain ⟨fits', history', pulses'⟩ := reportAdds fits room
  rw [history, crateWrongLength] at history'
  rw [one]
  exact crowdedChan ⟨fits',history'.trans (by omega),pulses'.trans pulses⟩ 0 0

theorem crowdedBundles {s : State} (crowd : Crowded 0 0 s) {n : Nat} (few : n ≤ 97) :
    let r := (List.range n).foldl (fun (s,badchanmask) k => (checkBundle 0 0 0 s ((crowded 0 0).bundles k),
      badchanmask &&& ~~~(1#32 <<< (chanOf ((crowded 0 0).bundles k)).val))) (s,1#32)
    Crowded 0 n r.1 ∧ r.2 = if n = 0 then 1 else 0 := by
  intro r
  induction n with
  | zero => exact ⟨crowd,rfl⟩
  | succ n ih =>
    obtain ⟨before, mask⟩ := ih (Nat.le_of_succ_le few)
    have step := List.foldl_concat (fun (s,badchanmask) k => (checkBundle 0 0 0 s ((crowded 0 0).bundles k),
      badchanmask &&& ~~~(1#32 <<< (chanOf ((crowded 0 0).bundles k)).val))) (s,1#32) n (List.range n)
    rw [← List.range_succ] at step
    have r' : r = _ := step
    rw [r']
    refine ⟨crowdedBundle few before, ?_⟩
    change _ &&& ~~~(1#32 <<< (chanOf otherCrate).val) = _
    rw [mask, if_neg (Nat.succ_ne_zero n)]
    split
    · decide
    · decide

theorem crowdedRead {s : State} (crowd : Crowded 0 0 s) : Crowded 0 97 (checkBundles 0 0x1 crowded 0 0 s).1 ∧
    (checkBundles 0 0x1 crowded 0 0 s).2 = 0 := by
  have count : (((crowded 0 0).level &&& 0x000FFFFF).toNat/3) = 97 := by decide
  rw [checkBundles, count]
  exact crowdedBundles crowd (Nat.le_refl 97)

theorem nothingMissing (s : State) (i : Fin 16) : checkMissing i s 0 = s :=
  List.foldl_fixed' (fun k => by simp [reportChan]) _

theorem crowdedLevel {s : State} (fits : Fits s) (empty : s.history 0 = 0) (pulses : s.totalPulses = 5000) :
    Crowded 0 0 (checkLevel s 0 (crowded 0 0).level (3*numChans 0x1)) := by
  have one : 3*numChans 0x1 = 3 := by decide
  have found : ((crowded 0 0).level &&& 0x000FFFFF).toNat = 97*3 := by decide
  have room : s.history 0 + (notEnough 0 3 (97*3)).bytes.length < historySize := by
    rw [empty, notEnoughLength]
    decide
  rw [checkLevel, one, found, if_pos (by decide)]
  obtain ⟨fits', history', pulses'⟩ := reportAdds fits room
  rw [empty, notEnoughLength] at history'
  exact crowdedMissing ⟨fits',history',pulses'.trans pulses⟩ 0

theorem crowdedSlot {s : State} (fits : Fits s) (empty : s.history 0 = 0) (pulses : s.totalPulses = 5000)
    (going : s.maxErrors 0 = 0) : Crowded 0 97 (checkSlot 0 0x1 0x1 crowded 0 s 0) := by
  have test : tested 0x1 s 0 = true := by simp [tested, going]
  obtain ⟨crowd, mask⟩ := crowdedRead (crowdedLevel fits empty pulses)
  rw [checkSlot, if_pos test]
  simp only
  rw [mask, nothingMissing]
  exact crowd

theorem onlyFirst {step : State → Fin 16 → State} (idle : ∀ s (k : Fin 15), step s k.succ = s) (s : State) :
    eachSlot step s = step s 0 := by
  rw [eachSlot, List.finRange_succ, List.foldl_cons, List.foldl_map]
  exact List.foldl_fixed' (idle _) _

theorem otherSlots (s : State) (k : Fin 15) : tested 0x1 s k.succ = false := by
  have clear : ∀ k : Fin 15, (0x1 : BitVec 32).getLsbD k.succ = false := by decide
  rw [tested, clear, Bool.false_and]

theorem crowdedRound : Crowded 0 97 (checked 0 0x1 0x1 crowded 0 start) := by
  have skips : eachSlot (checkSkipped 0x1 0x1 crowded 0) start = start := by
    rw [onlyFirst fun s k => by rw [checkSkipped, if_neg (ne_true_of_eq_false (otherSlots s k))]]
    have one : numChans 0x1 = 1 := by decide
    rw [checkSkipped, if_pos (by decide), one]
    rfl
  have empty : (countPulses 0 start).history 0 = 0 := heldLength (holdsNothing (by decide)) 0
  have slots : eachSlot (checkSlot 0 0x1 0x1 crowded 0) (countPulses 0 start) =
      checkSlot 0 0x1 0x1 crowded 0 (countPulses 0 start) 0 :=
    onlyFirst (fun s k => by rw [checkSlot, if_neg (ne_true_of_eq_false (otherSlots s k))]) _
  have gives (s : State) (i : Fin 16) : Crowded 0 97 (giveUp s i) = Crowded 0 97 s := by
    unfold giveUp
    split
    · rfl
    · rfl
  rw [checked, skips, slots, eachSlot, foldKeeps gives]
  exact crowdedSlot trivial empty rfl rfl

theorem crowdedLine {s : State} (crowd : Crowded 0 97 s) :
    historySize ≤ s.history 0 + (progressLine s.totalPulses).bytes.length := by
  obtain ⟨_, history, pulses⟩ := crowd
  have line : (progressLine 5000).bytes.length = 12 := by decide
  rw [pulses, history, line]
  decide

theorem lineOverruns : ¬ Separate historySize (after 0 0x1 0x1 crowded 16).writes := by
  intro separate
  have fits := (afterFits 0 0x1 0x1 crowded 16).mp ((separateFit (by decide) _).mp separate)
  have first : after 0 0x1 0x1 crowded 0 = start := rfl
  have room := fits 0 (by decide) 0
  rw [first] at room
  exact Nat.not_lt_of_le (crowdedLine crowdedRound) room

end PennDaq.CGTTest
