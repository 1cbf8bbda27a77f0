import PennDaq.Bundles
import PennDaq.Lib.Mask
import PennDaq.Messages
import Mathlib.Data.List.FinRange
import Mathlib.Logic.Function.Basic

/-! `MbStabilityTest`: one pulse after the other, with a level check of all slots and then
a read-out of all slots that goes on from the level that was read last. -/
namespace PennDaq.MbStability
open Lib.Rows Bundles Messages

/- The FIFO of each slot, word by word, and its `PED_ENABLE`. -/
structure Crate where
  fifo : Fin 16 → List (BitVec 32)
  pedEnable : Fin 16 → BitVec 32

def wordsOf (b : Bundle) : List (BitVec 32) := List.ofFn b

abbrev Pulses := Nat → Fin 16 → Fin 8 → Bundle

def pulseWords (pulses : Pulses) (n : Nat) (j : Fin 16) : List (BitVec 32) :=
  ((List.finRange 8).map (pulses n j)).flatMap wordsOf

def softGT (pulses : Pulses) (n : Nat) (crate : Crate) : Crate :=
  { crate with fifo := fun j => if crate.pedEnable j ≠ 0 then crate.fifo j ++ pulseWords pulses n j else crate.fifo j }

def level (crate : Crate) (j : Fin 16) : BitVec 32 := BitVec.ofNat 32 (crate.fifo j).length &&& 0x000FFFFF

def readMem (crate : Crate) (j : Fin 16) : BitVec 32 × Crate :=
  ((crate.fifo j).headD 0,{ crate with fifo := Function.update crate.fifo j (crate.fifo j).tail })

def readBundle (crate : Crate) (j : Fin 16) : Bundle × Crate :=
  let (first,crate) := readMem crate j
  let (second,crate) := readMem crate j
  let (third,crate) := readMem crate j
  (fun | 0 => first | 1 => second | 2 => third,crate)

def chanMaskRand (rd : BitVec 2) : BitVec 32 :=
  if rd = 0 then 0x11111111 else if rd = 1 then 0x22222222 else if rd = 2 then 0x44444444 else 0x88888888

def numChan : Nat := 8

structure Counter where
  nfire16 : BitVec 32
  nfire24 : BitVec 32

def Counter.next (c : Counter) : Counter :=
  if c.nfire16+1 = 65535 then ⟨0,c.nfire24+1⟩ else ⟨c.nfire16+1,c.nfire24⟩

def Counter.gtid (c : Counter) : BitVec 32 := c.nfire24*0x10000 + c.nfire16

def historySize : Nat := 5000

structure State where
  crate : Crate
  slotErrors : Fin 16 → Bool
  fecDiff : BitVec 32
  rd : BitVec 2
  counter : Counter
  numPrint : BitVec 32
  writes : List (Write 16)

/- `error_history`, the 16 texts one behind the other. -/
def State.errorHistory (s : State) : Lib.Buffer.Bytes := memoryOf historySize s.writes

def State.append (s : State) (j : Fin 16) (text : Text) : State := { s with writes := text.into j::s.writes }

/- What all errors do: `temp_msg` is appended without a look at the length. -/
def State.fail (s : State) (j : Fin 16) (tempMsg : Text) : State :=
  { s with writes := tempMsg.into j::s.writes, slotErrors := Function.update s.slotErrors j true }

def goingLine (numPeds : Int) : Text :=
  literal "Going to fire " ++ signed (BitVec.ofInt 32 numPeds) ++ literal " times\n"

def firedLine (nfire : Nat) : Text := literal "Pulser fired " ++ decimal nfire ++ literal " times.\n"

def numbered (what : String) (first : Nat) (later : List Nat) : Text :=
  later.foldl (fun text n => text ++ literal " " ++ decimal n) (literal what ++ decimal first) ++ literal "\n"

def wordsLine (first second third : BitVec 32) : Text :=
  literal "Bundle 0,1,2: 0x" ++ hex8 first ++ literal " 0x" ++ hex8 second ++ literal " 0x" ++ hex8 third ++ literal "\n"

def bundleLine (b : Bundle) : Text := onWords wordsLine b

section Test
variable (crateNum : Fin 20) (slotMask : BitVec 32) (nfire : Nat)

def stopping (j : Fin 16) : Text :=
  literal ">>>testing crate " ++ decimal crateNum ++ numbered ", slot " j [] ++
    numbered ">>>stopping at pulser iteration " nfire []

def wrongLevel (j : Fin 16) (fecDiff : BitVec 32) : Text :=
  literal ">>>Error, fec_diff = " ++ decimal fecDiff.toNat ++ numbered ", expected " (numChan*3) [] ++
    stopping crateNum nfire j

def tooManyReads (j : Fin 16) : Text :=
  literal ">>>Error, number of FEC reads exceeds " ++ decimal (numChan*3) ++ literal ", aborting!\n" ++
    stopping crateNum nfire j

def framed (lines : Text) : Text :=
  literal "***************************************\n" ++ lines ++
    literal "***************************************\n" ++ numbered ">>>Stopping at pulser iteration " nfire []

def wrongPlace (j : Fin 16) (b : Bundle) : Text :=
  framed nfire (numbered "Crate/slot or Nc_cc error. Pedestal iter: " nfire [] ++
    numbered "Expected crate,slot,nc_cc: " crateNum [j.val,0] ++
    numbered "Found crate,slot,chan,nc_cc: " (unpkCrateID b).toNat
      [(unpkBoardID b).toNat,(unpkChannelID b).toNat,(unpkNcCC b).toNat] ++ bundleLine b)

def placeLine (what : String) (b : Bundle) : Text :=
  numbered what (unpkCrateID b).toNat [(unpkBoardID b).toNat,(unpkChannelID b).toNat]

def wrongTrigger (gtid : BitVec 32) (b : Bundle) : Text :=
  framed nfire (literal "GT8/16 error, expect GTID: " ++ decimal gtid.toNat ++ literal " \n" ++
    placeLine "Crate,slot,chan: " b ++ bundleLine b ++ literal "Found gt8, gt16, gtword: " ++
    decimal (unpkFecGT8ID b).toNat ++ literal " " ++ decimal (unpkFecGT16ID b).toNat ++ literal " " ++
    hex8 (unpkFecGT8ID b*0x10000 + unpkFecGT16ID b) ++ literal "\n")

def synclear (gtid : BitVec 32) (b : Bundle) : Text :=
  framed nfire (numbered "Synclear error, GTID: " gtid.toNat [] ++ placeLine "crate, slot, chan: " b ++ bundleLine b ++
    numbered "Found cmos_es16,cgt_es16,cgt_es8: " (unpkCmosES16 b).toNat [(unpkCgtES16 b).toNat,(unpkCgtES24 b).toNat])

structure Correct (j : Fin 16) (gtid : BitVec 32) (b : Bundle) : Prop where
  crate : unpkCrateID b = BitVec.ofNat 32 crateNum
  slot : unpkBoardID b = BitVec.ofNat 32 j
  ncCC : unpkNcCC b = 0
  trigger : unpkFecGT8ID b*0x10000 + unpkFecGT16ID b = gtid
  synclear : (unpkCmosES16 b = 1 ∨ unpkCgtES16 b = 1 ∨ unpkCgtES24 b = 1) → unpkFecGT8ID b = 0

instance (j : Fin 16) (gtid : BitVec 32) (b : Bundle) : Decidable (Correct crateNum j gtid b) :=
  decidable_of_iff (unpkCrateID b = BitVec.ofNat 32 crateNum ∧ unpkBoardID b = BitVec.ofNat 32 j ∧ unpkNcCC b = 0 ∧
      unpkFecGT8ID b*0x10000 + unpkFecGT16ID b = gtid ∧
      ((unpkCmosES16 b = 1 ∨ unpkCgtES16 b = 1 ∨ unpkCgtES24 b = 1) → unpkFecGT8ID b = 0))
    ⟨fun ⟨crate,slot,ncCC,trigger,synclear⟩ => ⟨crate,slot,ncCC,trigger,synclear⟩,
      fun c => ⟨c.crate,c.slot,c.ncCC,c.trigger,c.synclear⟩⟩

def checkLevel (s : State) (j : Fin 16) : State :=
  let fecDiff := level s.crate j
  let s := { s with fecDiff := fecDiff }
  if fecDiff ≠ BitVec.ofNat 32 (numChan*3) then s.fail j (wrongLevel crateNum nfire j fecDiff) else s

def readLoop (j : Fin 16) : Nat → State → State
  | 0, s => if 3 ≤ s.fecDiff.toNat then s.fail j (tooManyReads crateNum nfire j) else s
  | left+1, s =>
    if 3 ≤ s.fecDiff.toNat then
      let (pmtword,crate) := readBundle s.crate j
      let s := { s with crate := crate, fecDiff := level crate j }
      if unpkCrateID pmtword ≠ BitVec.ofNat 32 crateNum ∨ unpkBoardID pmtword ≠ BitVec.ofNat 32 j ∨
          unpkNcCC pmtword ≠ 0 then s.fail j (wrongPlace crateNum nfire j pmtword)
      else if unpkFecGT8ID pmtword*0x10000 + unpkFecGT16ID pmtword ≠ s.counter.gtid then
        s.fail j (wrongTrigger nfire s.counter.gtid pmtword)
      else if (unpkCmosES16 pmtword = 1 ∨ unpkCgtES16 pmtword = 1 ∨ unpkCgtES24 pmtword = 1) ∧
          unpkFecGT8ID pmtword ≠ 0 then s.fail j (synclear nfire s.counter.gtid pmtword)
      else readLoop j left s
    else s

def readOut (s : State) (j : Fin 16) : State := readLoop crateNum nfire j (numChan*3) s

def active (s : State) (j : Fin 16) : Bool := slotMask.getLsbD j && !s.slotErrors j

def eachSlot (step : State → Fin 16 → State) (s : State) : State :=
  (List.finRange 16).foldl (fun s j => if active slotMask s j then step s j else s) s

def setPattern (s : State) : State :=
  { s with
    crate := { s.crate with
      pedEnable := fun j => if active slotMask s j then chanMaskRand s.rd else s.crate.pedEnable j }
    rd := s.rd+1 }

/- Every ten pulses a line is appended, again without a look at the length. -/
def progress (s : State) : State :=
  if BitVec.ofNat 32 nfire = s.numPrint then
    { eachSlot slotMask (fun s i => s.append i (firedLine nfire)) s with numPrint := s.numPrint+10 }
  else s

def pulse (pulses : Pulses) (s : State) : State :=
  let s := setPattern slotMask { s with counter := s.counter.next }
  let s := progress slotMask nfire s
  let s := { s with crate := softGT pulses nfire s.crate }
  let s := eachSlot slotMask (checkLevel crateNum nfire) s
  eachSlot slotMask (readOut crateNum nfire) s

/- The crate has been set up. Nothing has been read into `fec_diff`. -/
def start (numPeds : Int) (fecDiff : BitVec 32) : State where
  crate := ⟨fun _ => [],fun _ => 0⟩
  slotErrors _ := false
  fecDiff := fecDiff
  rd := 0
  counter := ⟨0,0⟩
  numPrint := 10
  writes := alike (List.finRange 16) (goingLine numPeds).bytes (goingLine numPeds).noZero []

/- A text that has left the 16 histories is written over what else is on the stack; such a
run is not followed any further. -/
def kept (s : State) : Option State := if s.errorHistory.length ≤ historySize*16 then some s else none

def after (pulses : Pulses) (numPeds : Int) (fecDiff : BitVec 32) : Nat → Option State
  | 0 => some (start numPeds fecDiff)
  | n+1 => (after pulses numPeds fecDiff n).bind fun s => kept (pulse crateNum slotMask (n+1) pulses s)

/- `nfire` is compared as an unsigned number. -/
def fired (numPeds : Int) : Nat := (BitVec.ofInt 32 numPeds).toNat - 1

def expected : Nat → Counter
  | 0 => ⟨0,0⟩
  | n+1 => (expected n).next

structure Healthy (pulses : Pulses) (numPeds : Int) : Prop where
  bundles : ∀ n, 1 ≤ n → n ≤ fired numPeds → ∀ j k, Correct crateNum j (expected n).gtid (pulses n j k)

def NoneFlagged (pulses : Pulses) (fecDiff : BitVec 32) (numPeds : Int) : Prop :=
  ∃ s, after crateNum slotMask pulses numPeds fecDiff (fired numPeds) = some s ∧ ∀ j, s.slotErrors j = false

def AllRead (pulses : Pulses) (fecDiff : BitVec 32) (numPeds : Int) : Prop :=
  ∀ n, 1 ≤ n → n ≤ fired numPeds → ∃ s, after crateNum slotMask pulses numPeds fecDiff n = some s ∧
    ∀ j : Fin 16, slotMask.getLsbD j = true → s.crate.fifo j = []

def historyLength (numPeds : Int) (n : Nat) : Nat :=
  (goingLine numPeds).bytes.length + ((List.range (n/10)).map fun k => (firedLine (10*(k+1))).bytes.length).sum

/- From its own place on, that and its closing zero are inside the 16 histories. -/
def HistoriesKept (numPeds : Int) : Prop := ∀ j : Fin 16, slotMask.getLsbD j = true →
  historySize*j + historyLength numPeds (fired numPeds) < historySize*16

instance (numPeds : Int) : Decidable (HistoriesKept slotMask numPeds) :=
  inferInstanceAs (Decidable (∀ j : Fin 16, slotMask.getLsbD j = true → _))

def AtMostOne : Prop := ∀ i j : Fin 16, slotMask.getLsbD i = true → slotMask.getLsbD j = true → i = j

instance : Decidable (AtMostOne slotMask) :=
  inferInstanceAs (Decidable (∀ i j : Fin 16, slotMask.getLsbD i = true → slotMask.getLsbD j = true → i = j))

end Test

theorem levelNat {crate : Crate} {j : Fin 16} (small : (crate.fifo j).length < 2^20) :
    (level crate j).toNat = (crate.fifo j).length := by
  have masked := Nat.and_two_pow_sub_one_eq_mod ((crate.fifo j).length % 2^32) 20
  rw [level, BitVec.toNat_and, BitVec.toNat_ofNat]
  exact masked.trans (by omega)

theorem wordsThree (b : Bundle) : wordsOf b = [b 0,b 1,b 2] := rfl

theorem wordsLength (bs : List Bundle) : (bs.flatMap wordsOf).length = 3*bs.length := by
  induction bs with
  | nil => rfl
  | cons b later ih =>
    rw [List.flatMap_cons, List.length_append, ih, List.length_cons]
    change 3 + 3*later.length = _
    omega

theorem pulseLength (pulses : Pulses) (n : Nat) (j : Fin 16) : (pulseWords pulses n j).length = 24 := by
  rw [pulseWords, wordsLength, List.length_map, List.length_finRange]

theorem bundleRead {crate : Crate} {j : Fin 16} {b : Bundle} {rest : List (BitVec 32)}
    (fifo : crate.fifo j = wordsOf b ++ rest) :
    readBundle crate j = (b,{ crate with fifo := Function.update crate.fifo j rest }) := by
  unfold readBundle readMem
  rw [fifo]
  simp only [wordsThree, List.cons_append, List.nil_append, List.headD_cons, List.tail_cons, Function.update_self,
    Function.update_idem, Prod.mk.injEq, and_true]
  funext i
  match i with
  | 0 | 1 | 2 => rfl

section Reading
variable {crateNum : Fin 20} {nfire : Nat} {j : Fin 16}

theorem readSkipped (left : Nat) {s : State} (empty : s.fecDiff.toNat < 3) : readLoop crateNum nfire j left s = s := by
  cases left with
  | zero | succ left => rw [readLoop, if_neg (Nat.not_le.mpr empty)]

theorem readDrained {left : Nat} (bs : List Bundle) (enough : bs.length ≤ left) (few : left ≤ 24) {s : State}
    (each : ∀ b ∈ bs, Correct crateNum j s.counter.gtid b) (fifo : s.crate.fifo j = bs.flatMap wordsOf)
    (diff : s.fecDiff.toNat = 3*bs.length) : readLoop crateNum nfire j left s =
      { s with crate := { s.crate with fifo := Function.update s.crate.fifo j [] }, fecDiff := 0 } := by
  induction bs generalizing left s with
  | nil =>
    have zero : s.fecDiff = 0 := BitVec.eq_of_toNat_eq diff
    have none' : Function.update s.crate.fifo j [] = s.crate.fifo := Function.update_eq_self_iff.mpr fifo.symm
    rw [readSkipped left (by rw [diff]; decide), none', ← zero]
  | cons b later ih =>
    rw [List.length_cons] at enough diff
    obtain ⟨left, rfl⟩ := Nat.exists_eq_add_of_lt (Nat.lt_of_lt_of_le (Nat.succ_pos later.length) enough)
    rw [Nat.zero_add] at enough few ⊢
    have correct := each b List.mem_cons_self
    rw [List.flatMap_cons] at fifo
    rw [readLoop, if_pos (by omega)]
    simp only [bundleRead fifo, correct.crate, correct.slot, correct.ncCC, correct.trigger, ne_eq, not_true_eq_false,
      or_self, if_false]
    rw [if_neg fun wrong => wrong.2 (correct.synclear wrong.1)]
    let crate : Crate := { s.crate with fifo := Function.update s.crate.fifo j (later.flatMap wordsOf) }
    have fifo' : crate.fifo j = later.flatMap wordsOf := Function.update_self ..
    have diff' : (level crate j).toNat = 3*later.length := by
      rw [levelNat (by rw [fifo', wordsLength]; omega), fifo', wordsLength]
    have rest := @ih left (by omega) (by omega) { s with crate := crate, fecDiff := level crate j }
      (fun b mem => each b (List.mem_cons_of_mem _ mem)) fifo' diff'
    refine rest.trans ?_
    simp only [crate, Function.update_idem]

theorem flagKeeps {i j : Fin 16} {s : State} {tempMsg : Text} (flag : s.slotErrors i = true) :
    (s.fail j tempMsg).slotErrors i = true := by
  change Function.update s.slotErrors j true i = true
  rw [Function.update_apply]
  split
  · rfl
  · exact flag

theorem readKeeps {i : Fin 16} (left : Nat) {s : State} (flag : s.slotErrors i = true) :
    (readLoop crateNum nfire j left s).slotErrors i = true := by
  induction left generalizing s with
  | zero =>
    rw [readLoop]
    split
    · exact flagKeeps flag
    · exact flag
  | succ left ih =>
    rw [readLoop]
    split
    · simp only
      split
      · exact flagKeeps flag
      · split
        · exact flagKeeps flag
        · split
          · exact flagKeeps flag
          · exact ih flag
    · exact flag

end Reading

section Slots
variable {crateNum : Fin 20} {slotMask : BitVec 32} {nfire : Nat}

theorem checkKeeps {i j : Fin 16} {s : State} (flag : s.slotErrors i = true) :
    (checkLevel crateNum nfire s j).slotErrors i = true := by
  unfold checkLevel
  simp only
  split
  · exact flagKeeps flag
  · exact flag

theorem checkCrate (s : State) (j : Fin 16) : (checkLevel crateNum nfire s j).crate = s.crate := by
  unfold checkLevel
  simp only
  split
  · rfl
  · rfl

def slots (slotMask : BitVec 32) : List (Fin 16) := (List.finRange 16).filter fun j : Fin 16 => slotMask.getLsbD j

theorem slotsMasked (j : Fin 16) : j ∈ slots slotMask ↔ slotMask.getLsbD j = true := by
  rw [slots, List.mem_filter]
  exact and_iff_right (List.mem_finRange j)

theorem slotsDistinct : (slots slotMask).Nodup := (List.nodup_finRange 16).filter _

def through (step : State → Fin 16 → State) (l : List (Fin 16)) (s : State) : State :=
  l.foldl (fun s j => if s.slotErrors j then s else step s j) s

theorem eachThrough (step : State → Fin 16 → State) (s : State) :
    eachSlot slotMask step s = through step (slots slotMask) s := by
  rw [eachSlot, through, slots, List.foldl_filter]
  congr 1
  funext s j
  unfold active
  cases slotMask.getLsbD j <;> cases s.slotErrors j <;> rfl

theorem throughKeeps {step : State → Fin 16 → State} {i : Fin 16}
    (keeps : ∀ s j, s.slotErrors i = true → (step s j).slotErrors i = true) (l : List (Fin 16)) {s : State}
    (flag : s.slotErrors i = true) : (through step l s).slotErrors i = true := by
  induction l generalizing s with
  | nil => exact flag
  | cons j later ih =>
    rw [through, List.foldl_cons]
    split
    · exact ih flag
    · exact ih (keeps s j flag)

theorem checksPass (l : List (Fin 16)) {s : State} (clear : s.slotErrors = fun _ => false)
    (full : ∀ j ∈ l, level s.crate j = 24) :
    through (checkLevel crateNum nfire) l s = if l = [] then s else { s with fecDiff := 24 } := by
  induction l generalizing s with
  | nil => rfl
  | cons j later ih =>
    have checked : checkLevel crateNum nfire s j = { s with fecDiff := 24 } := by
      rw [checkLevel, full j List.mem_cons_self]
      rfl
    rw [through, List.foldl_cons, congrFun clear j, if_neg Bool.false_ne_true, checked, ← through]
    refine (@ih { s with fecDiff := 24 } clear fun i mem => full i (List.mem_cons_of_mem _ mem)).trans ?_
    rw [if_neg (List.cons_ne_nil _ _)]
    split
    · rfl
    · rfl

theorem checkFlags {l : List (Fin 16)} {b : Fin 16} (mem : b ∈ l) {s : State} (wrong : level s.crate b ≠ 24) :
    (through (checkLevel crateNum nfire) l s).slotErrors b = true := by
  induction l generalizing s with
  | nil => cases mem
  | cons j later ih =>
    rw [through, List.foldl_cons, ← through]
    rcases List.mem_cons.mp mem with rfl | mem
    · refine throughKeeps (fun _ _ => checkKeeps) later ?_
      split
      · assumption
      · have flagged : checkLevel crateNum nfire s b =
            { s with fecDiff := level s.crate b }.fail b (wrongLevel crateNum nfire b (level s.crate b)) := if_pos wrong
        rw [flagged]
        exact Function.update_self ..
    · refine ih mem ?_
      split
      · exact wrong
      · rw [checkCrate]
        exact wrong

theorem readsSkipped (l : List (Fin 16)) {s : State} (empty : s.fecDiff.toNat < 3) :
    through (readOut crateNum nfire) l s = s := by
  induction l with
  | nil => rfl
  | cons j later ih =>
    rw [through, List.foldl_cons, readOut, readSkipped _ empty, ite_self]
    exact ih

def left (slotMask : BitVec 32) (s : State) : List (Fin 16) := (slots slotMask).filter fun j => !s.slotErrors j

def linesBehind (slotMask : BitVec 32) (nfire : Nat) (s : State) : List (Write 16) :=
  if BitVec.ofNat 32 nfire = s.numPrint then
    alike (left slotMask s) (firedLine nfire).bytes (firedLine nfire).noZero s.writes
  else s.writes

def printBehind (nfire : Nat) (s : State) : BitVec 32 :=
  if BitVec.ofNat 32 nfire = s.numPrint then s.numPrint+10 else s.numPrint

theorem appendedLines (text : Text) (l : List (Fin 16)) (s : State) : through (fun s i => s.append i text) l s =
    { s with writes := alike (l.filter fun j => !s.slotErrors j) text.bytes text.noZero s.writes } := by
  induction l generalizing s with
  | nil => rfl
  | cons j later ih =>
    rw [through, List.foldl_cons, List.filter_cons, ← through]
    cases s.slotErrors j with
    | true => exact ih s
    | false => exact ih (s.append j text)

theorem progressed (s : State) : progress slotMask nfire s =
    { s with writes := linesBehind slotMask nfire s, numPrint := printBehind nfire s } := by
  unfold progress linesBehind printBehind
  split
  · rw [eachThrough, appendedLines]
    rfl
  · rfl

theorem maskOn (rd : BitVec 2) : chanMaskRand rd ≠ 0 := by
  revert rd
  decide

def firedState (slotMask : BitVec 32) (nfire : Nat) (pulses : Pulses) (s : State) : State :=
  { setPattern slotMask { s with counter := s.counter.next } with
    writes := linesBehind slotMask nfire s
    numPrint := printBehind nfire s
    crate := softGT pulses nfire (setPattern slotMask { s with counter := s.counter.next }).crate }

theorem pulseFired (pulses : Pulses) (s : State) : pulse crateNum slotMask nfire pulses s =
    through (readOut crateNum nfire) (slots slotMask)
      (through (checkLevel crateNum nfire) (slots slotMask) (firedState slotMask nfire pulses s)) := by
  rw [pulse, progressed, eachThrough, eachThrough]
  rfl

theorem pulseKeeps {i : Fin 16} (pulses : Pulses) {s : State} (flag : s.slotErrors i = true) :
    (pulse crateNum slotMask nfire pulses s).slotErrors i = true := by
  rw [pulseFired]
  exact throughKeeps (fun _ _ => readKeeps _) _ (throughKeeps (fun _ _ => checkKeeps) _ flag)

theorem firedFifo (pulses : Pulses) {s : State} {j : Fin 16} (mem : j ∈ slots slotMask) (clear : s.slotErrors j = false) :
    (firedState slotMask nfire pulses s).crate.fifo j = s.crate.fifo j ++ pulseWords pulses nfire j := by
  have on : active slotMask { s with counter := s.counter.next } j = true := by
    rw [active, (slotsMasked j).mp mem, clear]
    rfl
  have enabled : (setPattern slotMask { s with counter := s.counter.next }).crate.pedEnable j ≠ 0 := by
    rw [show (setPattern slotMask _).crate.pedEnable j = chanMaskRand s.rd from if_pos on]
    exact maskOn _
  exact if_pos enabled

structure Fresh (slotMask : BitVec 32) (s : State) : Prop where
  clear : s.slotErrors = fun _ => false
  empty : ∀ j ∈ slots slotMask, s.crate.fifo j = []

structure FirstRead (slotMask : BitVec 32) (nfire : Nat) (pulses : Pulses) (s s' : State) : Prop where
  clear : s'.slotErrors = fun _ => false
  counter : s'.counter = s.counter.next
  writes : s'.writes = linesBehind slotMask nfire s
  numPrint : s'.numPrint = printBehind nfire s
  first : ∀ a rest, slots slotMask = a::rest → s'.crate.fifo a = []
  others : ∀ a rest, slots slotMask = a::rest → ∀ j ∈ rest, s'.crate.fifo j = pulseWords pulses nfire j

theorem pulseFresh {pulses : Pulses} {s : State} (fresh : Fresh slotMask s)
    (correct : ∀ j k, Correct crateNum j s.counter.next.gtid (pulses nfire j k)) :
    FirstRead slotMask nfire pulses s (pulse crateNum slotMask nfire pulses s) := by
  have fifo (j : Fin 16) (mem : j ∈ slots slotMask) :
      (firedState slotMask nfire pulses s).crate.fifo j = pulseWords pulses nfire j := by
    rw [firedFifo pulses mem (congrFun fresh.clear j), fresh.empty j mem, List.nil_append]
  have full : ∀ j ∈ slots slotMask, level (firedState slotMask nfire pulses s).crate j = 24 := by
    intro j mem
    apply BitVec.eq_of_toNat_eq
    have length : ((firedState slotMask nfire pulses s).crate.fifo j).length = 24 := by rw [fifo j mem, pulseLength]
    rw [levelNat (by rw [length]; decide), length]
    rfl
  have clear : (firedState slotMask nfire pulses s).slotErrors = fun _ => false := fresh.clear
  rw [pulseFired, checksPass (slots slotMask) clear full]
  cases parts : slots slotMask with
  | nil =>
    exact ⟨fresh.clear, rfl, rfl, rfl, fun a rest same => absurd (parts.symm.trans same) (List.cons_ne_nil a rest).symm,
      fun a rest same => absurd (parts.symm.trans same) (List.cons_ne_nil a rest).symm⟩
  | cons a rest =>
    have mem : a ∈ slots slotMask := parts ▸ List.mem_cons_self
    have read := @readDrained crateNum nfire a (numChan*3) ((List.finRange 8).map (pulses nfire a)) (by simp [numChan])
      (by decide) { firedState slotMask nfire pulses s with fecDiff := 24 }
      (fun b inside => by
        obtain ⟨k, -, rfl⟩ := List.mem_map.mp inside
        exact correct a k)
      (fifo a mem) (by simp)
    rw [if_neg (List.cons_ne_nil _ _), through, List.foldl_cons, if_neg (by rw [clear]; exact Bool.false_ne_true),
      readOut, read, ← through, readsSkipped rest (show (0 : BitVec 32).toNat < 3 by decide)]
    constructor
    · exact fresh.clear
    · rfl
    · rfl
    · rfl
    · intro a' rest' same
      obtain ⟨rfl, -⟩ := List.cons.inj (parts.symm.trans same)
      exact Function.update_self ..
    · intro a' rest' same j inside
      obtain ⟨rfl, rfl⟩ := List.cons.inj (parts.symm.trans same)
      have distinct := parts ▸ @slotsDistinct slotMask
      have other : j ≠ a := fun again => (List.nodup_cons.mp distinct).1 (again ▸ inside)
      exact (Function.update_of_ne other _ _).trans (fifo j (parts ▸ List.mem_cons_of_mem _ inside))

end Slots
end PennDaq.MbStability
