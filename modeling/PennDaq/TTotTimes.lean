import PennDaq.Lib.Sweep
import PennDaq.TTotLoops

/-! The times that `MeasureTTot` assigns. -/
namespace PennDaq.TTotTimes
open Lib.CNumber
open Lib.Loop
open Lib.Mask
open Lib.Sweep
open MTCInit (Trace)
open TTotMeasure
open TTotLoops

def firstResponse (steps : List Step) (j : Fin 32) : Option Step := steps.find? fun step => Responds step j

def timeOf (steps : List Step) (j : Fin 32) : ℤ :=
  match firstResponse steps j with
  | some step => ⌊step.realDelay⌋ + tubDelay
  | none => maxTime + tubDelay

def Assigned (after : Board) (slot : ℕ) (steps : List Step) : Prop :=
  ∀ j : Fin 32, ∃ value, after.discTimes (slot*32+j) = some value ∧ (value.toNat : ℤ) = timeOf steps j

def channelView (slot : ℕ) (j : Fin 32) (marks : Marks) : Bool × Option (BitVec 16) :=
  (marks.1.getLsbD j,marks.2 (slot*32+j))

theorem bitSet (mask : BitVec 32) (i j : Fin 32) :
    (mask ||| 1#32 <<< i.val).getLsbD j = (mask.getLsbD j || decide (j = i)) := by
  rw [BitVec.getLsbD_or, oneBit j.isLt, decide_eq_decide.mpr Fin.val_inj]

theorem placeApart (slot : ℕ) {i j : Fin 32} (different : j ≠ i) : slot*32 + j.val ≠ slot*32 + i.val :=
  fun same => different (Fin.ext (Nat.add_left_cancel same))

theorem markApart (slot : ℕ) (step : Step) : Apart (markChannel slot step) (channelView slot) := by
  intro marks i j different
  unfold markChannel
  split
  · dsimp only [channelView]
    rw [bitSet, decide_eq_false different, Bool.or_false, assign,
      Function.update_of_ne (placeApart slot different)]
  · rfl

theorem markOwn (slot : ℕ) (step : Step) (marks : Marks) (j : Fin 32) :
    channelView slot j (markChannel slot step marks j) =
      if Responds step j ∧ (channelView slot j marks).1 = false then
        (true,some (BitVec.ofInt 16 (truncate step.realDelay + tubDelay)))
      else channelView slot j marks := by
  unfold markChannel channelView
  simp only
  split
  · dsimp only
    rw [bitSet, decide_eq_true rfl, Bool.or_true, assign, Function.update_self]
  · rfl

theorem markLocal (slot : ℕ) (step : Step) : Local (markChannel slot step) (channelView slot) := by
  intro marks marks' j same
  rw [markOwn, markOwn, same]

theorem markedChannel (slot : ℕ) (step : Step) (marks : Marks) (j : Fin 32) :
    channelView slot j ((List.finRange 32).foldl (markChannel slot step) marks) =
      if Responds step j ∧ (channelView slot j marks).1 = false then
        (true,some (BitVec.ofInt 16 (truncate step.realDelay + tubDelay)))
      else channelView slot j marks := by
  rw [sweepOwn (markApart slot step) (markLocal slot step) (List.nodup_finRange 32) (List.mem_finRange j), markOwn]

def Elsewhere (slot k : ℕ) : Prop := k/32 ≠ slot

theorem assignElsewhere {slot k : ℕ} (other : Elsewhere slot k) (discTimes : ℕ → Option (BitVec 16)) (j : Fin 32)
    (value : ℤ) : assign discTimes (slot*32+j) value k = discTimes k := by
  rw [assign, Function.update_of_ne]
  rintro rfl
  have := j.isLt
  exact other (by omega)

theorem markedElsewhere {slot k : ℕ} (other : Elsewhere slot k) (step : Step) (marks : Marks) :
    ((List.finRange 32).foldl (markChannel slot step) marks).2 k = marks.2 k := by
  refine sweepKeeps (fun marks : Marks => marks.2 k) (fun marks i => ?_) (List.finRange 32) marks
  unfold markChannel
  split
  · exact assignElsewhere other marks.2 i _
  · rfl

theorem timedOutMarks (slot : ℕ) (time : ℤ) (marks : Marks) :
    ((List.finRange 32).foldl (timeOutChannel slot time) marks) = timeOutChannel slot time marks 0 := by
  have full (discTimes : ℕ → Option (BitVec 16)) (items : List (Fin 32)) :
      items.foldl (timeOutChannel slot time) (BitVec.allOnes 32,discTimes) = (BitVec.allOnes 32,discTimes) := by
    induction items with
    | nil => rfl
    | cons k later ih =>
      have done : timeOutChannel slot time (BitVec.allOnes 32,discTimes) k = (BitVec.allOnes 32,discTimes) := by
        have bit : (BitVec.allOnes 32).getLsbD k = true := by
          rw [BitVec.getLsbD_allOnes]
          exact decide_eq_true k.isLt
        rw [timeOutChannel, bit]
        rfl
      rw [List.foldl_cons, done, ih]
  rw [List.finRange_succ, List.foldl_cons]
  exact full _ _

def codedTime (step : Step) : BitVec 16 := BitVec.ofInt 16 (truncate step.realDelay + tubDelay)

def Passes (counts : ℕ → Fin 32 → BitVec 32) (steps : List Step) : Prop :=
  ∀ step ∈ steps, 140 ≤ step.realDelay ∧ step.realDelay ≤ maxTime ∧ ∃ calls, step = stepOf counts calls step.realDelay

structure Scanning (counts : ℕ → Fin 32 → BitVec 32) (slot : ℕ) (s : Scan) : Prop where
  first : 150 ≤ s.time
  last : s.time ≤ maxTime
  channels : ∀ j, channelView slot j (s.chanDoneMask,s.board.discTimes) =
    ((firstResponse s.steps j).isSome,(firstResponse s.steps j).map codedTime)
  passes : Passes counts s.steps

theorem scanningStart (counts : ℕ → Fin 32 → BitVec 32) (slot : ℕ) {board : Board}
    (fresh : ∀ j : Fin 32, board.discTimes (slot*32+j) = none) : Scanning counts slot ⟨150,0,board,[]⟩ := by
  refine ⟨Int.le_refl 150, (by decide : (150 : ℤ) ≤ maxTime), fun j => ?_, fun step mem => by cases mem⟩
  exact Prod.ext BitVec.getLsbD_zero (fresh j)

theorem firstAppend (steps : List Step) (step : Step) (j : Fin 32) :
    firstResponse (steps ++ [step]) j =
      (firstResponse steps j).or (if Responds step j then some step else none) := by
  unfold firstResponse
  rw [List.find?_append, List.find?_singleton]
  simp only [decide_eq_true_eq]

def stored (steps : List Step) (j : Fin 32) : Option (BitVec 16) :=
  ((firstResponse steps j).map codedTime).or (if j = 0 then some (BitVec.ofInt 16 (maxTime+tubDelay)) else none)

section Pass
variable {read : Trace → BitVec 32 → BitVec 32} {fAddelSlope : ℚ} {counts : ℕ → Fin 32 → BitVec 32} {slot : ℕ}

theorem countedScanning {s : Scan} (scanning : Scanning counts slot s) {done : ℚ × Trace}
    (window : done.1 ≤ s.time ∧ s.time ≤ done.1 + 10) : Scanning counts slot (counted counts slot s done) := by
  have first' : (150 : ℚ) ≤ s.time := by exact_mod_cast scanning.first
  have last' : (s.time : ℚ) ≤ maxTime := by exact_mod_cast scanning.last
  refine ⟨scanning.first, scanning.last, fun j => ?_, fun step mem => ?_⟩
  · have marked := markedChannel slot (stepOf counts s.board.calls done.1) (s.chanDoneMask,s.board.discTimes) j
    rw [scanning.channels j] at marked
    refine marked.trans ?_
    change _ = ((firstResponse (s.steps ++ [stepOf counts s.board.calls done.1]) j).isSome,_)
    rw [counted, firstAppend]
    cases firstResponse s.steps j with
    | some step => rw [if_neg (by simp)]; rfl
    | none =>
      by_cases responds : Responds (stepOf counts s.board.calls done.1) j
      · rw [if_pos ⟨responds,rfl⟩, if_pos responds]
        rfl
      · rw [if_neg fun both => responds both.1, if_neg responds]
        rfl
  · rcases List.mem_append.mp mem with mem | mem
    · exact scanning.passes step mem
    · obtain rfl := List.mem_singleton.mp mem
      have least : 140 ≤ done.1 := by linarith
      have most : done.1 ≤ maxTime := by linarith
      exact ⟨least, most, s.board.calls, rfl⟩

theorem countedElsewhere {k : ℕ} (other : Elsewhere slot k) (s : Scan) (done : ℚ × Trace) :
    (counted counts slot s done).board.discTimes k = s.board.discTimes k :=
  markedElsewhere other (stepOf counts s.board.calls done.1) (s.chanDoneMask,s.board.discTimes)

structure ScanDone (counts : ℕ → Fin 32 → BitVec 32) (slot : ℕ) (s after : Scan) : Prop where
  channels : ∀ j : Fin 32, after.board.discTimes (slot*32+j) = stored after.steps j
  passes : Passes counts after.steps
  elsewhere : ∀ k, Elsewhere slot k → after.board.discTimes k = s.board.discTimes k

theorem fullDone {s : Scan} (scanning : Scanning counts slot s) (full : s.chanDoneMask = BitVec.allOnes 32) :
    ScanDone counts slot s s := by
  refine ⟨fun j => ?_, scanning.passes, fun k _ => rfl⟩
  obtain ⟨bit, element⟩ := Prod.mk.inj (scanning.channels j)
  simp only at bit element
  rw [full, BitVec.getLsbD_allOnes, decide_eq_true j.isLt] at bit
  obtain ⟨step, found⟩ := Option.isSome_iff_exists.mp bit.symm
  rw [element, stored, found]
  rfl

theorem timedOutDone {s : Scan} (scanning : Scanning counts slot s) (late : maxTime ≤ s.time) :
    ScanDone counts slot s (timedOut slot s) := by
  have last : s.time = maxTime := Int.le_antisymm scanning.last late
  have discTimes : (timedOut slot s).board.discTimes =
      if s.chanDoneMask.getLsbD 0 = false then assign s.board.discTimes (slot*32) (maxTime+tubDelay)
      else s.board.discTimes := by
    unfold timedOut
    simp only [timedOutMarks, timeOutChannel, last]
    rfl
  refine ⟨fun j => ?_, scanning.passes, fun k other => ?_⟩
  · obtain ⟨bit, element⟩ := Prod.mk.inj (scanning.channels j)
    simp only at bit element
    change (timedOut slot s).board.discTimes (slot*32+j) = stored s.steps j
    rw [discTimes, stored]
    by_cases zero : j = 0
    · subst zero
      rw [if_pos rfl]
      cases found : firstResponse s.steps 0 with
      | some step =>
        rw [found] at bit element
        rw [if_neg (by rw [show s.chanDoneMask.getLsbD 0 = true from bit]; decide), element]
        rfl
      | none =>
        rw [found] at bit
        rw [if_pos (show s.chanDoneMask.getLsbD 0 = false from bit)]
        exact Function.update_self _ _ _
    · rw [if_neg zero, Option.or_none, ← element]
      split
      · rw [assign, Function.update_of_ne]
        exact placeApart slot (i := 0) zero
      · rfl
  · rw [discTimes]
    split
    · exact assignElsewhere other s.board.discTimes 0 _
    · rfl

theorem timeKept {time : ℤ} (realDelay : ℚ) (early : time < maxTime) :
    time ≤ nextTime time realDelay ∧ nextTime time realDelay ≤ maxTime := by
  unfold nextTime
  simp only
  split
  · omega
  · omega

theorem scanDone {s after : Scan} (scanned : Scanned read fAddelSlope counts slot s after) (scanning : Scanning counts slot s) :
    ScanDone counts slot s after := by
  have elsewhere {s before after : Scan} {done : ℚ × Trace} (same : before = counted counts slot s done)
      (ends : ScanDone counts slot before after) : ScanDone counts slot s after :=
    ⟨ends.channels, ends.passes,
      fun k other => (ends.elsewhere k other).trans (same ▸ countedElsewhere other s done)⟩
  induction scanned with
  | @stop s after done delay pass =>
    have next : Scanning counts slot (counted counts slot s done) := countedScanning scanning (windowBounds delay)
    unfold scanPass at pass
    simp only at pass
    split at pass
    · rename_i full
      cases pass
      exact elsewhere rfl (fullDone next full)
    split at pass
    · rename_i late
      cases pass
      exact elsewhere rfl (timedOutDone next late)
    · contradiction
  | @again s next after done delay pass rest ih =>
    have counting : Scanning counts slot (counted counts slot s done) := countedScanning scanning (windowBounds delay)
    unfold scanPass at pass
    simp only at pass
    split at pass
    · contradiction
    split at pass
    · contradiction
    rename_i early
    cases pass
    obtain ⟨grows, most⟩ := timeKept done.1 (not_le.mp early)
    have ends := ih ⟨scanning.first.trans grows, most, counting.channels, counting.passes⟩
    exact elsewhere rfl ⟨ends.channels, ends.passes, ends.elsewhere⟩

theorem recheckedTimes {unset : ℕ → BitVec 16} {channels : List (Fin 32)} {board after : Board}
    (alone : Rechecked read fAddelSlope unset slot channels board after) : after.discTimes = board.discTimes := by
  induction alone with
  | nil board => rfl
  | cons delay rest ih => exact ih

/- A run over some slots: each has a scan, and what it stored is not touched by the
others. -/
structure Measured (counts : ℕ → Fin 32 → BitVec 32) (slots : List ℕ) (board : Board)
    (logs : List (ℕ × List Step)) (after : Board) : Prop where
  order : logs.map Prod.fst = slots
  times : ∀ entry ∈ logs, (∀ j : Fin 32, after.discTimes (entry.1*32+j) = stored entry.2 j) ∧ Passes counts entry.2
  elsewhere : ∀ k, k/32 ∉ slots → after.discTimes k = board.discTimes k

theorem measured {unset : ℕ → BitVec 16} {slots : List ℕ} {board after : Board} {logs : List (ℕ × List Step)}
    (run : MeasureTTot read fAddelSlope counts unset 150 slots board logs after) (distinct : slots.Nodup)
    (fresh : ∀ slot ∈ slots, ∀ j : Fin 32, board.discTimes (slot*32+j) = none) :
    Measured counts slots board logs after := by
  induction run with
  | nil board => exact ⟨rfl, fun _ mem => absurd mem List.not_mem_nil, fun k _ => rfl⟩
  | @cons slot later board mid after scan logs scanned alone rest ih =>
    obtain ⟨single, distinct⟩ := List.nodup_cons.mp distinct
    have done := scanDone scanned (scanningStart counts slot (fresh slot List.mem_cons_self))
    have kept (k : ℕ) (other : Elsewhere slot k) : mid.discTimes k = board.discTimes k := by
      rw [recheckedTimes alone, done.elsewhere k other]
    have place (slot : ℕ) (j : Fin 32) : (slot*32+j.val)/32 = slot := by omega
    have ends := ih distinct fun slot' mem j => by
      rw [kept _ (by rw [Elsewhere, place]; exact fun same => single (same ▸ mem))]
      exact fresh slot' (List.mem_cons_of_mem slot mem) j
    refine ⟨?_, fun entry mem => ?_, fun k other => ?_⟩
    · rw [List.map_cons, ends.order]
    · rcases List.mem_cons.mp mem with rfl | mem
      · refine ⟨fun j => ?_, done.passes⟩
        rw [ends.elsewhere _ (by rw [place]; exact single), recheckedTimes alone]
        exact done.channels j
      · exact ends.times entry mem
    · obtain ⟨first, other⟩ := not_or.mp (mt List.mem_cons.mpr other)
      rw [ends.elsewhere k other, kept k first]

theorem wordValue {value : ℤ} (least : 0 ≤ value) (most : value ≤ 1160) :
    ((BitVec.ofInt 16 value).toNat : ℤ) = value := by
  rw [BitVec.toNat_ofInt, Int.toNat_of_nonneg (Int.emod_nonneg _ (by decide))]
  exact Int.emod_eq_of_lt least (by push_cast; omega)

theorem codedValue {step : Step} (least : 140 ≤ step.realDelay) (most : step.realDelay ≤ maxTime) :
    ((codedTime step).toNat : ℤ) = ⌊step.realDelay⌋ + tubDelay := by
  have positive : (0 : ℤ) ≤ ⌊step.realDelay⌋ := Int.floor_nonneg.mpr (by linarith)
  have small : ⌊step.realDelay⌋ ≤ maxTime := Int.cast_le.mp ((Int.floor_le _).trans most)
  rw [codedTime, truncateUp (by linarith)]
  unfold maxTime at small
  unfold tubDelay
  exact wordValue (by omega) (by omega)

theorem respondsIff (steps : List Step) (j : Fin 32) :
    (∃ step ∈ steps, Responds step j) ↔ (firstResponse steps j).isSome := by
  rw [firstResponse, List.find?_isSome]
  simp only [decide_eq_true_eq]

theorem storedExact {steps : List Step} (passes : Passes counts steps) (j : Fin 32) :
    (∃ value, stored steps j = some value ∧ (value.toNat : ℤ) = timeOf steps j) ↔
      (j ≠ 0 → ∃ step ∈ steps, Responds step j) := by
  rw [respondsIff, stored, timeOf]
  cases found : firstResponse steps j with
  | some step =>
    obtain ⟨least, most, -⟩ := passes step (List.mem_of_find?_eq_some found)
    exact iff_of_true ⟨_, rfl, codedValue least most⟩ fun _ => rfl
  | none =>
    by_cases zero : j = 0
    · rw [if_pos zero]
      exact iff_of_true ⟨_, rfl, wordValue (by decide) (by decide)⟩ fun other => absurd zero other
    · rw [if_neg zero]
      refine iff_of_false ?_ fun responds => Bool.noConfusion (responds zero)
      rintro ⟨value, none', -⟩
      contradiction

end Pass

theorem slotsDistinct (slotMask : BitVec 32) : (slotsOf slotMask).Nodup := List.nodup_range.filter _

/- The time-out fills the mask behind the first channel, so that every other channel
that never responds keeps what the caller had there. -/
theorem timesAssigned {read : Trace → BitVec 32 → BitVec 32} {fAddelSlope : ℚ} {counts : ℕ → Fin 32 → BitVec 32}
    {unset : ℕ → BitVec 16} {slotMask : BitVec 32} {calls : ℕ} {t : Trace} {logs : List (ℕ × List Step)} {after : Board}
    (run : MeasureTTot read fAddelSlope counts unset 150 (slotsOf slotMask) ⟨fun _ => none,calls,t⟩ logs after) :
    logs.map Prod.fst = slotsOf slotMask ∧ ((∀ entry ∈ logs, Assigned after entry.1 entry.2) ↔
      ∀ entry ∈ logs, ∀ j : Fin 32, j ≠ 0 → ∃ step ∈ entry.2, Responds step j) := by
  have ends := measured run (slotsDistinct slotMask) fun _ _ _ => rfl
  refine ⟨ends.order, forall₂_congr fun entry mem => forall_congr' fun j => ?_⟩
  obtain ⟨times, passes⟩ := ends.times entry mem
  rw [times j]
  exact storedExact passes j

theorem timesAssignedAll : ∃ logs after,
    MeasureTTot MTCInit.readLast (1/10) (fun call _ => BitVec.ofNat 32 (1000*call)) (fun _ => 0) 150 (slotsOf 3)
      ⟨fun _ => none,0,[]⟩ logs after ∧
    logs.map Prod.fst = slotsOf 3 ∧ ((∀ entry ∈ logs, Assigned after entry.1 entry.2) ↔
      ∀ entry ∈ logs, ∀ j : Fin 32, j ≠ 0 → ∃ step ∈ entry.2, Responds step j) := by
  obtain ⟨logs, after, run⟩ := measureEnds (by norm_num : (10/256 : ℚ) < 1/10) (by norm_num) MTCInit.readLast
    (fun call _ => BitVec.ofNat 32 (1000*call)) (fun _ => 0) (slotsOf 3) ⟨fun _ => none,0,[]⟩
  exact ⟨logs, after, run, timesAssigned run⟩

/- No counts ever come: the second channel has no time. -/
theorem deadChannelUnset : ∃ logs after,
    MeasureTTot MTCInit.readLast (1/10) (fun _ _ => 0) (fun _ => 0) 150 (slotsOf 1) ⟨fun _ => none,0,[]⟩ logs after ∧
    after.discTimes 1 = none ∧ ¬ ∀ entry ∈ logs, Assigned after entry.1 entry.2 := by
  obtain ⟨logs, after, run⟩ := measureEnds (by norm_num : (10/256 : ℚ) < 1/10) (by norm_num) MTCInit.readLast
    (fun _ _ => 0) (fun _ => 0) (slotsOf 1) ⟨fun _ => none,0,[]⟩
  have ends := measured run (slotsDistinct 1) fun _ _ _ => rfl
  have slots : logs.map Prod.fst = [0] := ends.order
  obtain ⟨entry, rfl, zero⟩ := List.map_eq_singleton_iff.mp slots
  obtain ⟨times, passes⟩ := ends.times entry List.mem_cons_self
  have silent : firstResponse entry.2 1 = none := by
    refine List.find?_eq_none.mpr fun step mem => ?_
    obtain ⟨-, -, call, same⟩ := passes step mem
    rw [same]
    change ¬ decide (2*numPeds ≤ ((0 : BitVec 32) - 0).toNat) = true
    decide
  have unset : after.discTimes 1 = none := by
    have element := times 1
    rwa [stored, silent, zero] at element
  refine ⟨[entry], after, run, unset, fun assigned => ?_⟩
  obtain ⟨value, some', -⟩ := assigned entry List.mem_cons_self 1
  rw [zero] at some'
  exact absurd (unset.symm.trans some') (Option.some_ne_none value).symm

end PennDaq.TTotTimes
