import PennDaq.Lib.Loop
import PennDaq.MTCDelays

/-! `MeasureTTot` and `CheckTTot`: the loops around `SetGTDelay`, the scan of the delay
and the times that it assigns. The hardware answers each `GetCmosTotalCount` with any
counts. -/
namespace PennDaq.TTotMeasure
open Lib.CNumber
open Lib.Loop
open Lib.Mask
open MTCInit (Trace)
open MTCDelays

def maxTime : ℤ := 1100
def numPeds : ℕ := 500
def tubDelay : ℤ := 60
def increment : ℤ := 10

structure Step where
  realDelay : ℚ
  counted : Fin 32 → BitVec 32

def Responds (step : Step) (j : Fin 32) : Prop := 2*numPeds ≤ (step.counted j).toNat

instance (step : Step) (j : Fin 32) : Decidable (Responds step j) := inferInstanceAs (Decidable (_ ≤ _))

/- `disc_times`, in which an element is `none` as long as the call has not assigned it;
how often the counts were read; and what was written to the MTC. -/
structure Board where
  discTimes : ℕ → Option (BitVec 16)
  calls : ℕ
  trace : Trace

structure Scan where
  time : ℤ
  chanDoneMask : BitVec 32
  board : Board
  steps : List Step

abbrev Marks := BitVec 32 × (ℕ → Option (BitVec 16))

def assign (discTimes : ℕ → Option (BitVec 16)) (k : ℕ) (value : ℤ) : ℕ → Option (BitVec 16) :=
  Function.update discTimes k (some (BitVec.ofInt 16 value))

def markChannel (slot : ℕ) (step : Step) (marks : Marks) (j : Fin 32) : Marks :=
  if Responds step j ∧ marks.1.getLsbD j = false then
    (marks.1 ||| 1#32 <<< j.val,assign marks.2 (slot*32+j) (truncate step.realDelay + tubDelay))
  else marks

/- The mask is set for all channels behind the first one. -/
def timeOutChannel (slot : ℕ) (time : ℤ) (marks : Marks) (k : Fin 32) : Marks :=
  (BitVec.allOnes 32,
    if marks.1.getLsbD k = false then assign marks.2 (slot*32+k) (time+tubDelay) else marks.2)

def nextTime (time : ℤ) (realDelay : ℚ) : ℤ :=
  let next := truncate (realDelay + 1/2) + increment
  min (if next > time then next else time) maxTime

section Hardware
variable (read : Trace → BitVec 32 → BitVec 32) (fAddelSlope : ℚ) (counts : ℕ → Fin 32 → BitVec 32)

/- `SetGTDelay` once more as long as its result is not accepted -/
def delayTurn (accepted : ℚ → Bool) (gtdel : ℚ) (t : Trace) : Turn Trace (ℚ × Trace) :=
  if accepted (setGTDelay read fAddelSlope t gtdel).1 then .stop (setGTDelay read fAddelSlope t gtdel)
  else .again (setGTDelay read fAddelSlope t gtdel).2

/- `real_delay > time` and `real_delay + increment < time` are refused. -/
def inWindow (time : ℤ) (realDelay : ℚ) : Bool := ¬ realDelay > time ∧ ¬ realDelay + increment < time

def longEnough (goal realDelay : ℚ) : Bool := ¬ realDelay < goal - 5

def stepOf (calls : ℕ) (realDelay : ℚ) : Step := ⟨realDelay,fun j => counts (calls+1) j - counts calls j⟩

def counted (slot : ℕ) (s : Scan) (done : ℚ × Trace) : Scan :=
  let step := stepOf counts s.board.calls done.1
  let marks := (List.finRange 32).foldl (markChannel slot step) (s.chanDoneMask,s.board.discTimes)
  ⟨s.time,marks.1,⟨marks.2,s.board.calls+2,done.2⟩,s.steps ++ [step]⟩

def timedOut (slot : ℕ) (s : Scan) : Scan :=
  let marks := (List.finRange 32).foldl (timeOutChannel slot s.time) (s.chanDoneMask,s.board.discTimes)
  { s with chanDoneMask := marks.1, board := { s.board with discTimes := marks.2 } }

/- The mask is full behind a time-out, too, and ends the loop. -/
def scanPass (slot : ℕ) (s : Scan) (done : ℚ × Trace) : Turn Scan Scan :=
  let s := counted counts slot s done
  if s.chanDoneMask = BitVec.allOnes 32 then .stop s
  else if s.time ≥ maxTime then .stop (timedOut slot s)
  else .again { s with time := nextTime s.time done.1 }

inductive Scanned (slot : ℕ) : Scan → Scan → Prop where
  | stop {s after : Scan} {done : ℚ × Trace}
      (delay : Ends (delayTurn read fAddelSlope (inWindow s.time) s.time) s.board.trace done)
      (pass : scanPass counts slot s done = .stop after) : Scanned slot s after
  | again {s next after : Scan} {done : ℚ × Trace}
      (delay : Ends (delayTurn read fAddelSlope (inWindow s.time) s.time) s.board.trace done)
      (pass : scanPass counts slot s done = .again next) (rest : Scanned slot next after) : Scanned slot s after

def aloneDelay (unset : ℕ → BitVec 16) (discTimes : ℕ → Option (BitVec 16)) (k : ℕ) : ℚ :=
  (((discTimes k).getD (unset k)).toNat : ℚ) - tubDelay + 50

inductive Rechecked (unset : ℕ → BitVec 16) (slot : ℕ) : List (Fin 32) → Board → Board → Prop where
  | nil (board : Board) : Rechecked unset slot [] board board
  | cons {j : Fin 32} {later : List (Fin 32)} {board after : Board} {done : ℚ × Trace}
      (delay : Ends (delayTurn read fAddelSlope
        (longEnough (aloneDelay unset board.discTimes (slot*32+j))) (aloneDelay unset board.discTimes (slot*32+j)))
        board.trace done)
      (rest : Rechecked unset slot later { board with calls := board.calls+2, trace := done.2 } after) :
      Rechecked unset slot (j::later) board after

inductive MeasureTTot (unset : ℕ → BitVec 16) (startTime : ℤ) :
    List ℕ → Board → List (ℕ × List Step) → Board → Prop where
  | nil (board : Board) : MeasureTTot unset startTime [] board [] board
  | cons {slot : ℕ} {later : List ℕ} {board mid after : Board} {scan : Scan} {logs : List (ℕ × List Step)}
      (scanned : Scanned read fAddelSlope counts slot ⟨startTime,0,board,[]⟩ scan)
      (alone : Rechecked read fAddelSlope unset slot (List.finRange 32) scan.board mid)
      (rest : MeasureTTot unset startTime later mid logs after) :
      MeasureTTot unset startTime (slot::later) board ((slot,scan.steps)::logs) after

def slotsOf (slotMask : BitVec 32) : List ℕ := (List.range 16).filter fun i => slotMask.getLsbD i

/- What a round makes of `diff`; only the first one sets it. -/
def checkRound (first : Bool) (step : Step) (diff : Fin 32 → ℤ) (k : Fin 32) : ℤ :=
  if ¬ Responds step k then if first then 1 else diff k else 0

def CheckTTot (goalTime : ℤ) (board : Board) (diff : Fin 32 → ℤ) (after : Board) : Prop :=
  let goal : ℚ := goalTime - tubDelay
  ∃ one two, Ends (delayTurn read fAddelSlope (longEnough goal) goal) board.trace one ∧
    Ends (delayTurn read fAddelSlope (longEnough goal) goal) one.2 two ∧
    diff = checkRound false (stepOf counts (board.calls+2) two.1)
      (checkRound true (stepOf counts board.calls one.1) fun _ => 0) ∧
    after = { board with calls := board.calls+4, trace := two.2 }

end Hardware

end PennDaq.TTotMeasure
