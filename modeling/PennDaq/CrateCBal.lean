import PennDaq.Lib.CNumber
import PennDaq.Lib.Scan
import PennDaq.Pedestals

/-! `CrateCBal`: the balance of the two gains, by a secant for each channel. Arithmetic
is exact; a conversion to `int` of the secant's quotient and the random kick are any. -/
namespace PennDaq.CrateCBal
open Lib.CNumber
open Lib.Loop
open Lib.Scan
open Pedestals

inductive Gain where
  | high
  | low
  deriving DecidableEq

abbrev Sample := Pedestal × Pedestal

def left (gain : Gain) (x : Sample) (k : Fin 16) : ℚ :=
  match gain with
  | .high => (x.1.thiscell k).bar .qhl
  | .low => (x.1.thiscell k).bar .qlx

def right (gain : Gain) (x : Sample) (k : Fin 16) : ℚ :=
  match gain with
  | .high => (x.1.thiscell k).bar .qhs
  | .low => (x.2.thiscell k).bar .qlx

def difference (gain : Gain) (x : Sample) : ℚ := ((List.finRange 16).map fun k => left gain x k - right gain x k).sum/16

def zeroFlag (gain : Gain) (x : Sample) : Bool := (List.finRange 16).any fun k => left gain x k = 0 || right gain x k = 0

def acceptableDiff : ℚ := 10
def maxIterations : ℕ := 40
def acceptable (gain : Gain) (x : Sample) : Bool := |difference gain x| < acceptableDiff && !zeroFlag gain x

/- The elements of a channel in `x1`, `x2`, `x1_bal` and so on, what `chan_param` has for
the gain, and what was given to `MultiLoadsDac`. Nothing has been assigned where there is
none. -/
structure Chan where
  x1 : Sample
  x2 : Sample
  x1Bal : ℤ
  x2Bal : ℤ
  tmpBal : Option ℤ
  bestguessBal : Option ℤ
  isBalanced : Bool
  gainBalance : ℤ
  loaded : List ℤ

structure Balancing where
  activeChans : BitVec 32
  balancedChans : BitVec 32
  chans : Fin 32 → Chan
  iterations : ℕ

section Channel
variable (gain : Gain)

def retire (b : Balancing) (j : Fin 32) (value : ℤ) : Balancing :=
  { b with
    balancedChans := b.balancedChans ||| (1#32 <<< j.val)
    activeChans := b.activeChans &&& ~~~(1#32 <<< j.val)
    chans := Function.update b.chans j { b.chans j with isBalanced := true, gainBalance := value } }

def nearer (c : Chan) : ℤ := if |difference gain c.x1| < |difference gain c.x2| then c.x1Bal else c.x2Bal

def withinBounds (value : ℤ) : ℤ := if value > 255 then 255 else if value < 0 then 0 else value

def pickPoint (secant : ℤ → ℤ → ℚ → ℚ → ℤ) (kick : ℤ) (c : Chan) : Chan :=
  let tmp :=
    if zeroFlag gain c.x1 || zeroFlag gain c.x2 then c.x1Bal + truncate ((c.x2Bal-c.x1Bal : ℤ)/2)
    else c.x1Bal + secant c.x1Bal c.x2Bal (difference gain c.x1) (difference gain c.x2)
  let tmp := if tmp = c.x2Bal ∨ tmp = c.x1Bal then if tmp ≥ 45 then tmp-kick else tmp+kick else tmp
  { c with
    tmpBal := some (withinBounds tmp)
    bestguessBal := some (nearer gain c)
    loaded := c.loaded ++ [withinBounds tmp] }

/- A pass of the loop over channels; one that does not appear balanceable leaves it. The
same test stands there twice. -/
def balanceChannel (secant : ℤ → ℤ → ℚ → ℚ → ℤ) (kick : Fin 32 → ℤ) (first : Bool) (b : Balancing) (j : Fin 32) :
    Turn Balancing Balancing :=
  let c := b.chans j
  if b.activeChans.getLsbD j && !c.isBalanced then
    if acceptable gain c.x2 then .again (retire b j c.x2Bal)
    else if acceptable gain c.x1 then .again (retire b j c.x1Bal)
    else if difference gain c.x1*difference gain c.x2 > 0 ∧ first = true then .stop
      { b with
        chans := Function.update b.chans j { c with gainBalance := nearer gain c }
        activeChans := b.activeChans &&& ~~~(1#32 <<< j.val) }
    else .again { b with chans := Function.update b.chans j (pickPoint gain secant (kick j) c) }
  else .again b

end Channel

inductive Link where
  | fine
  | failed
  | thrown
  deriving DecidableEq

structure Links where
  timing : Link
  points : Gain → Link
  load : Gain → ℕ → Link
  pedestal : Gain → ℕ → Link

/- With what is measured: points 0 and 1 before the loop, and point `n+1` in iteration `n`. -/
structure Hardware where
  links : Links
  sample : Gain → ℕ → Fin 32 → Sample

inductive Exit where
  | ended (b : Balancing)
  | skipped (chans : Fin 32 → Chan)
  | thrown
  | unassigned

section Loop
variable (channelMask : BitVec 32) (secant : ℤ → ℤ → ℚ → ℚ → ℤ) (kick : ℕ → Fin 32 → ℤ) (hardware : Hardware) (gain : Gain)

/- `Too many iterations`: the best guesses, for all channels that are not balanced. -/
def bestGuesses (b : Balancing) : Exit :=
  if ∀ j, (b.chans j).isBalanced = true ∨ (b.chans j).bestguessBal ≠ none then
    .ended { b with chans := fun j =>
      if (b.chans j).isBalanced then b.chans j
      else { b.chans j with gainBalance := (b.chans j).bestguessBal.getD 0 } }
  else .unassigned

end Loop

/- What a slot is left with: for each gain the channels, and what is posted; or nothing
is posted, or something is used that has not been assigned. -/
inductive SlotExit where
  | posted (chans : Gain → Fin 32 → Chan) (values : Gain → Fin 32 → ℤ)
  | thrown
  | unassigned

def extreme (value : ℤ) : ℤ := if value = 255 ∨ value = 0 then 150 else value

def finalBalance (channelMask : BitVec 32) (chans : Gain → Fin 32 → Chan) (gain : Gain) (j : Fin 32) : ℤ :=
  if channelMask.getLsbD j then
    if (chans .high j).isBalanced && (chans .low j).isBalanced then extreme (chans gain j).gainBalance
    else if (chans .high j).isBalanced || (chans .low j).isBalanced then extreme (chans gain j).gainBalance
    else 150
  else (chans gain j).gainBalance

def post (channelMask : BitVec 32) (high low : Fin 32 → Chan) : SlotExit :=
  let chans : Gain → Fin 32 → Chan := fun gain => match gain with
    | .high => high
    | .low => low
  .posted chans (finalBalance channelMask chans)

section Slot
variable (channelMask : BitVec 32) (secant : ℤ → ℤ → ℚ → ℚ → ℤ) (kick : Gain → ℕ → Fin 32 → ℤ) (hardware : Hardware)

end Slot
end PennDaq.CrateCBal
