import PennDaq.Lib.Loop
import PennDaq.Lib.Mask
import PennDaq.Lib.Sweep
import Mathlib.Data.List.FinRange
import Mathlib.Data.List.ProdSigma
import Mathlib.Data.Rat.Defs
import Mathlib.Logic.Function.Basic

/-! `FindNoise`: the main loop that brings the thresholds of all channels down together,
and the two loops behind it that take the channels one by one. What the hardware counts
is any input; a load that fails or a link that throws is none. -/
namespace PennDaq.FindNoise
open Lib.Loop
open Lib.Mask
open Lib.Sweep

abbrev Channel := Fin 20 × Fin 16 × Fin 32

/- The table that goes to `MultiLoadsDac`, entry `k` being for channel `k` of a slot, and
the threshold DACs as they were loaded last. -/
structure Bench where
  slotNums : Fin 32 → Fin 16
  dacValues : Fin 32 → BitVec 32
  dacs : Channel → BitVec 32

def dacValue (value : BitVec 32) : BitVec 32 := if value.toNat < 256 then value else 255

def multiLoadsDac (i : Fin 20) (b : Bench) : Bench :=
  { b with dacs := fun c => if c.1 = i ∧ c.2.1 = b.slotNums c.2.2 then dacValue (b.dacValues c.2.2) else b.dacs c }

section Masks
variable (crateMask : BitVec 32) (slotMasks : Fin 20 → BitVec 32)

def inMask (i : Fin 20) (j : Fin 16) : Bool := crateMask.getLsbD i && (slotMasks i).getLsbD j

def maskedSlots : List (Fin 20 × Fin 16) :=
  (List.finRange 20 ×ˢ List.finRange 16).filter fun s => inMask crateMask slotMasks s.1 s.2

def loadSlot (currentVthr : Fin 20 → Fin 16 → Fin 32 → BitVec 32) (b : Bench) (s : Fin 20 × Fin 16) : Bench :=
  multiLoadsDac s.1 { b with slotNums := fun _ => s.2, dacValues := currentVthr s.1 s.2 }

end Masks

def sleepTime : ℕ := 50000
def maxIterations : ℕ := 100
def maxNoiseRate : ℕ := 100

/- `frequency` is a `float`, and `10*frequency` is rounded to one. -/
structure Frequency where
  value : ℚ
  tenfold : ℚ

instance (n : ℕ) : OfNat Frequency n := ⟨⟨n,(10*n : ℕ)⟩⟩

def limit (frequency : Frequency) : ℚ := frequency.value*(2*sleepTime/10^6+25/1000)+1

def tenfoldLimit (frequency : Frequency) : ℚ := frequency.tenfold*(2*sleepTime/10^6+25/1000)+1

def noisy (frequency : Frequency) (noise : BitVec 32) : Bool := noise.toNat > limit frequency

/- `2*SLEEP_TIME*1e-6` is the double below 0.1. -/
def noiseTime : ℚ := 7205759403792793/2^56

def AboveRate (noise : BitVec 32) : Prop := noise.toNat/noiseTime > maxNoiseRate

instance (noise : BitVec 32) : Decidable (AboveRate noise) := inferInstanceAs (Decidable (_ < _))

structure Counts where
  first : Channel → BitVec 32
  second : Channel → BitVec 32

def readoutNoise (counts : Counts) (c : Channel) : BitVec 32 :=
  if counts.first c > counts.second c then 0xFFFFFFFF else counts.second c - counts.first c

structure Slot where
  foundAbove : BitVec 32
  foundBelow : BitVec 32
  doneChannel : BitVec 32
  errorChannel : BitVec 32
  currentVthr : Fin 32 → BitVec 32

def startChannel (vthrZeros : Fin 32 → BitVec 32) (s : Slot) (k : Fin 32) : Slot :=
  if (vthrZeros k).toNat ≥ 255 then
    { s with
      errorChannel := s.errorChannel ||| (1#32 <<< k.val)
      doneChannel := s.doneChannel ||| (1#32 <<< k.val)
      currentVthr := Function.update s.currentVthr k 255 }
  else { s with currentVthr := Function.update s.currentVthr k (vthrZeros k + 25) }

def startSlot (vthrZeros : Fin 32 → BitVec 32) : Slot :=
  (List.finRange 32).foldl (startChannel vthrZeros) ⟨0,0,0,0,fun _ => 0⟩

def stepUp (s : Slot) (k : Fin 32) : Slot :=
  let vthr := s.currentVthr k + 1
  if vthr.toNat ≥ 255 then
    { s with
      currentVthr := Function.update s.currentVthr k 255
      errorChannel := s.errorChannel ||| (1#32 <<< k.val) }
  else { s with currentVthr := Function.update s.currentVthr k vthr }

def stepDown (s : Slot) (k : Fin 32) : Slot :=
  let vthr := s.currentVthr k - 1
  if vthr.toNat ≤ 0 then
    { s with
      currentVthr := Function.update s.currentVthr k 0
      errorChannel := s.errorChannel ||| (1#32 <<< k.val) }
  else { s with currentVthr := Function.update s.currentVthr k vthr }

/- `early` is `iterations < MAX_ITERATIONS`. -/
def checkChannel (isNoisy : Fin 32 → Bool) (early : Bool) (s : Slot) (k : Fin 32) : Slot :=
  if s.errorChannel.getLsbD k then s
  else if !s.doneChannel.getLsbD k then
    if isNoisy k then stepUp { s with foundBelow := s.foundBelow ||| (1#32 <<< k.val) } k
    else
      let s := { s with foundAbove := s.foundAbove ||| (1#32 <<< k.val) }
      if s.foundBelow.getLsbD k then { s with doneChannel := s.doneChannel ||| (1#32 <<< k.val) }
      else stepDown s k
  else if isNoisy k then
    let s := stepUp { s with doneChannel := s.doneChannel &&& ~~~(1#32 <<< k.val) } k
    let s := { s with foundAbove := s.foundAbove &&& ~~~(1#32 <<< k.val) }
    if early then { s with foundBelow := s.foundBelow &&& ~~~(1#32 <<< k.val) } else s
  else s

structure Search where
  slots : Fin 20 → Fin 16 → Slot
  bench : Bench
  iterations : ℕ

section MainLoop
variable (crateMask : BitVec 32) (slotMasks : Fin 20 → BitVec 32) (frequency : Frequency)

def searchStart (vthrZeros : Channel → BitVec 32) (bench : Bench) : Search where
  slots i j := startSlot fun k => vthrZeros (i,j,k)
  bench := bench
  iterations := 0

def iteration (counts : Counts) (s : Search) : Search where
  bench := (maskedSlots crateMask slotMasks).foldl (loadSlot fun i j => (s.slots i j).currentVthr) s.bench
  slots i j :=
    if inMask crateMask slotMasks i j then
      (List.finRange 32).foldl (checkChannel (fun k => noisy frequency (readoutNoise counts (i,j,k)))
        (s.iterations < maxIterations)) (s.slots i j)
    else s.slots i j
  iterations := s.iterations+1

def AllDone (s : Search) : Prop :=
  ∀ i j, inMask crateMask slotMasks i j = true → (s.slots i j).doneChannel ||| (s.slots i j).errorChannel = 0xFFFFFFFF

instance (s : Search) : Decidable (AllDone crateMask slotMasks s) := by
  unfold AllDone
  infer_instance

def mainTurn (counts : ℕ → Option Counts) (s : Search) : Turn Search (Option Search) :=
  match counts s.iterations with
  | none => .stop none
  | some n =>
    let next := iteration crateMask slotMasks frequency n s
    if AllDone crateMask slotMasks next then .stop (some next) else .again next

end MainLoop

structure Tuner where
  crates : List (Fin 20)
  channels : List Channel
  steps : ℕ
  bench : Bench
  currentVthr2 : Channel → BitVec 32
  reads : ℕ

def Tuner.load (s : Tuner) (c : Channel) : Tuner :=
  { s with bench := multiLoadsDac c.1 { s.bench with
      slotNums := Function.update s.bench.slotNums c.2.2 c.2.1
      dacValues := Function.update s.bench.dacValues c.2.2 (s.currentVthr2 c) } }

section Tuning
variable (crateMask : BitVec 32) (slotMasks : Fin 20 → BitVec 32)

def channelsOf (i : Fin 20) : List Channel :=
  ((List.finRange 16).filter fun j : Fin 16 => (slotMasks i).getLsbD j).flatMap fun j => (List.finRange 32).map fun k => (i,j,k)

def maskedCrates : List (Fin 20) := (List.finRange 20).filter fun i : Fin 20 => crateMask.getLsbD i

/- One pass of a `while(true)`, which goes on with the channel at another threshold or
leaves it. The rate is the difference of two total counts. -/
def channelTurn (gaveUp : BitVec 32 → Bool) (pass : Channel → BitVec 32 → BitVec 32 → ℕ → Turn (BitVec 32) (BitVec 32))
    (counts : ℕ → Option (BitVec 32 × BitVec 32)) (s : Tuner) : Turn Tuner (Option Tuner) :=
  match s.channels with
  | [] => match s.crates with
    | [] => .stop (some s)
    | i::more => .again { s with crates := more, channels := channelsOf slotMasks i }
  | c::rest =>
    if gaveUp (s.currentVthr2 c) then .again { s with channels := rest, steps := 0 }
    else match counts s.reads with
      | none => .stop none
      | some (first,second) =>
        let s := { s.load c with reads := s.reads+1 }
        match pass c (s.currentVthr2 c) (second-first) s.steps with
        | .again vthr => .again { s with currentVthr2 := Function.update s.currentVthr2 c vthr, steps := s.steps+1 }
        | .stop vthr => .again
          { s with currentVthr2 := Function.update s.currentVthr2 c vthr, channels := rest, steps := 0 }

end Tuning

def tuneChannel (frequency : Frequency) (vthrZeros : Channel → BitVec 32) (c : Channel) (vthr noise : BitVec 32) (steps : ℕ) :
    Turn (BitVec 32) (BitVec 32) :=
  if vthr.toNat ≤ (vthrZeros c).toNat ∨ vthr = 255 ∨ vthr = 0 then .stop 255
  else if (vthr - vthrZeros c).toNat < 6 then
    if steps = 0 then .stop (vthrZeros c + 5)
    else if noise.toNat < limit frequency then .stop (vthrZeros c + 5)
    else .stop (vthrZeros c + 6)
  else if noise.toNat > tenfoldLimit frequency then .stop (vthr+1)
  else if noisy frequency noise then .stop (if steps > 0 then vthr+1 else vthr)
  else if steps = 3 then .stop vthr
  else .again (vthr-1)

/- Noisy channels: up while the rate is above 100 Hz, at most five steps. -/
def stepNoisy (vthr noise : BitVec 32) (count : ℕ) : Turn (BitVec 32) (BitVec 32) :=
  if AboveRate noise then
    if count+1 ≥ 5 then .stop (vthr+1)
    else if (vthr+1).toNat ≥ 200 then .stop (vthr+1)
    else .again (vthr+1)
  else .stop vthr

section Posting
variable (crateMask : BitVec 32) (slotMasks : Fin 20 → BitVec 32) (frequency : Frequency) (vthrZeros : Channel → BitVec 32)

def tuneTurn (counts : ℕ → Option (BitVec 32 × BitVec 32)) (s : Tuner) : Turn Tuner (Option Tuner) :=
  channelTurn slotMasks (fun _ => false) (tuneChannel frequency vthrZeros) counts s

def noisyTurn (counts : ℕ → Option (BitVec 32 × BitVec 32)) (s : Tuner) : Turn Tuner (Option Tuner) :=
  channelTurn slotMasks (fun vthr => vthr.toNat > 250) (fun _ => stepNoisy) counts s

def copied (s : Search) (c : Channel) : BitVec 32 :=
  if inMask crateMask slotMasks c.1 c.2.1 then (s.slots c.1 c.2.1).currentVthr c.2.2 else 0

def tuneStart (s : Search) : Tuner := ⟨maskedCrates crateMask,[],0,s.bench,copied crateMask slotMasks s,0⟩

def noisyStart (s : Tuner) : Tuner := ⟨maskedCrates crateMask,[],0,s.bench,s.currentVthr2,0⟩

def plusOneMore (plusOne : Bool) (vthr : BitVec 32) : BitVec 32 :=
  if plusOne then if vthr.toNat < 255 then vthr+1 else vthr else vthr

structure Hardware where
  main : ℕ → Option Counts
  tuning : ℕ → Option (BitVec 32 × BitVec 32)
  noisy : ℕ → Option (BitVec 32 × BitVec 32)

/- A run with channel tuning that gets to posting, and the values that it posts. -/
structure Posts (hardware : Hardware) (plusOne : Bool) (noiseless : Channel → BitVec 32) : Prop where
  ends : ∃ bench s t u,
    Ends (mainTurn crateMask slotMasks frequency hardware.main) (searchStart vthrZeros bench) (some s) ∧
    Ends (tuneTurn slotMasks frequency vthrZeros hardware.tuning) (tuneStart crateMask slotMasks s) (some t) ∧
    Ends (noisyTurn slotMasks hardware.noisy) (noisyStart crateMask t) (some u) ∧
    noiseless = fun c => plusOneMore plusOne (u.currentVthr2 c)

end Posting
end PennDaq.FindNoise
