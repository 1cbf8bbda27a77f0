import PennDaq.Lib.Mask
import PennDaq.Lib.Sweep
import Mathlib.Algebra.BigOperators.Group.List.Basic
import Mathlib.Data.List.FinRange
import Mathlib.Data.List.Nodup
import Mathlib.Logic.Function.Basic

/-! The pedestals of `TriggerScan`: as many channels as the number of hits asks for,
from the first selected FEC on. -/
namespace PennDaq.TriggerPedestals
open Lib.Mask

abbrev Fec := Fin 20 × Fin 16

/- The array `pedestals`, and what was last written to `PED_ENABLE` of each FEC. -/
structure Pedestals where
  pedestals : Fec → BitVec 32
  hardware : Fec → BitVec 32

def Pedestals.set (p : Pedestals) (fec : Fec) (value : BitVec 32) : Pedestals :=
  ⟨Function.update p.pedestals fec value,Function.update p.hardware fec value⟩

def clear (s : Pedestals × Nat) (fec : Fec) : Pedestals × Nat := (s.1.set fec 0x0,s.2+1)

def Same (p : Pedestals) (fec : Fec) : Prop := p.hardware fec = p.pedestals fec

section Masks
variable (crateMask : BitVec 32) (slotMasks : Fin 20 → BitVec 32)

def eachFec {σ : Type} (step : σ → Fec → σ) (s : σ) : σ :=
  (List.finRange 20).foldl (fun s (i : Fin 20) =>
    if crateMask.getLsbD i then
      (List.finRange 16).foldl (fun s (j : Fin 16) => if (slotMasks i).getLsbD j then step s (i,j) else s) s
    else s) s

structure Filling where
  now : Pedestals
  fullFecs : Int

def unfullPedestal (unfullFec : Nat) : BitVec 32 := orBits 0x0 (List.range unfullFec)

/- `full_fecs` counts down to -1 where the leftovers have been given out. -/
def fill (unfull : BitVec 32) (s : Filling) (fec : Fec) : Filling :=
  if s.now.pedestals fec = 0xFFFFFFFF then
    if s.fullFecs > 0 then { s with fullFecs := s.fullFecs-1 }
    else if s.fullFecs = 0 then ⟨s.now.set fec unfull,s.fullFecs-1⟩
    else { s with now := s.now.set fec 0x0 }
  else
    if s.fullFecs > 0 then ⟨s.now.set fec 0xFFFFFFFF,s.fullFecs-1⟩
    else if s.fullFecs = 0 then ⟨s.now.set fec unfull,s.fullFecs-1⟩
    else if s.now.pedestals fec = 0x0 then s
    else { s with now := s.now.set fec 0x0 }

def update (p : Pedestals) (inhit : Nat) : Pedestals :=
  (eachFec crateMask slotMasks (fill (unfullPedestal (inhit % 32))) ⟨p,(inhit/32 : Nat)⟩).now

def fecs : List Fec := ((List.finRange 20).filter fun i : Fin 20 => crateMask.getLsbD i).flatMap fun i =>
  ((List.finRange 16).filter fun j : Fin 16 => (slotMasks i).getLsbD j).map fun j => (i,j)

def channels (word : BitVec 32) : Nat := (List.range 32).countP fun c => word.getLsbD c

end Masks

@[simp] theorem setHere (p : Pedestals) (fec : Fec) (value : BitVec 32) :
    (p.set fec value).pedestals fec = value ∧ (p.set fec value).hardware fec = value := by
  simp [Pedestals.set]

def target (unfull : BitVec 32) (fullFecs : Int) : BitVec 32 :=
  if fullFecs > 0 then 0xFFFFFFFF else if fullFecs = 0 then unfull else 0x0

section Initial
variable (l : List Fec) (p : Pedestals) (n : Nat)

end Initial

section Runs
variable (crateMask : BitVec 32) (slotMasks : Fin 20 → BitVec 32)

end Runs
end PennDaq.TriggerPedestals
