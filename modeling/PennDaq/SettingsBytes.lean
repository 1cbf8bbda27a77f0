import PennDaq.FECSettings
import PennDaq.Lib.WordBytes

/-! The `MB` block as bytes, without padding, and a write to one of them. -/
namespace PennDaq.SettingsBytes
open Lib.WordBytes
open FECSettings

def place (needToSwap : Bool) (size k : Nat) : Nat := if needToSwap then k else size-1-k

def writeField {w : Nat} (needToSwap : Bool) (size : Nat) (p : Int) (value : BitVec 8) (start : Nat)
    (old : BitVec w) : BitVec w :=
  if start ≤ p ∧ p < start + size then setByte old (place needToSwap size (p-start).toNat) value else old

def vThrStart : Nat := 74

def writeByte (needToSwap : Bool) (p : Int) (value : BitVec 8) (mb : MB) : MB :=
  let short {w : Nat} (start : Nat) (old : BitVec w) := writeField needToSwap 2 p value start old
  let byte {w : Nat} (start : Nat) (old : BitVec w) := writeField needToSwap 1 p value start old
  { mbID := short 0 mb.mbID
    dbID := fun j => short (2+2*j) (mb.dbID j)
    vBal := fun j k => byte (10+32*j+k) (mb.vBal j k)
    vThr := fun k => byte (vThrStart+k) (mb.vThr k)
    tDisc := {
      rmp := fun j => byte (106+j) (mb.tDisc.rmp j)
      rmpup := fun j => byte (114+j) (mb.tDisc.rmpup j)
      vsi := fun j => byte (122+j) (mb.tDisc.vsi j)
      vli := fun j => byte (130+j) (mb.tDisc.vli j) }
    tCmos := {
      vMax := byte 138 mb.tCmos.vMax
      tacRef := byte 139 mb.tCmos.tacRef
      isetm := fun j => byte (140+j) (mb.tCmos.isetm j)
      iseta := fun j => byte (142+j) (mb.tCmos.iseta j)
      tacShift := fun j => byte (144+j) (mb.tCmos.tacShift j) }
    vInt := byte 176 mb.vInt
    hvRef := byte 177 mb.hvRef
    tr100 := {
      mask := fun j => byte (178+j) (mb.tr100.mask j)
      tDelay := fun j => byte (210+j) (mb.tr100.tDelay j) }
    tr20 := {
      mask := fun j => byte (242+j) (mb.tr20.mask j)
      tWidth := fun j => byte (274+j) (mb.tr20.tWidth j)
      tDelay := fun j => byte (306+j) (mb.tr20.tDelay j) }
    sCmos := fun j => short (338+2*j) (mb.sCmos j)
    disableMask := writeField needToSwap 4 p value 402 mb.disableMask }

def SameIds (a b : MB) : Prop := a.mbID = b.mbID ∧ a.dbID = b.dbID

def Alike (a b : MB) : Prop := { a with mbID := b.mbID, dbID := b.dbID } = b

def idWord (mb : MB) : Fin 5 → BitVec 16 := Fin.cons mb.mbID mb.dbID

def idByte (needToSwap : Bool) (mb : MB) (word : Fin 5) (k : Fin 2) : BitVec 8 :=
  byteOf (idWord mb word) (place needToSwap 2 k)

def idPlace (word : Fin 5) (k : Fin 2) : Int := 2*word+k

theorem wordsSame {a b : MB} (same : ∀ word, idWord a word = idWord b word) : SameIds a b :=
  ⟨same 0, funext fun j => same j.succ⟩

theorem sameWords {a b : MB} (same : SameIds a b) (word : Fin 5) : idWord a word = idWord b word := by
  rw [idWord, idWord, same.1, same.2]

theorem alikeSame {a b : MB} (alike : Alike a b) (ids : SameIds a b) : a = b := by
  rw [← alike, ← ids.1, ← ids.2]

theorem placeOther {needToSwap : Bool} {k l : Fin 2} (apart : k ≠ l) :
    place needToSwap 2 k ≠ place needToSwap 2 l := by
  have different : k.val ≠ l.val := fun same => apart (Fin.ext same)
  unfold place
  split <;> omega

theorem idsSame (needToSwap : Bool) {a b : MB}
    (same : ∀ word k, idByte needToSwap a word k = idByte needToSwap b word k) : SameIds a b := by
  refine wordsSame fun word => bytesSame (n := 2) (Nat.le_refl _) fun k inside => ?_
  cases needToSwap with
  | true => exact same word ⟨k,inside⟩
  | false =>
    have here := same word ⟨1-k,by omega⟩
    simpa only [idByte, place, Bool.false_eq_true, if_false, show 2-1-(1-k) = k by omega] using here

theorem alikeWrite (needToSwap : Bool) (p : Int) (value : BitVec 8) {a b : MB} (alike : Alike a b) :
    Alike (writeByte needToSwap p value a) (writeByte needToSwap p value b) := by
  cases a
  cases b
  simp only [Alike, MB.mk.injEq] at alike
  obtain ⟨-, -, rfl, rfl, rfl, rfl, rfl, rfl, rfl, rfl, rfl, rfl⟩ := alike
  rfl

theorem wordWrite (needToSwap : Bool) (p : Int) (value : BitVec 8) (mb : MB) (word : Fin 5) :
    idWord (writeByte needToSwap p value mb) word =
      writeField needToSwap 2 p value (2*word) (idWord mb word) := by
  cases word using Fin.cases with
  | zero => rfl
  | succ j =>
    change writeField needToSwap 2 p value (2+2*j) (mb.dbID j) = writeField needToSwap 2 p value (2*(j+1)) (mb.dbID j)
    rw [Nat.mul_add, Nat.add_comm]

theorem idByteWrite (needToSwap : Bool) (p : Int) (value : BitVec 8) (mb : MB) (word : Fin 5) (k : Fin 2) :
    idByte needToSwap (writeByte needToSwap p value mb) word k =
      if p = idPlace word k then value else idByte needToSwap mb word k := by
  rw [idByte, wordWrite, writeField]
  have inside : 8 * place needToSwap 2 k + 8 ≤ 16 := by
    unfold place
    split <;> omega
  by_cases here : p = idPlace word k
  · have byte : (p-(2*word.val : Nat)).toNat = k.val := by simp only [here, idPlace]; omega
    rw [if_pos (by simp only [here, idPlace]; omega), if_pos here, byte, byteSame _ inside]
  · rw [if_neg here]
    split
    · rename_i near
      have other : (p-(2*word.val : Nat)).toNat < 2 := by omega
      have apart : (⟨(p-(2*word.val : Nat)).toNat,other⟩ : Fin 2) ≠ k := fun same => here (by
        have byte := congrArg Fin.val same
        simp only [idPlace] at byte ⊢
        omega)
      exact byteOther _ (placeOther apart) value
    · rfl

end PennDaq.SettingsBytes
