import Mathlib.Data.BitVec

/-! The two decoders of a bundle: `ParseBundle` on top of `GetBits`, and the `UNPK_`
macros. -/
namespace PennDaq.Bundles

abbrev Bundle := Fin 3 → BitVec 32

def onWords {α : Type} (f : BitVec 32 → BitVec 32 → BitVec 32 → α) (b : Bundle) : α := f (b 0) (b 1) (b 2)

def getBits (value bitStart numBits : BitVec 32) : BitVec 32 :=
  (value >>> (bitStart+1-numBits)) &&& ~~~(BitVec.allOnes 32 <<< numBits)

structure ParsedBundle where
  crateID : BitVec 16
  boardID : BitVec 16
  channelID : BitVec 16
  cmosCellID : BitVec 16
  globalTriggerID : BitVec 64
  globalTriggerID2 : BitVec 16
  adcQlx : BitVec 16
  adcQhs : BitVec 16
  adcQhl : BitVec 16
  adcTAC : BitVec 16
  cgtES16 : BitVec 16
  cgtES24 : BitVec 16
  missedCount : BitVec 16
  ncCC : BitVec 16
  lgiSelect : BitVec 16
  cmosES16 : BitVec 16
  deriving DecidableEq, Repr

def short (bits : BitVec 32) : BitVec 16 := bits.setWidth 16

def adc (signbit valADC : BitVec 16) : BitVec 16 :=
  let valADC := if signbit = 1 then valADC-2048 else valADC
  valADC+2048

def upperTrigger (word : BitVec 32) (triggerWord2 : BitVec 16) : BitVec 16 :=
  [4,3,2,1].foldl (fun triggerWord2 i =>
    if getBits word (31-i+1) 1 ≠ 0 then triggerWord2 ||| (1#16 <<< (7-i+1)) else triggerWord2) triggerWord2

def parseBundle (buffer : Bundle) : ParsedBundle where
  boardID := short (getBits (buffer 0) 29 4)
  crateID := short (getBits (buffer 0) 25 5)
  channelID := short (getBits (buffer 0) 20 5)
  globalTriggerID := (getBits (buffer 0) 15 16).setWidth 64
  cgtES16 := short (getBits (buffer 0) 30 1)
  cgtES24 := short (getBits (buffer 0) 31 1)
  cmosCellID := short (getBits (buffer 1) 15 4)
  adcQlx := adc (short (getBits (buffer 1) 11 1)) (short (getBits (buffer 1) 10 11))
  adcQhs := adc (short (getBits (buffer 1) 27 1)) (short (getBits (buffer 1) 26 11))
  missedCount := short (getBits (buffer 1) 28 1)
  ncCC := short (getBits (buffer 1) 29 1)
  lgiSelect := short (getBits (buffer 1) 30 1)
  cmosES16 := short (getBits (buffer 1) 31 1)
  globalTriggerID2 := upperTrigger (buffer 2) (short (getBits (buffer 2) 15 4))
  adcQhl := adc (short (getBits (buffer 2) 11 1)) (short (getBits (buffer 2) 10 11))
  adcTAC := adc (short (getBits (buffer 2) 27 1)) (short (getBits (buffer 2) 26 11))

def unpkMissedCount (a : Bundle) : BitVec 32 := (a 1 >>> 28) &&& 0x1
def unpkNcCC (a : Bundle) : BitVec 32 := (a 1 >>> 29) &&& 0x1
def unpkLgiSelect (a : Bundle) : BitVec 32 := (a 1 >>> 30) &&& 0x1
def unpkCmosES16 (a : Bundle) : BitVec 32 := (a 1 >>> 31) &&& 0x1
def unpkCgtES16 (a : Bundle) : BitVec 32 := (a 0 >>> 30) &&& 0x1
def unpkCgtES24 (a : Bundle) : BitVec 32 := (a 0 >>> 31) &&& 0x1

def myUnpkQlx (a : Bundle) : BitVec 64 :=
  ((a 1).setWidth 64 &&& 0x7FF) ||| ((~~~(a 1)).setWidth 64 &&& 0x800)

def unpkADC (word : BitVec 32) : BitVec 32 :=
  if word &&& 0x00000800 = 0x800 then word &&& 0x000007FF else (word &&& 0x000007FF)+2048

def unpkQlx (a : Bundle) : BitVec 32 := unpkADC (a 1)
def unpkQhs (a : Bundle) : BitVec 32 := unpkADC (a 1 >>> 16)
def unpkQhl (a : Bundle) : BitVec 32 := unpkADC (a 2)
def unpkTAC (a : Bundle) : BitVec 32 := unpkADC (a 2 >>> 16)

def unpkCellID (a : Bundle) : BitVec 32 := (a 1 >>> 12) &&& 0x0000000F
def unpkChannelID (a : Bundle) : BitVec 32 := (a 0 >>> 16) &&& 0x0000001F
def unpkBoardID (a : Bundle) : BitVec 32 := (a 0 >>> 26) &&& 0x0000000F
def unpkCrateID (a : Bundle) : BitVec 32 := (a 0 >>> 21) &&& 0x0000001F

def unpkFecGT16ID (a : Bundle) : BitVec 32 := a 0 &&& 0x0000FFFF

def unpkFecGT8ID (a : Bundle) : BitVec 32 := ((a 2 >>> 24) &&& 0x000000F0) ||| ((a 2 >>> 12) &&& 0x0000000F)

structure Fields where
  crateID : ℕ
  boardID : ℕ
  channelID : ℕ
  cellID : ℕ
  gt16 : ℕ
  gt8 : ℕ
  qlx : ℕ
  qhs : ℕ
  qhl : ℕ
  tac : ℕ
  cgtES16 : ℕ
  cgtES24 : ℕ
  missedCount : ℕ
  ncCC : ℕ
  lgiSelect : ℕ
  cmosES16 : ℕ
  deriving DecidableEq, Repr

def parsedFields (b : ParsedBundle) : Fields where
  crateID := b.crateID.toNat
  boardID := b.boardID.toNat
  channelID := b.channelID.toNat
  cellID := b.cmosCellID.toNat
  gt16 := b.globalTriggerID.toNat
  gt8 := b.globalTriggerID2.toNat
  qlx := b.adcQlx.toNat
  qhs := b.adcQhs.toNat
  qhl := b.adcQhl.toNat
  tac := b.adcTAC.toNat
  cgtES16 := b.cgtES16.toNat
  cgtES24 := b.cgtES24.toNat
  missedCount := b.missedCount.toNat
  ncCC := b.ncCC.toNat
  lgiSelect := b.lgiSelect.toNat
  cmosES16 := b.cmosES16.toNat

def unpackedFields (a : Bundle) : Fields where
  crateID := (unpkCrateID a).toNat
  boardID := (unpkBoardID a).toNat
  channelID := (unpkChannelID a).toNat
  cellID := (unpkCellID a).toNat
  gt16 := (unpkFecGT16ID a).toNat
  gt8 := (unpkFecGT8ID a).toNat
  qlx := (unpkQlx a).toNat
  qhs := (unpkQhs a).toNat
  qhl := (unpkQhl a).toNat
  tac := (unpkTAC a).toNat
  cgtES16 := (unpkCgtES16 a).toNat
  cgtES24 := (unpkCgtES24 a).toNat
  missedCount := (unpkMissedCount a).toNat
  ncCC := (unpkNcCC a).toNat
  lgiSelect := (unpkLgiSelect a).toNat
  cmosES16 := (unpkCmosES16 a).toNat

theorem shortField (word mask : BitVec 32) (small : mask.toNat < 2^16) :
    (short (word &&& mask)).toNat = (word &&& mask).toNat := by
  have below : (word &&& mask).toNat ≤ mask.toNat := by
    rw [BitVec.toNat_and]
    exact Nat.and_le_right
  rw [short, BitVec.toNat_setWidth, Nat.mod_eq_of_lt (Nat.lt_of_le_of_lt below small)]

theorem oneField (word : BitVec 32) (k : ℕ) : (word >>> k) &&& 1 = (BitVec.ofBool (word.getLsbD k)).setWidth 32 := by
  rw [show (1 : BitVec 32) = 1#32 from rfl, BitVec.and_one_eq_setWidth_ofBool_getLsbD, BitVec.getLsbD_ushiftRight,
    Nat.add_zero]

theorem signBit (word : BitVec 32) : short (getBits word 11 1) = 1 ↔ word &&& 0x00000800 = 0x800 := by
  rw [show getBits word 11 1 = (word >>> 11) &&& 1 from rfl, oneField,
    show word &&& 0x00000800 = word &&& BitVec.twoPow 32 11 from rfl, BitVec.and_twoPow]
  cases word.getLsbD 11 with
  | false => decide
  | true => decide

theorem adcUnpacked (word : BitVec 32) :
    (adc (short (getBits word 11 1)) (short (getBits word 10 11))).toNat = (unpkADC word).toNat := by
  have value : (short (getBits word 10 11)).toNat = (word &&& 0x000007FF).toNat :=
    shortField word 0x7FF (by decide)
  have below : (word &&& 0x000007FF).toNat ≤ 0x7FF := by
    rw [BitVec.toNat_and]
    exact Nat.and_le_right
  unfold adc unpkADC
  simp only [signBit]
  split
  · rw [BitVec.sub_add_cancel, value]
  · rw [BitVec.toNat_add, BitVec.toNat_add, value]
    change ((word &&& 0x7FF).toNat + 2048) % 2^16 = ((word &&& 0x7FF).toNat + 2048) % 2^32
    rw [Nat.mod_eq_of_lt (by omega), Nat.mod_eq_of_lt (by omega)]

theorem adcUpper (word : BitVec 32) :
    (adc (short (getBits word 27 1)) (short (getBits word 26 11))).toNat = (unpkADC (word >>> 16)).toNat := by
  have shifted (start num : BitVec 32) (k : ℕ) (first : (start+16+1-num).toNat = 16 + k)
      (first' : (start+1-num).toNat = k) : getBits word (start+16) num = getBits (word >>> 16) start num := by
    unfold getBits
    rw [BitVec.ushiftRight_eq', BitVec.ushiftRight_eq', first, first', BitVec.shiftRight_add]
  rw [show getBits word 27 1 = getBits (word >>> 16) 11 1 from shifted 11 1 11 rfl rfl,
    show getBits word 26 11 = getBits (word >>> 16) 10 11 from shifted 10 11 0 rfl rfl]
  exact adcUnpacked (word >>> 16)

def withTrigger (word : BitVec 32) (j : ℕ) (triggerWord2 : BitVec 16) : BitVec 16 :=
  if (word >>> (24+j)) &&& 1 ≠ 0 then triggerWord2 ||| BitVec.twoPow 16 j else triggerWord2

theorem triggerBit (word : BitVec 32) (triggerWord2 : BitVec 16) (j : Fin 8) :
    withTrigger word j triggerWord2 = triggerWord2 ||| short ((word >>> 24) &&& BitVec.twoPow 32 j) := by
  rw [withTrigger, oneField, BitVec.and_twoPow, BitVec.getLsbD_ushiftRight]
  cases word.getLsbD (24+j) with
  | false =>
    rw [if_neg (by decide), if_neg Bool.false_ne_true]
    exact BitVec.or_zero.symm
  | true =>
    rw [if_pos (by decide), if_pos rfl]
    congr 1
    revert j
    decide

theorem triggerUnpacked (word : BitVec 32) : (upperTrigger word (short (getBits word 15 4))).toNat =
    (((word >>> 24) &&& 0x000000F0#32) ||| ((word >>> 12) &&& 0x0000000F#32)).toNat := by
  have inTurn : upperTrigger word (short (getBits word 15 4)) =
      withTrigger word (7 : Fin 8) (withTrigger word (6 : Fin 8) (withTrigger word (5 : Fin 8)
        (withTrigger word (4 : Fin 8) (short ((word >>> 12) &&& 0x0000000F#32))))) := rfl
  have upper : 0x000000F0#32 = BitVec.twoPow 32 (4 : Fin 8) ||| BitVec.twoPow 32 (5 : Fin 8) |||
      BitVec.twoPow 32 (6 : Fin 8) ||| BitVec.twoPow 32 (7 : Fin 8) := rfl
  have byte : ((word >>> 24) &&& 0x000000F0#32) ||| ((word >>> 12) &&& 0x0000000F#32) =
      (((word >>> 24) &&& 0x000000F0#32) ||| ((word >>> 12) &&& 0x0000000F#32)) &&& 0xFF#32 := by
    rw [BitVec.and_or_distrib_right, BitVec.and_assoc, BitVec.and_assoc]
    rfl
  have parts : upperTrigger word (short (getBits word 15 4)) =
      short (((word >>> 24) &&& 0x000000F0#32) ||| ((word >>> 12) &&& 0x0000000F#32)) := by
    rw [inTurn, triggerBit, triggerBit, triggerBit, triggerBit, upper, BitVec.and_or_distrib_left,
      BitVec.and_or_distrib_left, BitVec.and_or_distrib_left, BitVec.or_comm _ ((word >>> 12) &&& 0x0000000F#32)]
    simp only [short, BitVec.setWidth_or, BitVec.or_assoc]
  rw [parts, byte, shortField _ _ (by decide)]

theorem lowTrigger (word : BitVec 32) :
    ((getBits word 15 16).setWidth 64).toNat = (word &&& 0x0000FFFF#32).toNat :=
  BitVec.toNat_setWidth_of_le (by decide)

theorem fieldsUnpacked (a : Bundle) : parsedFields (parseBundle a) = unpackedFields a := by
  unfold parsedFields unpackedFields
  rw [Fields.mk.injEq]
  refine ⟨shortField (a 0 >>> 21) 0x1F (by decide), shortField (a 0 >>> 26) 0xF (by decide),
    shortField (a 0 >>> 16) 0x1F (by decide), shortField (a 1 >>> 12) 0xF (by decide), lowTrigger (a 0),
    triggerUnpacked (a 2), adcUnpacked (a 1), adcUpper (a 1), adcUnpacked (a 2), adcUpper (a 2), ?_⟩
  exact ⟨shortField (a 0 >>> 30) 1 (by decide), shortField (a 0 >>> 31) 1 (by decide),
    shortField (a 1 >>> 28) 1 (by decide), shortField (a 1 >>> 29) 1 (by decide),
    shortField (a 1 >>> 30) 1 (by decide), shortField (a 1 >>> 31) 1 (by decide)⟩

theorem qlxUnpacked (a : Bundle) : (myUnpkQlx a).toNat = (unpkQlx a).toNat := by
  have low : (a 1).setWidth 64 &&& 0x7FF#64 = (a 1 &&& 0x7FF#32).setWidth 64 := by
    rw [BitVec.setWidth_and]
    rfl
  have sign : (~~~(a 1)).setWidth 64 &&& 0x800#64 = (~~~(a 1) &&& BitVec.twoPow 32 11).setWidth 64 := by
    rw [BitVec.setWidth_and]
    rfl
  have flipped : (~~~(a 1)).getLsbD 11 = !(a 1).getLsbD 11 := by
    rw [BitVec.getLsbD_not]
    rfl
  have apart : (a 1 &&& 0x7FF#32) &&& 2048#32 = 0 := by
    rw [BitVec.and_assoc]
    exact BitVec.and_zero
  have wide : myUnpkQlx a = ((a 1 &&& 0x7FF#32) ||| (~~~(a 1) &&& BitVec.twoPow 32 11)).setWidth 64 := by
    rw [BitVec.setWidth_or, ← low, ← sign]
    rfl
  rw [wide, BitVec.toNat_setWidth_of_le (by decide), BitVec.and_twoPow, flipped, unpkQlx, unpkADC,
    show a 1 &&& 0x00000800 = a 1 &&& BitVec.twoPow 32 11 from rfl, BitVec.and_twoPow]
  cases (a 1).getLsbD 11 with
  | false =>
    simp only [Bool.not_false, if_true, Bool.false_eq_true, if_false]
    rw [if_neg (by decide), show BitVec.twoPow 32 11 = 2048#32 from rfl, ← BitVec.add_eq_or_of_and_eq_zero _ _ apart]
    rfl
  | true =>
    simp only [Bool.not_true, if_true, Bool.false_eq_true, if_false]
    rw [if_pos (by decide), BitVec.or_zero]
    rfl

theorem decodersAgree (a : Bundle) :
    parsedFields (parseBundle a) = unpackedFields a ∧ (myUnpkQlx a).toNat = (parseBundle a).adcQlx.toNat :=
  ⟨fieldsUnpacked a, (qlxUnpacked a).trans (congrArg Fields.qlx (fieldsUnpacked a)).symm⟩

end PennDaq.Bundles
