import Mathlib.Tactic.FieldSimp
import Mathlib.Tactic.Linarith
import PennDaq.Lib.CNumber
import PennDaq.Lib.Mask

/-! `MTCInit` from the record of the database on, with the setters of `MTCModel` that
it calls. The registers are seen through what is written to them, in order; what they
answer is left open. -/
namespace PennDaq.MTCInit
open Lib.CNumber
open Lib.Mask

def mtcControlReg : BitVec 32 := 0x0
def mtcSerialReg : BitVec 32 := 0x4
def mtcDacCntReg : BitVec 32 := 0x8
def mtcPedWidthReg : BitVec 32 := 0x10
def mtcCoarseDelayReg : BitVec 32 := 0x14
def mtcFineDelayReg : BitVec 32 := 0x18
def mtcPmskReg : BitVec 32 := 0x20
def mtcScaleReg : BitVec 32 := 0x24
def mtcBbaReg : BitVec 32 := 0x2C
def mtcGtLockReg : BitVec 32 := 0x30
def mtcMaskReg : BitVec 32 := 0x34
def mtcGmskReg : BitVec 32 := 0x3C

def loadEnPr : BitVec 32 := 0x00000004
def loadEnPs : BitVec 32 := 0x00000008
def loadEnPw : BitVec 32 := 0x00000010
def loadEnLk : BitVec 32 := 0x00000020
def loadEnGt : BitVec 32 := 0x00000800
def fifoReset : BitVec 32 := 0x00010000

def sen : BitVec 32 := 0x00000001
def serDat : BitVec 32 := 0x00000002
def shftClkGt : BitVec 32 := 0x00000004
def shftClkPs : BitVec 32 := 0x00000020

def dacSel : BitVec 32 := 0x00004000
def dacClk : BitVec 32 := 0x00008000

def maskAll : BitVec 32 := 0xFFFFFFFF

structure Write where
  address : BitVec 32
  data : BitVec 32
  deriving DecidableEq, Repr

abbrev Trace := List Write

def regWrite (t : Trace) (address data : BitVec 32) : Trace := t ++ [⟨address,data⟩]

section Setters
variable (read : Trace → BitVec 32 → BitVec 32)

def setBits (t : Trace) (address bits : BitVec 32) : Trace :=
  regWrite t address (read t address ||| bits)

def clearBits (t : Trace) (address bits : BitVec 32) : Trace :=
  regWrite t address (read t address &&& ~~~bits)

def toggle (t : Trace) (bits : BitVec 32) : Trace :=
  clearBits read (setBits read t mtcControlReg bits) mtcControlReg bits

/- The setters of a width or delay that is counted in `unit` nanoseconds. -/
def loadCounts (reg load : BitVec 32) (unit : Nat) (t : Trace) (width : BitVec 16) : Int × Trace :=
  if width.toNat < unit ∨ width.toNat > 255*unit then (-1,t)
  else (0,toggle read (regWrite t reg (~~~BitVec.ofNat 32 (width.toNat/unit))) load)

def setLockoutWidth : Trace → BitVec 16 → Int × Trace := loadCounts read mtcGtLockReg loadEnLk 20

def setPedestalWidth : Trace → BitVec 16 → Int × Trace := loadCounts read mtcPedWidthReg loadEnPw 5

def setCoarseDelay : Trace → BitVec 16 → Int × Trace := loadCounts read mtcCoarseDelayReg loadEnPw 10

/- `if (addel_value > 255)` goes without a write. -/
def setFineDelay (fAddelSlope : ℚ) (t : Trace) (delay : ℚ) : Trace :=
  let addelValue := toUInt 32 (delay/fAddelSlope)
  if addelValue.toNat > 255 then t
  else toggle read (regWrite t mtcFineDelayReg addelValue) loadEnPw

def setPrescale (t : Trace) (scale : BitVec 16) : Int × Trace :=
  if scale.toNat < 2 then (-1,t)
  else (0,toggle read (regWrite t mtcScaleReg (~~~BitVec.ofNat 32 (scale.toNat-1))) loadEnPr)

/- The bits of `value` below `j`, highest first, each clocked in by a second write. -/
def shiftOut (clock value : BitVec 32) : Nat → Trace → Trace
  | 0, t => t
  | j+1, t =>
    let shiftValue := if value.getLsbD j then serDat ||| sen else sen
    shiftOut clock value j (setBits read (regWrite t mtcSerialReg shiftValue) mtcSerialReg clock)

def setGTCounter (t : Trace) (count : BitVec 32) : Trace :=
  toggle read (shiftOut read shftClkGt count 24 t) loadEnGt

def loadPulser (t : Trace) (pulserValue : BitVec 32) : Trace :=
  toggle read (shiftOut read shftClkPs pulserValue 24 t) loadEnPs

def setPulserFrequency (t : Trace) (freq : ℚ) : Int × Trace :=
  if freq ≤ 1/1000 then (0,loadPulser read t 0)
  else
    let pulserValue := toUInt 32 (781250/freq - 1)
    if pulserValue.toNat < 1 ∨ pulserValue.toNat > 167772216 then (-1,t)
    else (0,loadPulser read t pulserValue)

def shiftValue (rawDacs : Fin 14 → BitVec 16) (bi : Nat) (value : BitVec 32) : BitVec 32 :=
  (List.finRange 14).foldl (fun value di =>
    if (rawDacs di).getLsbD bi then value ||| (1#32 <<< di.val)
    else value &&& ~~~(1#32 <<< di.val)) value

def dacWrite (t : Trace) (data : BitVec 32) : Trace := regWrite t mtcDacCntReg data

def shiftDummy : Nat → Trace → Trace
  | 0, t => t
  | n+1, t => shiftDummy n (dacWrite (dacWrite t (dacSel ||| dacClk)) dacSel)

def shiftDacs (rawDacs : Fin 14 → BitVec 16) : Nat → BitVec 32 → Trace → Trace
  | 0, _, t => t
  | bi+1, value, t =>
    let value := shiftValue rawDacs bi value
    shiftDacs rawDacs bi value (dacWrite (dacWrite (dacWrite t (value ||| dacSel))
      (value ||| dacSel ||| dacClk)) (value ||| dacSel))

def loadMTCADacsByCounts (t : Trace) (rawDacs : Fin 14 → BitVec 16) : Trace :=
  let t := dacWrite t dacSel
  let t := shiftDummy 4 t
  let t := shiftDacs rawDacs 12 0 t
  dacWrite t 0x0

def loadMTCADacs (t : Trace) (voltages : Fin 14 → ℚ) : Trace :=
  loadMTCADacsByCounts t fun i => toUInt 16 (2048/5000*voltages i + 2048)

def resetMemory (t : Trace) : Trace := regWrite (toggle read t fifoReset) mtcBbaReg 0x0

structure MTCRecord where
  lockoutWidth : BitVec 16
  pedestalWidth : BitVec 16
  nhit100LoPrescale : BitVec 16
  pulserPeriod : BitVec 32
  fineSlope : ℚ
  coarseDelay : BitVec 16
  fineDelay : BitVec 16
  threshold : Fin 14 → BitVec 16

def widthOf (unit : Nat) (recorded : BitVec 16) : BitVec 16 :=
  BitVec.ofNat 16 ((~~~recorded &&& 0xff#16).toNat*unit)

structure Done where
  lockout : Int
  prescale : Int
  pulser : Int
  pedestal : Int
  coarse : Int
  result : Int
  trace : Trace

def mtcInit (fAddelSlope : ℚ) (mtcdb : MTCRecord) (t : Trace) : Done :=
  let t := clearBits read t mtcMaskReg maskAll
  let t := clearBits read t mtcPmskReg maskAll
  let t := clearBits read t mtcGmskReg maskAll
  let t := loadMTCADacs t fun i => ((mtcdb.threshold i).toNat : ℚ)/2048*5000 - 5000
  let t := regWrite t mtcControlReg 0x0
  let lockout := setLockoutWidth read t (widthOf 20 mtcdb.lockoutWidth)
  let t := setGTCounter read lockout.2 0
  let prescale := setPrescale read t (~~~mtcdb.nhit100LoPrescale + 1)
  let pulser := setPulserFrequency read prescale.2 (781250/((mtcdb.pulserPeriod.toNat : ℚ) + 1))
  let pedestal := setPedestalWidth read pulser.2 (widthOf 5 mtcdb.pedestalWidth)
  let coarse := setCoarseDelay read pedestal.2 (widthOf 10 mtcdb.coarseDelay)
  let t := setFineDelay read fAddelSlope coarse.2 ((mtcdb.fineDelay.toNat : ℚ)*mtcdb.fineSlope)
  let t := resetMemory read t
  ⟨lockout.1,prescale.1,pulser.1,pedestal.1,coarse.1,
    lockout.1+prescale.1+pulser.1+pedestal.1+coarse.1,t⟩

end Setters

/-! What the hardware gets: the value last written to a register, and the data of the
writes that have a clock bit set. -/

def lastWritten (reg : BitVec 32) (t : Trace) : Option (BitVec 32) :=
  (t.filter fun x => x.address = reg).getLast?.map Write.data

def clockedIn (reg : BitVec 32) (clock : Nat) (t : Trace) : List (BitVec 32) :=
  (t.filter fun x => x.address = reg ∧ x.data.getLsbD clock).map Write.data

def pulserBits (t : Trace) : List Bool := (clockedIn mtcSerialReg 5 t).map fun data => data.getLsbD 1

def dacBits (di : Fin 14) (t : Trace) : List Bool :=
  (clockedIn mtcDacCntReg 15 t).map fun data => data.getLsbD di

def number (bits : List Bool) : Nat := bits.foldl (fun value bit => 2*value + bit.toNat) 0

def Shifted (n : Nat) (value : Nat) (bits : List Bool) : Prop :=
  ∃ earlier last, bits = earlier ++ last ∧ last.length = n ∧ number last = value

def LowBits (n : Nat) (reg : BitVec 32) (value : Nat) (t : Trace) : Prop :=
  ∃ data, lastWritten reg t = some data ∧ data.toNat % 2^n = value % 2^n

def ReadsBack (read : Trace → BitVec 32 → BitVec 32) (reg : BitVec 32) : Prop :=
  ∀ t data, read (regWrite t reg data) reg = data

def Writes (regs : List (BitVec 32)) (t t' : Trace) : Prop :=
  ∃ w : Trace, t' = t ++ w ∧ ∀ x ∈ w, x.address ∈ regs

theorem writesNothing (regs : List (BitVec 32)) (t : Trace) : Writes regs t t :=
  ⟨[], (List.append_nil t).symm, by simp⟩

theorem writesOne {regs : List (BitVec 32)} {reg : BitVec 32} (mem : reg ∈ regs) (t : Trace)
    (data : BitVec 32) : Writes regs t (regWrite t reg data) :=
  ⟨[⟨reg,data⟩], rfl, by simpa using mem⟩

theorem writesTrans {regs : List (BitVec 32)} {a b c : Trace} (first : Writes regs a b)
    (second : Writes regs b c) : Writes regs a c := by
  obtain ⟨w, rfl, one⟩ := first
  obtain ⟨v, rfl, two⟩ := second
  refine ⟨w ++ v, List.append_assoc a w v, fun x mem => ?_⟩
  rcases List.mem_append.mp mem with mem | mem
  · exact one x mem
  · exact two x mem

theorem writesMore {regs more : List (BitVec 32)} (sub : regs ⊆ more) {t t' : Trace}
    (writes : Writes regs t t') : Writes more t t' := by
  obtain ⟨w, same, mem⟩ := writes
  exact ⟨w, same, fun x hx => sub (mem x hx)⟩

theorem filterOthers {regs : List (BitVec 32)} {reg : BitVec 32} {w : Trace}
    (mem : ∀ x ∈ w, x.address ∈ regs) (other : reg ∉ regs) (p : Write → Bool)
    (only : ∀ x, p x → x.address = reg) : w.filter p = [] := by
  rw [List.filter_eq_nil_iff]
  intro x hx yes
  exact other (only x yes ▸ mem x hx)

theorem lastKept {regs : List (BitVec 32)} {reg : BitVec 32} {t t' : Trace}
    (writes : Writes regs t t') (other : reg ∉ regs) : lastWritten reg t' = lastWritten reg t := by
  obtain ⟨w, rfl, mem⟩ := writes
  have none := filterOthers mem other (fun x => x.address = reg) (fun x yes => by simpa using yes)
  rw [lastWritten, List.filter_append, none, List.append_nil]
  rfl

theorem clockedKept {regs : List (BitVec 32)} {reg : BitVec 32} {t t' : Trace}
    (writes : Writes regs t t') (other : reg ∉ regs) (clock : Nat) :
    clockedIn reg clock t' = clockedIn reg clock t := by
  obtain ⟨w, rfl, mem⟩ := writes
  have none := filterOthers mem other (fun x => x.address = reg ∧ x.data.getLsbD clock)
    (fun x yes => by simp at yes; exact yes.1)
  rw [clockedIn, List.filter_append, none, List.append_nil]
  rfl

theorem lastWrite (reg : BitVec 32) (t : Trace) (data : BitVec 32) :
    lastWritten reg (regWrite t reg data) = some data := by
  simp [lastWritten, regWrite, List.filter_append]

theorem clockedWrite (reg : BitVec 32) (clock : Nat) (t : Trace) (data : BitVec 32) :
    clockedIn reg clock (regWrite t reg data) =
      clockedIn reg clock t ++ if data.getLsbD clock then [data] else [] := by
  rw [clockedIn, regWrite, List.filter_append, List.map_append, ← clockedIn]
  congr 1
  cases h : data.getLsbD clock <;> simp [h]

section Setters
variable (read : Trace → BitVec 32 → BitVec 32)

theorem toggleWrites {regs : List (BitVec 32)} (mem : mtcControlReg ∈ regs) (t : Trace)
    (bits : BitVec 32) : Writes regs t (toggle read t bits) :=
  writesTrans (writesOne mem _ _) (writesOne mem _ _)

theorem loadCountsWrites (reg load : BitVec 32) (unit : Nat) (t : Trace) (width : BitVec 16) :
    Writes [reg,mtcControlReg] t (loadCounts read reg load unit t width).2 := by
  unfold loadCounts
  split
  · exact writesNothing _ t
  · exact writesTrans (writesOne (by simp) _ _) (toggleWrites read (by simp) _ _)

theorem setFineDelayWrites (slope : ℚ) (t : Trace) (delay : ℚ) :
    Writes [mtcFineDelayReg,mtcControlReg] t (setFineDelay read slope t delay) := by
  unfold setFineDelay
  simp only
  split
  · exact writesNothing _ t
  · exact writesTrans (writesOne (by simp) _ _) (toggleWrites read (by simp) _ _)

theorem setPrescaleWrites (t : Trace) (scale : BitVec 16) :
    Writes [mtcScaleReg,mtcControlReg] t (setPrescale read t scale).2 := by
  unfold setPrescale
  split
  · exact writesNothing _ t
  · exact writesTrans (writesOne (by simp) _ _) (toggleWrites read (by simp) _ _)

theorem shiftOutWrites {regs : List (BitVec 32)} (mem : mtcSerialReg ∈ regs)
    (clock value : BitVec 32) (j : Nat) (t : Trace) :
    Writes regs t (shiftOut read clock value j t) := by
  induction j generalizing t with
  | zero => exact writesNothing _ t
  | succ j ih => exact writesTrans (writesTrans (writesOne mem _ _) (writesOne mem _ _)) (ih _)

theorem setGTCounterWrites (t : Trace) (count : BitVec 32) :
    Writes [mtcSerialReg,mtcControlReg] t (setGTCounter read t count) :=
  writesTrans (shiftOutWrites read (by simp) _ _ _ _) (toggleWrites read (by simp) _ _)

theorem loadPulserWrites (t : Trace) (value : BitVec 32) :
    Writes [mtcSerialReg,mtcControlReg] t (loadPulser read t value) :=
  writesTrans (shiftOutWrites read (by simp) _ _ _ _) (toggleWrites read (by simp) _ _)

theorem setPulserWrites (t : Trace) (freq : ℚ) :
    Writes [mtcSerialReg,mtcControlReg] t (setPulserFrequency read t freq).2 := by
  unfold setPulserFrequency
  split
  · exact loadPulserWrites read t 0
  · simp only
    split
    · exact writesNothing _ t
    · exact loadPulserWrites read t _

theorem resetMemoryWrites (t : Trace) :
    Writes [mtcControlReg,mtcBbaReg] t (resetMemory read t) :=
  writesTrans (toggleWrites read (by simp) _ _) (writesOne (by simp) _ _)

end Setters

def bitsOf {w : Nat} (value : BitVec w) : Nat → List Bool
  | 0 => []
  | j+1 => value.getLsbD j::bitsOf value j

theorem bitsLength {w : Nat} (value : BitVec w) (n : Nat) : (bitsOf value n).length = n := by
  induction n with
  | zero => rfl
  | succ n ih => rw [bitsOf, List.length_cons, ih]

theorem foldBits {w : Nat} (value : BitVec w) (n start : Nat) :
    (bitsOf value n).foldl (fun value bit => 2*value + bit.toNat) start =
      start*2^n + value.toNat % 2^n := by
  induction n generalizing start with
  | zero => simp [bitsOf, Nat.mod_one]
  | succ n ih =>
    rw [bitsOf, List.foldl_cons, ih, Nat.mod_pow_succ, ← BitVec.testBit_toNat, Nat.toNat_testBit]
    ring

theorem numberBits {w : Nat} (value : BitVec w) (n : Nat) :
    number (bitsOf value n) = value.toNat % 2^n := by
  rw [number, foldBits, Nat.zero_mul, Nat.zero_add]

theorem shiftedBits {w n : Nat} {value : BitVec w} (small : value.toNat < 2^n) (earlier : List Bool) :
    Shifted n value.toNat (earlier ++ bitsOf value n) :=
  ⟨earlier, bitsOf value n, rfl, bitsLength value n, by rw [numberBits, Nat.mod_eq_of_lt small]⟩

theorem shiftOutBits {read : Trace → BitVec 32 → BitVec 32} (back : ReadsBack read mtcSerialReg)
    (value : BitVec 32) (j : Nat) (t : Trace) :
    pulserBits (shiftOut read shftClkPs value j t) = pulserBits t ++ bitsOf value j := by
  induction j generalizing t with
  | zero => simp [shiftOut, bitsOf]
  | succ j ih =>
    rw [shiftOut, ih]
    simp only [setBits, back _ _, pulserBits, clockedWrite, bitsOf]
    cases value.getLsbD j <;> simp [sen, serDat, shftClkPs]

theorem shiftValueOther (rawDacs : Fin 14 → BitVec 16) (bi : Nat) (list : List (Fin 14))
    (value : BitVec 32) {k : Nat} (h : k < 32) (other : ∀ di ∈ list, di.val ≠ k) :
    (list.foldl (fun value di => if (rawDacs di).getLsbD bi then value ||| (1#32 <<< di.val)
      else value &&& ~~~(1#32 <<< di.val)) value).getLsbD k = value.getLsbD k := by
  induction list generalizing value with
  | nil => rfl
  | cons d list ih =>
    have rest := fun di mem => other di (List.mem_cons_of_mem d mem)
    rw [List.foldl_cons, ih _ rest, writtenBit _ _ _ h, if_neg (other d List.mem_cons_self).symm]

theorem shiftValueAt (rawDacs : Fin 14 → BitVec 16) (bi : Nat) (list : List (Fin 14))
    (distinct : list.Nodup) (value : BitVec 32) {di : Fin 14} (mem : di ∈ list) :
    (list.foldl (fun value di => if (rawDacs di).getLsbD bi then value ||| (1#32 <<< di.val)
      else value &&& ~~~(1#32 <<< di.val)) value).getLsbD di = (rawDacs di).getLsbD bi := by
  induction list generalizing value with
  | nil => simp at mem
  | cons d list ih =>
    obtain ⟨fresh, distinct⟩ := List.nodup_cons.mp distinct
    rw [List.foldl_cons]
    rcases List.mem_cons.mp mem with rfl | mem
    · rw [shiftValueOther rawDacs bi list _ (by omega)
        fun other mem' same => fresh ((Fin.ext same : other = di) ▸ mem'), writtenBit _ _ _ (by omega), if_pos rfl]
    · exact ih distinct _ mem

theorem controlBits : ∀ di : Fin 14, dacSel.getLsbD di = false ∧ dacClk.getLsbD di = false := by
  decide

theorem shiftDacsBits (rawDacs : Fin 14 → BitVec 16) (di : Fin 14) (n : Nat) (value : BitVec 32)
    (t : Trace) (low : value.getLsbD 15 = false) :
    dacBits di (shiftDacs rawDacs n value t) = dacBits di t ++ bitsOf (rawDacs di) n := by
  induction n generalizing value t with
  | zero => simp [shiftDacs, bitsOf]
  | succ n ih =>
    have low' : (shiftValue rawDacs n value).getLsbD 15 = false := by
      rw [shiftValue, shiftValueOther _ _ _ _ (by decide) (fun d _ => by omega), low]
    have bit : (shiftValue rawDacs n value).getLsbD di = (rawDacs di).getLsbD n :=
      shiftValueAt rawDacs n _ (List.nodup_finRange 14) value (List.mem_finRange di)
    obtain ⟨sel, clk⟩ := controlBits di
    have sel' : dacSel.getLsbD 15 = false := by decide
    have clk' : dacClk.getLsbD 15 = true := by decide
    rw [shiftDacs, ih _ _ low']
    simp only [dacBits, dacWrite, clockedWrite, bitsOf, BitVec.getLsbD_or, low', sel', clk',
      Bool.or_false, Bool.or_true, Bool.false_eq_true, if_false, if_true, List.append_nil,
      List.map_append, List.map_cons, List.map_nil, List.append_assoc, List.singleton_append,
      bit, sel, clk]

theorem rawDac (threshold : BitVec 16) :
    toUInt 16 (2048/5000*((threshold.toNat : ℚ)/2048*5000 - 5000) + 2048) = threshold := by
  have same : (2048/5000*((threshold.toNat : ℚ)/2048*5000 - 5000) + 2048 : ℚ) = threshold.toNat := by
    ring
  rw [same, toUIntOf]

theorem dacsLoaded (threshold : Fin 14 → BitVec 16) {di : Fin 14}
    (small : (threshold di).toNat < 4096) (t : Trace) :
    Shifted 12 (threshold di).toNat (dacBits di (loadMTCADacs t fun i =>
      ((threshold i).toNat : ℚ)/2048*5000 - 5000)) := by
  have last (t : Trace) : dacBits di (dacWrite t 0x0) = dacBits di t := by
    simp [dacBits, dacWrite, clockedWrite]
  unfold loadMTCADacs loadMTCADacsByCounts
  simp only [rawDac]
  rw [last, shiftDacsBits _ _ _ _ _ (by decide)]
  exact shiftedBits small _

theorem widthOfNat {unit : Nat} (small : unit ≤ 257) (recorded : BitVec 16) :
    (widthOf unit recorded).toNat = (255 - recorded.toNat % 256)*unit := by
  have low : (~~~recorded &&& 0xff#16).toNat = 255 - recorded.toNat % 256 := by
    have mask := Nat.and_two_pow_sub_one_eq_mod (~~~recorded).toNat 8
    have word := recorded.isLt
    rw [BitVec.toNat_and, show (0xff#16).toNat = 2^8 - 1 from rfl, mask, BitVec.toNat_not]
    omega
  have bound : (255 - recorded.toNat % 256)*unit ≤ 255*257 := Nat.mul_le_mul (by omega) small
  rw [widthOf, low, BitVec.toNat_ofNat, Nat.mod_eq_of_lt (by omega)]

theorem complementLow {n : Nat} (small : n ≤ 255) : (~~~BitVec.ofNat 32 n).toNat % 2^8 = 255 - n := by
  rw [BitVec.toNat_not, BitVec.toNat_ofNat]
  omega

section Setters
variable (read : Trace → BitVec 32 → BitVec 32)

theorem loadCountsLow {reg : BitVec 32} (other : reg ∉ [mtcControlReg]) (load : BitVec 32)
    {unit : Nat} (positive : 0 < unit) (small : unit ≤ 257) (t : Trace) (recorded : BitVec 16) :
    (loadCounts read reg load unit t (widthOf unit recorded)).1 = -1 ∨
      LowBits 8 reg recorded.toNat (loadCounts read reg load unit t (widthOf unit recorded)).2 := by
  unfold loadCounts
  split
  · exact Or.inl rfl
  · right
    refine ⟨_, (lastKept (toggleWrites read List.mem_cons_self _ _) other).trans (lastWrite reg t _), ?_⟩
    rw [widthOfNat small, Nat.mul_div_cancel _ positive, complementLow (by omega)]
    omega

theorem prescaleLow (t : Trace) (recorded : BitVec 16) :
    (setPrescale read t (~~~recorded + 1)).1 = -1 ∨
      LowBits 16 mtcScaleReg recorded.toNat (setPrescale read t (~~~recorded + 1)).2 := by
  unfold setPrescale
  split
  · exact Or.inl rfl
  · right
    rename_i scale
    have other : mtcScaleReg ∉ [mtcControlReg] := by decide
    refine ⟨_, (lastKept (toggleWrites read List.mem_cons_self _ _) other).trans
      (lastWrite mtcScaleReg t _), ?_⟩
    have word := recorded.isLt
    have value : (~~~recorded + 1).toNat = (65535 - recorded.toNat + 1) % 65536 := by
      rw [BitVec.toNat_add, BitVec.toNat_not]
      rfl
    rw [BitVec.toNat_not, BitVec.toNat_ofNat]
    omega

theorem pulserLoaded {read : Trace → BitVec 32 → BitVec 32} (back : ReadsBack read mtcSerialReg)
    {period : BitVec 32} (small : period.toNat < 2^24) (t : Trace) :
    (setPulserFrequency read t (781250/((period.toNat : ℚ) + 1))).1 = -1 ∨
      Shifted 24 period.toNat
        (pulserBits (setPulserFrequency read t (781250/((period.toNat : ℚ) + 1))).2) := by
  have positive : (0 : ℚ) < period.toNat + 1 := by positivity
  have value : (781250/(781250/((period.toNat : ℚ) + 1)) - 1 : ℚ) = period.toNat := by
    field_simp
    ring
  have fast : ¬ (781250/((period.toNat : ℚ) + 1) ≤ 1/1000 : Prop) := by
    have below : (period.toNat : ℚ) < 2^24 := by exact_mod_cast small
    rw [not_le, lt_div_iff₀ positive]
    linarith
  unfold setPulserFrequency
  rw [if_neg fast, value]
  simp only [toUIntOf]
  split
  · exact Or.inl rfl
  · right
    have kept := clockedKept (toggleWrites read List.mem_cons_self (shiftOut read shftClkPs period 24 t)
      loadEnPs) (by decide : mtcSerialReg ∉ [mtcControlReg]) 5
    have bits := shiftOutBits back period 24 t
    rw [loadPulser, pulserBits, kept, ← pulserBits, bits]
    exact shiftedBits small _

end Setters

theorem writesThen {one two regs : List (BitVec 32)} {a b c : Trace} (first : Writes one a b)
    (second : Writes two b c) (sub : one ⊆ regs) (sub' : two ⊆ regs) : Writes regs a c :=
  writesTrans (writesMore sub first) (writesMore sub' second)

theorem lowKept {regs : List (BitVec 32)} {reg : BitVec 32} {a b : Trace} {n value : Nat} {result : Int}
    (writes : Writes regs a b) (other : reg ∉ regs) (loaded : result = -1 ∨ LowBits n reg value a) :
    result = -1 ∨ LowBits n reg value b := by
  rcases loaded with refused | ⟨data, last, low⟩
  · exact Or.inl refused
  · exact Or.inr ⟨data, (lastKept writes other).trans last, low⟩

/- What is in the hardware when `MTCInit` is through: a setter has refused its value,
or the registers have the bits of the record. -/
structure Loaded (mtcdb : MTCRecord) (done : Done) : Prop where
  lockout : done.lockout = -1 ∨ LowBits 8 mtcGtLockReg mtcdb.lockoutWidth.toNat done.trace
  prescale : done.prescale = -1 ∨ LowBits 16 mtcScaleReg mtcdb.nhit100LoPrescale.toNat done.trace
  pulser : done.pulser = -1 ∨ Shifted 24 mtcdb.pulserPeriod.toNat (pulserBits done.trace)
  pedestal : done.pedestal = -1 ∨ LowBits 8 mtcPedWidthReg mtcdb.pedestalWidth.toNat done.trace
  coarse : done.coarse = -1 ∨ LowBits 8 mtcCoarseDelayReg mtcdb.coarseDelay.toNat done.trace
  dacs : ∀ di, Shifted 12 (mtcdb.threshold di).toNat (dacBits di done.trace)
  counted : done.result = done.lockout + done.prescale + done.pulser + done.pedestal + done.coarse

theorem recordLoaded {read : Trace → BitVec 32 → BitVec 32} (back : ReadsBack read mtcSerialReg)
    (fAddelSlope : ℚ) (mtcdb : MTCRecord) (period : mtcdb.pulserPeriod.toNat < 2^24)
    (thresholds : ∀ di, (mtcdb.threshold di).toNat < 4096) (t : Trace) :
    Loaded mtcdb (mtcInit read fAddelSlope mtcdb t) := by
  unfold mtcInit
  extract_lets unmasked t2 t3 dacs t5 lockout counter prescale pulser pedestal coarse fine final
  have afterCoarse : Writes [mtcFineDelayReg,mtcControlReg,mtcBbaReg] coarse.2 final :=
    writesThen (setFineDelayWrites read fAddelSlope coarse.2 _) (resetMemoryWrites read fine)
      (by decide) (by decide)
  have afterPedestal : Writes [mtcCoarseDelayReg,mtcFineDelayReg,mtcControlReg,mtcBbaReg]
      pedestal.2 final :=
    writesThen (loadCountsWrites read mtcCoarseDelayReg _ _ pedestal.2 _) afterCoarse
      (by decide) (by decide)
  have afterPulser : Writes [mtcPedWidthReg,mtcCoarseDelayReg,mtcFineDelayReg,mtcControlReg,mtcBbaReg]
      pulser.2 final :=
    writesThen (loadCountsWrites read mtcPedWidthReg _ _ pulser.2 _) afterPedestal
      (by decide) (by decide)
  have afterPrescale : Writes [mtcSerialReg,mtcPedWidthReg,mtcCoarseDelayReg,mtcFineDelayReg,
      mtcControlReg,mtcBbaReg] prescale.2 final :=
    writesThen (setPulserWrites read prescale.2 _) afterPulser (by decide) (by decide)
  have afterCounter : Writes [mtcScaleReg,mtcSerialReg,mtcPedWidthReg,mtcCoarseDelayReg,
      mtcFineDelayReg,mtcControlReg,mtcBbaReg] counter final :=
    writesThen (setPrescaleWrites read counter _) afterPrescale (by decide) (by decide)
  have afterLockout : Writes [mtcScaleReg,mtcSerialReg,mtcPedWidthReg,mtcCoarseDelayReg,
      mtcFineDelayReg,mtcControlReg,mtcBbaReg] lockout.2 final :=
    writesThen (setGTCounterWrites read lockout.2 0) afterCounter (by decide) (by decide)
  have cleared : Writes [mtcControlReg] dacs t5 := writesOne List.mem_cons_self dacs _
  have afterDacs : Writes [mtcGtLockReg,mtcScaleReg,mtcSerialReg,mtcPedWidthReg,mtcCoarseDelayReg,
      mtcFineDelayReg,mtcControlReg,mtcBbaReg] dacs final :=
    writesThen cleared (writesThen (loadCountsWrites read mtcGtLockReg _ _ t5 _) afterLockout
      (by decide) (List.subset_cons_self _ _)) (by decide) (List.Subset.refl _)
  have lock := loadCountsLow read (by decide : mtcGtLockReg ∉ [mtcControlReg]) loadEnLk
    (by decide) (by decide : 20 ≤ 257) t5 mtcdb.lockoutWidth
  have width := loadCountsLow read (by decide : mtcPedWidthReg ∉ [mtcControlReg]) loadEnPw
    (by decide) (by decide : 5 ≤ 257) pulser.2 mtcdb.pedestalWidth
  have delay := loadCountsLow read (by decide : mtcCoarseDelayReg ∉ [mtcControlReg]) loadEnPw
    (by decide) (by decide : 10 ≤ 257) pedestal.2 mtcdb.coarseDelay
  refine ⟨lowKept afterLockout (by decide) lock,
    lowKept afterPrescale (by decide) (prescaleLow read counter mtcdb.nhit100LoPrescale), ?_,
    lowKept afterPedestal (by decide) width, lowKept afterCoarse (by decide) delay, fun di => ?_, rfl⟩
  · have kept := clockedKept afterPulser (by decide : mtcSerialReg ∉ _) 5
    have loaded := pulserLoaded back period prescale.2
    simp only [pulserBits, kept]
    exact loaded
  · have kept := clockedKept afterDacs (by decide : mtcDacCntReg ∉ _) 15
    simp only [dacBits, kept]
    exact dacsLoaded mtcdb.threshold (thresholds di) t3

def readLast (t : Trace) (reg : BitVec 32) : BitVec 32 := (lastWritten reg t).getD 0

def sampleRecord (lockoutWidth : BitVec 16) : MTCRecord where
  lockoutWidth := lockoutWidth
  pedestalWidth := 250
  nhit100LoPrescale := 0xfff0
  pulserPeriod := 781249
  fineSlope := 1/10
  coarseDelay := 240
  fineDelay := 3
  threshold := fun di => BitVec.ofNat 16 (2000+di)

theorem readLastBack (reg : BitVec 32) : ReadsBack readLast reg :=
  fun t data => by rw [readLast, lastWrite, Option.getD_some]

theorem sampleLoaded : Loaded (sampleRecord 235) (mtcInit readLast (1/10) (sampleRecord 235) []) :=
  recordLoaded (readLastBack _) _ _ (by decide) (by decide) []

/- A lockout width of 256 is not refused and loads a register whose low bits are 0. -/
theorem wideLockoutCut :
    (mtcInit readLast (1/10) (sampleRecord 256) []).lockout = 0 ∧
      ¬ ∃ data, lastWritten mtcGtLockReg (mtcInit readLast (1/10) (sampleRecord 256) []).trace =
        some data ∧ data.toNat % 2^8 = (sampleRecord 256).lockoutWidth.toNat := by
  have last : lastWritten mtcGtLockReg (mtcInit readLast (1/10) (sampleRecord 256) []).trace =
      some 0xFFFFFF00 := by decide +kernel
  refine ⟨by decide +kernel, ?_⟩
  rintro ⟨data, written, same⟩
  obtain rfl := Option.some.inj (last.symm.trans written)
  exact absurd same (by decide)

end PennDaq.MTCInit
