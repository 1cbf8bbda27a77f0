import PennDaq.MTCDelays
import PennDaq.MTCWaveforms

/-! `MTCModel::SetupPedestals`: what is loaded when it returns 0, and what is left as it
was when it returns -1. The frequencies and the slope, `float` in the source, are exact
rationals here. -/
namespace PennDaq.MTCPedestals
open Lib.CNumber
open MTCInit
open MTCDelays (held heldWrite heldKept)

def pedEn : BitVec 32 := 0x00000001
def pulseEn : BitVec 32 := 0x00000002

def defaultGTMask : BitVec 32 := 0x00400000

def defaultLockoutWidth : BitVec 16 := 400

structure Setup where
  pulserFreq : ℚ
  pedWidth : BitVec 32
  coarseDelay : BitVec 32
  fineDelay : BitVec 32
  pedCrateMask : BitVec 32
  gtCrateMask : BitVec 32

def andThen (done : Int × Trace) (setter : Trace → Int × Trace) : Int × Trace :=
  if done.1 = 0 then (done.1 + (setter done.2).1,(setter done.2).2) else done

section Calls
variable (read : Trace → BitVec 32 → BitVec 32) (pennTeststand : Bool) (fAddelSlope : ℚ)

/- `SetPedCrateMask` and `SetGTCrateMask` of a register; at the Penn teststand all crates
are set. -/
def setCrateMask (reg : BitVec 32) (t : Trace) (crates : BitVec 32) : Trace :=
  setBits read t reg (if pennTeststand then maskAll else crates)

def loadSetup (args : Setup) (t : Trace) : Int × Trace :=
  let done := andThen (0,t) fun t => setLockoutWidth read t defaultLockoutWidth
  let done := andThen done fun t => setPulserFrequency read t args.pulserFreq
  let done := andThen done fun t => setPedestalWidth read t (args.pedWidth.setWidth 16)
  andThen done fun t => setCoarseDelay read t (args.coarseDelay.setWidth 16)

def enableSetup (args : Setup) (t : Trace) : Trace :=
  let t := setBits read t mtcControlReg pulseEn
  let t := setBits read t mtcControlReg pedEn
  let t := clearBits read t mtcPmskReg maskAll
  let t := clearBits read t mtcGmskReg maskAll
  let t := setCrateMask read pennTeststand mtcPmskReg t args.pedCrateMask
  let t := setCrateMask read pennTeststand mtcGmskReg t args.gtCrateMask
  setBits read t mtcMaskReg defaultGTMask

/- What `SetFineDelay` returns is not looked at. -/
def setupPedestals (args : Setup) (t : Trace) : Int × Trace :=
  let done := loadSetup read args t
  if done.1 ≠ 0 then (-1,done.2)
  else (0,enableSetup read pennTeststand args
    (MTCDelays.setFineDelay read fAddelSlope done.2 args.fineDelay.toNat).2)

end Calls

def divider (freq : ℚ) : ℕ := if freq ≤ 1/1000 then 0 else ⌊781250/freq - 1⌋.toNat

def PulserInRange (freq : ℚ) : Prop := freq ≤ 1/1000 ∨ 1 ≤ divider freq ∧ divider freq ≤ 167772216

abbrev CountsInRange (unit width : ℕ) : Prop := unit ≤ width ∧ width ≤ 255*unit

def FineInRange (fAddelSlope : ℚ) (fineDelay : BitVec 32) : Prop :=
  0 ≤ truncate (fineDelay.toNat/fAddelSlope) ∧ truncate (fineDelay.toNat/fAddelSlope) ≤ 255

structure LoadedAsRequested (fAddelSlope : ℚ) (args : Setup) (t : Trace) : Prop where
  pulser : PulserInRange args.pulserFreq ∧ Shifted 24 (divider args.pulserFreq) (pulserBits t)
  pedestal : CountsInRange 5 args.pedWidth.toNat ∧
    LowBits 8 mtcPedWidthReg (255 - args.pedWidth.toNat/5) t
  coarse : CountsInRange 10 args.coarseDelay.toNat ∧
    LowBits 8 mtcCoarseDelayReg (255 - args.coarseDelay.toNat/10) t
  fine : FineInRange fAddelSlope args.fineDelay ∧ ∃ data, lastWritten mtcFineDelayReg t = some data ∧
    (data.toNat : ℤ) = truncate (args.fineDelay.toNat/fAddelSlope)

structure LeftAlone (before : BitVec 32 → BitVec 32) (t t' : Trace) : Prop where
  enables : ∀ k < 2, (held before mtcControlReg t').getLsbD k = (held before mtcControlReg t).getLsbD k
  masks : ∀ reg ∈ [mtcMaskReg,mtcPmskReg,mtcGmskReg], held before reg t' = held before reg t

structure SetupRight (read : Trace → BitVec 32 → BitVec 32) (before : BitVec 32 → BitVec 32) (pennTeststand : Bool)
    (fAddelSlope : ℚ) (args : Setup) (t : Trace) : Prop where
  success : (setupPedestals read pennTeststand fAddelSlope args t).1 = 0 →
    LoadedAsRequested fAddelSlope args (setupPedestals read pennTeststand fAddelSlope args t).2
  failure : (setupPedestals read pennTeststand fAddelSlope args t).1 = -1 →
    LeftAlone before t (setupPedestals read pennTeststand fAddelSlope args t).2

/- The setters see the low 16 bits of the width and the coarse delay. -/
def Accepted (args : Setup) : Prop :=
  PulserInRange args.pulserFreq ∧ CountsInRange 5 (args.pedWidth.toNat % 65536) ∧
    CountsInRange 10 (args.coarseDelay.toNat % 65536)

def FitsRegisters (fAddelSlope : ℚ) (args : Setup) : Prop :=
  divider args.pulserFreq < 2^24 ∧ args.pedWidth.toNat < 65536 ∧ args.coarseDelay.toNat < 65536 ∧
    FineInRange fAddelSlope args.fineDelay

/- A register that nothing else writes to reads back what it holds. -/
def ReadsHeld (read : Trace → BitVec 32 → BitVec 32) (before : BitVec 32 → BitVec 32) (reg : BitVec 32) : Prop :=
  ∀ t, read t reg = held before reg t

theorem readsBack {read : Trace → BitVec 32 → BitVec 32} {before : BitVec 32 → BitVec 32} {reg : BitVec 32}
    (holds : ReadsHeld read before reg) : ReadsBack read reg :=
  fun t data => by rw [holds, heldWrite]

theorem leftAloneRefl (before : BitVec 32 → BitVec 32) (t : Trace) : LeftAlone before t t :=
  ⟨fun _ _ => rfl, fun _ _ => rfl⟩

theorem leftAloneTrans {before : BitVec 32 → BitVec 32} {a b c : Trace} (first : LeftAlone before a b)
    (second : LeftAlone before b c) : LeftAlone before a c :=
  ⟨fun k low => (second.enables k low).trans (first.enables k low),
    fun reg mem => (second.masks reg mem).trans (first.masks reg mem)⟩

def setterRegs : List (BitVec 32) := [mtcGtLockReg,mtcSerialReg,mtcPedWidthReg,mtcCoarseDelayReg]

theorem masksApart {reg : BitVec 32} (mem : reg ∈ [mtcMaskReg,mtcPmskReg,mtcGmskReg]) :
    reg ∉ mtcControlReg::setterRegs := by
  simp only [List.mem_cons, List.not_mem_nil, or_false] at mem
  rcases mem with rfl | rfl | rfl
  · decide
  · decide
  · decide

theorem writesAlone {before : BitVec 32 → BitVec 32} {t t' : Trace} (writes : Writes setterRegs t t') :
    LeftAlone before t t' := by
  have other : mtcControlReg ∉ setterRegs := by decide
  refine ⟨fun k _ => ?_, fun reg mem => ?_⟩
  · rw [heldKept before writes other]
  · exact heldKept before writes fun inside => masksApart mem (List.mem_cons_of_mem _ inside)

theorem thenAlone {before : BitVec 32 → BitVec 32} {t : Trace} {done : Int × Trace}
    {setter : Trace → Int × Trace} (first : LeftAlone before t done.2)
    (next : ∀ t, LeftAlone before t (setter t).2) : LeftAlone before t (andThen done setter).2 := by
  unfold andThen
  split
  · exact leftAloneTrans first (next done.2)
  · exact first

section Hardware
variable {read : Trace → BitVec 32 → BitVec 32} {before : BitVec 32 → BitVec 32}
  (control : ReadsHeld read before mtcControlReg)

include control

theorem toggleAlone {bits : BitVec 32} (high : ∀ k < 2, bits.getLsbD k = false) (t : Trace) :
    LeftAlone before t (toggle read t bits) := by
  have masks : Writes [mtcControlReg] t (toggle read t bits) := toggleWrites read List.mem_cons_self t bits
  refine ⟨fun k low => ?_, fun reg mem => ?_⟩
  · rw [toggle, clearBits, heldWrite, control, setBits, heldWrite, control, BitVec.getLsbD_and,
      BitVec.getLsbD_or, BitVec.getLsbD_not, high k low]
    simp only [Bool.or_false, Bool.not_false, Bool.and_true]
    rw [decide_eq_true (by omega), Bool.and_true]
  · exact heldKept before masks fun inside =>
      masksApart mem (List.mem_singleton.mp inside ▸ List.mem_cons_self)

theorem countsAlone {reg load : BitVec 32} (inside : reg ∈ setterRegs) (high : ∀ k < 2, load.getLsbD k = false)
    (unit : ℕ) (t : Trace) (width : BitVec 16) : LeftAlone before t (loadCounts read reg load unit t width).2 := by
  unfold loadCounts
  split
  · exact leftAloneRefl before t
  · exact leftAloneTrans (writesAlone (writesOne inside t _)) (toggleAlone control high _)

theorem pulserAlone (t : Trace) (freq : ℚ) : LeftAlone before t (setPulserFrequency read t freq).2 := by
  have loaded (value : BitVec 32) : LeftAlone before t (loadPulser read t value) :=
    leftAloneTrans (writesAlone (shiftOutWrites read (by decide) _ _ _ _)) (toggleAlone control (by decide) _)
  unfold setPulserFrequency
  split
  · exact loaded 0
  · simp only
    split
    · exact leftAloneRefl before t
    · exact loaded _

theorem loadAlone (args : Setup) (t : Trace) : LeftAlone before t (loadSetup read args t).2 := by
  have lockout : LeftAlone before t (andThen (0,t) fun t => setLockoutWidth read t defaultLockoutWidth).2 :=
    thenAlone (leftAloneRefl before t) fun t => countsAlone control (by decide) (by decide) 20 t _
  have pulser := thenAlone lockout fun t => pulserAlone control t args.pulserFreq
  have pedestal := thenAlone pulser fun t =>
    countsAlone control (by decide : mtcPedWidthReg ∈ setterRegs) (by decide : ∀ k < 2, loadEnPw.getLsbD k = false)
      5 t (args.pedWidth.setWidth 16)
  exact thenAlone pedestal fun t => countsAlone control (by decide) (by decide) 10 t _

end Hardware

theorem countsAccepted (read : Trace → BitVec 32 → BitVec 32) (reg load : BitVec 32) (unit : ℕ) (t : Trace)
    (width : BitVec 16) : ((loadCounts read reg load unit t width).1 = 0 ↔ CountsInRange unit width.toNat) ∧
      ((loadCounts read reg load unit t width).1 ≠ 0 → (loadCounts read reg load unit t width).1 = -1) := by
  unfold loadCounts CountsInRange
  split
  · exact ⟨iff_of_false (by simp) (by omega), fun _ => rfl⟩
  · exact ⟨iff_of_true rfl (by omega), fun other => absurd rfl other⟩

theorem pulserAccepted (read : Trace → BitVec 32 → BitVec 32) (t : Trace) (freq : ℚ) :
    ((setPulserFrequency read t freq).1 = 0 ↔ PulserInRange freq) ∧
      ((setPulserFrequency read t freq).1 ≠ 0 → (setPulserFrequency read t freq).1 = -1) := by
  unfold setPulserFrequency PulserInRange
  by_cases soft : freq ≤ 1/1000
  · rw [if_pos soft]
    exact ⟨iff_of_true rfl (Or.inl soft), fun other => absurd rfl other⟩
  have value : (toUInt 32 (781250/freq - 1)).toNat = divider freq := by
    rw [divider, if_neg soft, MTCWaveforms.dividerValue (not_le.mp soft)]
  rw [if_neg soft]
  simp only [value, soft, false_or]
  split
  · exact ⟨iff_of_false (by simp) (by omega), fun _ => rfl⟩
  · exact ⟨iff_of_true rfl (by omega), fun other => absurd rfl other⟩

theorem thenZero {done : Int × Trace} {setter : Trace → Int × Trace} :
    (andThen done setter).1 = 0 ↔ done.1 = 0 ∧ (setter done.2).1 = 0 := by
  unfold andThen
  split
  · rename_i zero
    simp [zero]
  · rename_i other
    simp [other]

theorem thenTrace {done : Int × Trace} (zero : done.1 = 0) (setter : Trace → Int × Trace) :
    (andThen done setter).2 = (setter done.2).2 := by
  rw [andThen, if_pos zero]

theorem thenFails {done : Int × Trace} {setter : Trace → Int × Trace} (first : done.1 ≠ 0 → done.1 = -1)
    (next : ∀ t, (setter t).1 ≠ 0 → (setter t).1 = -1) :
    (andThen done setter).1 ≠ 0 → (andThen done setter).1 = -1 := by
  unfold andThen
  split
  · rename_i zero
    rw [zero, zero_add]
    exact next done.2
  · exact first

theorem shiftedIff {w n value : ℕ} (loaded : BitVec w) (earlier : List Bool) :
    Shifted n value (earlier ++ bitsOf loaded n) ↔ loaded.toNat % 2^n = value := by
  constructor
  · rintro ⟨before, last, same, length, number⟩
    obtain ⟨-, rfl⟩ := List.append_inj' same (by rw [bitsLength, length])
    rw [← number, numberBits]
  · rintro rfl
    exact ⟨earlier, bitsOf loaded n, rfl, bitsLength loaded n, numberBits loaded n⟩

section Loaded
variable (read : Trace → BitVec 32 → BitVec 32)

theorem pulserShifted (back : ReadsBack read mtcSerialReg) {freq : ℚ} (range : PulserInRange freq) (t : Trace) :
    Shifted 24 (divider freq) (pulserBits (setPulserFrequency read t freq).2) ↔ divider freq < 2^24 := by
  have bits (value : BitVec 32) : pulserBits (loadPulser read t value) = pulserBits t ++ bitsOf value 24 := by
    have kept := clockedKept (toggleWrites read List.mem_cons_self (shiftOut read shftClkPs value 24 t) loadEnPs)
      (by decide : mtcSerialReg ∉ [mtcControlReg]) 5
    rw [loadPulser, pulserBits, kept, ← pulserBits, shiftOutBits back]
  unfold setPulserFrequency
  by_cases soft : freq ≤ 1/1000
  · rw [if_pos soft, bits, shiftedIff, divider, if_pos soft]
    exact iff_of_true rfl (by decide)
  have value : (toUInt 32 (781250/freq - 1)).toNat = divider freq := by
    rw [divider, if_neg soft, MTCWaveforms.dividerValue (not_le.mp soft)]
  rw [if_neg soft]
  simp only [value]
  obtain ⟨least, most⟩ := range.resolve_left soft
  rw [if_neg (by omega), bits, shiftedIff, value]
  omega

theorem countsLoaded {reg : BitVec 32} (load : BitVec 32) {unit : ℕ} (other : reg ∉ [mtcControlReg])
    {width : BitVec 16} (range : CountsInRange unit width.toNat) (t : Trace) :
    LowBits 8 reg (255 - width.toNat/unit) (loadCounts read reg load unit t width).2 := by
  have small : width.toNat/unit ≤ 255 := Nat.div_le_of_le_mul (by rw [Nat.mul_comm]; exact range.2)
  rw [loadCounts, if_neg (by have := range.1; have := range.2; omega)]
  refine ⟨_, (lastKept (toggleWrites read List.mem_cons_self _ _) other).trans (lastWrite reg t _), ?_⟩
  rw [complementLow small]
  exact (Nat.mod_eq_of_lt (Nat.lt_succ_of_le (Nat.sub_le 255 _))).symm

theorem enableWrites (pennTeststand : Bool) (args : Setup) (t : Trace) :
    Writes [mtcControlReg,mtcPmskReg,mtcGmskReg,mtcMaskReg] t (enableSetup read pennTeststand args t) := by
  have one (reg : BitVec 32) (mem : reg ∈ [mtcControlReg,mtcPmskReg,mtcGmskReg,mtcMaskReg]) (t : Trace)
      (data : BitVec 32) := writesOne mem t data
  refine writesTrans (writesTrans (writesTrans (writesTrans (writesTrans (writesTrans (one mtcControlReg ?_ _ _)
    (one mtcControlReg ?_ _ _)) (one mtcPmskReg ?_ _ _)) (one mtcGmskReg ?_ _ _)) (one mtcPmskReg ?_ _ _))
    (one mtcGmskReg ?_ _ _)) (one mtcMaskReg ?_ _ _) <;> simp

structure Stages (args : Setup) (start one two three final : Trace) : Prop where
  lockout : one = (setLockoutWidth read start defaultLockoutWidth).2
  pulser : two = (setPulserFrequency read one args.pulserFreq).2
  pedestal : three = (setPedestalWidth read two (args.pedWidth.setWidth 16)).2
  coarse : final = (setCoarseDelay read three (args.coarseDelay.setWidth 16)).2

theorem loadAccepted (args : Setup) (t : Trace) :
    ((loadSetup read args t).1 = 0 ↔ Accepted args) ∧
      ((loadSetup read args t).1 ≠ 0 → (loadSetup read args t).1 = -1) ∧
      (Accepted args → ∃ one two three, Stages read args t one two three (loadSetup read args t).2) := by
  have lockout : (andThen (0,t) fun t => setLockoutWidth read t defaultLockoutWidth).1 = 0 := by
    rw [thenZero]
    exact ⟨rfl, (countsAccepted read mtcGtLockReg loadEnLk 20 t defaultLockoutWidth).1.mpr (by decide)⟩
  have low (width : BitVec 32) : (width.setWidth 16).toNat = width.toNat % 65536 := BitVec.toNat_setWidth 16 width
  have zero : (loadSetup read args t).1 = 0 ↔ Accepted args := by
    unfold loadSetup Accepted
    simp only
    rw [thenZero, thenZero, thenZero, (pulserAccepted read _ _).1, setPedestalWidth, (countsAccepted read _ _ _ _ _).1,
      setCoarseDelay, (countsAccepted read _ _ _ _ _).1, low, low]
    simp only [lockout, true_and, and_assoc]
  refine ⟨zero, ?_, fun accepted => ?_⟩
  · refine thenFails (thenFails (thenFails (fun other => absurd lockout other) fun t => ?_) fun t => ?_) fun t => ?_
    · exact (pulserAccepted read t args.pulserFreq).2
    · exact (countsAccepted read _ _ _ t _).2
    · exact (countsAccepted read _ _ _ t _).2
  · obtain ⟨three, -⟩ := thenZero.mp (zero.mpr accepted)
    obtain ⟨two, -⟩ := thenZero.mp three
    exact ⟨_, _, _, thenTrace (rfl : ((0 : Int),t).1 = 0) _, thenTrace lockout _, thenTrace two _, thenTrace three _⟩

theorem lowStays {regs : List (BitVec 32)} {reg : BitVec 32} {n value : ℕ} {t t' : Trace} (writes : Writes regs t t')
    (other : reg ∉ regs) (low : LowBits n reg value t) : LowBits n reg value t' := by
  obtain ⟨data, last, same⟩ := low
  exact ⟨data, (lastKept writes other).trans last, same⟩

theorem fineLoaded {fAddelSlope : ℚ} {fineDelay : BitVec 32} (range : FineInRange fAddelSlope fineDelay) (t : Trace) :
    ∃ data, lastWritten mtcFineDelayReg (MTCDelays.setFineDelay read fAddelSlope t fineDelay.toNat).2 = some data ∧
      (data.toNat : ℤ) = truncate (fineDelay.toNat/fAddelSlope) := by
  have value := toUIntValue 32 (fineDelay.toNat/fAddelSlope)
  rw [← MTCDelays.addelValue] at value
  obtain ⟨least, most⟩ := range
  refine ⟨MTCDelays.addelValue fAddelSlope fineDelay.toNat, ?_, by omega⟩
  rw [MTCDelays.setFineDelay, if_neg (by omega)]
  exact (lastKept (toggleWrites read List.mem_cons_self _ _) (by decide : mtcFineDelayReg ∉ [mtcControlReg])).trans
    (lastWrite mtcFineDelayReg t _)

theorem loadedIff (back : ReadsBack read mtcSerialReg) (pennTeststand : Bool) (fAddelSlope : ℚ) {args : Setup}
    (accepted : Accepted args) (t : Trace) :
    LoadedAsRequested fAddelSlope args (enableSetup read pennTeststand args
      (MTCDelays.setFineDelay read fAddelSlope (loadSetup read args t).2 args.fineDelay.toNat).2) ↔
      FitsRegisters fAddelSlope args := by
  obtain ⟨one, two, three, stages⟩ := (loadAccepted read args t).2.2 accepted
  generalize (loadSetup read args t).2 = four at stages
  obtain ⟨range, width, delay⟩ := accepted
  have fine := MTCDelays.setFineDelayWrites read fAddelSlope four args.fineDelay.toNat
  have enables := enableWrites read pennTeststand args
    (MTCDelays.setFineDelay read fAddelSlope four args.fineDelay.toNat).2
  -- What each setter has loaded has to outlast the setters behind it and the enables.
  have afterCoarse : Writes [mtcFineDelayReg,mtcControlReg,mtcPmskReg,mtcGmskReg,mtcMaskReg] four _ :=
    writesThen fine enables (by decide) (by decide)
  have afterPedestal : Writes [mtcCoarseDelayReg,mtcFineDelayReg,mtcControlReg,mtcPmskReg,mtcGmskReg,mtcMaskReg]
      three _ :=
    writesThen (stages.coarse ▸ loadCountsWrites read mtcCoarseDelayReg loadEnPw 10 three _) afterCoarse
      (by decide) (by decide)
  have afterPulser : Writes [mtcPedWidthReg,mtcCoarseDelayReg,mtcFineDelayReg,mtcControlReg,mtcPmskReg,mtcGmskReg,
      mtcMaskReg] two _ :=
    writesThen (stages.pedestal ▸ loadCountsWrites read mtcPedWidthReg loadEnPw 5 two _) afterPedestal
      (by decide) (by decide)
  have bits := clockedKept afterPulser (by decide : mtcSerialReg ∉ _) 5
  have shifted := pulserShifted read back range one
  rw [← stages.pulser, pulserBits, ← bits, ← pulserBits] at shifted
  constructor
  · intro loaded
    have small := loaded.pedestal.1.2
    have short := loaded.coarse.1.2
    exact ⟨shifted.mp loaded.pulser.2, by omega, by omega, loaded.fine.1⟩
  · rintro ⟨value, small, short, counts⟩
    have whole : (args.pedWidth.setWidth 16).toNat = args.pedWidth.toNat := by
      rw [BitVec.toNat_setWidth, Nat.mod_eq_of_lt small]
    have whole' : (args.coarseDelay.setWidth 16).toNat = args.coarseDelay.toNat := by
      rw [BitVec.toNat_setWidth, Nat.mod_eq_of_lt short]
    rw [Nat.mod_eq_of_lt small] at width
    rw [Nat.mod_eq_of_lt short] at delay
    have pedestal := countsLoaded read loadEnPw (by decide : mtcPedWidthReg ∉ [mtcControlReg])
      (whole.symm ▸ width) two
    have coarse := countsLoaded read loadEnPw (by decide : mtcCoarseDelayReg ∉ [mtcControlReg])
      (whole'.symm ▸ delay) three
    obtain ⟨data, last, same⟩ := fineLoaded read counts four
    refine ⟨⟨range, shifted.mpr value⟩, ⟨width, ?_⟩, ⟨delay, ?_⟩, ⟨counts, data, ?_, same⟩⟩
    · rw [whole, ← setPedestalWidth, ← stages.pedestal] at pedestal
      exact lowStays afterPedestal (by decide) pedestal
    · rw [whole', ← setCoarseDelay, ← stages.coarse] at coarse
      exact lowStays afterCoarse (by decide) coarse
    · exact (lastKept enables (by decide)).trans last

end Loaded

theorem setupReturns (read : Trace → BitVec 32 → BitVec 32) (pennTeststand : Bool) (fAddelSlope : ℚ) (args : Setup)
    (t : Trace) : (Accepted args → setupPedestals read pennTeststand fAddelSlope args t =
        (0,enableSetup read pennTeststand args
          (MTCDelays.setFineDelay read fAddelSlope (loadSetup read args t).2 args.fineDelay.toNat).2)) ∧
      (¬ Accepted args → setupPedestals read pennTeststand fAddelSlope args t = (-1,(loadSetup read args t).2)) := by
  have zero := (loadAccepted read args t).1
  unfold setupPedestals
  refine ⟨fun accepted => ?_, fun refused => ?_⟩
  · simp only
    rw [if_neg (not_not.mpr (zero.mpr accepted))]
  · simp only
    rw [if_pos fun none' => refused (zero.mp none')]

/- The control and the serial register read back what they hold. -/
theorem setupExact {read : Trace → BitVec 32 → BitVec 32} {before : BitVec 32 → BitVec 32}
    (control : ReadsHeld read before mtcControlReg) (serial : ReadsHeld read before mtcSerialReg)
    (pennTeststand : Bool) (fAddelSlope : ℚ) (args : Setup) (t : Trace) :
    SetupRight read before pennTeststand fAddelSlope args t ↔ ¬ Accepted args ∨ FitsRegisters fAddelSlope args := by
  obtain ⟨returns, fails⟩ := setupReturns read pennTeststand fAddelSlope args t
  by_cases accepted : Accepted args
  · have loaded := loadedIff read (readsBack serial) pennTeststand fAddelSlope accepted t
    have result := returns accepted
    constructor
    · intro right
      have success := right.success (by rw [result])
      rw [result] at success
      exact Or.inr (loaded.mp success)
    · intro either
      have fits := either.resolve_left (not_not.mpr accepted)
      refine ⟨fun _ => ?_, fun failed => ?_⟩
      · rw [result]
        exact loaded.mpr fits
      · rw [result] at failed
        exact absurd failed (by simp)
  · have result := fails accepted
    refine iff_of_true ⟨fun zero => ?_, fun _ => ?_⟩ (Or.inl accepted)
    · rw [result] at zero
      exact absurd zero (by simp)
    · rw [result]
      exact loadAlone control args t

def softSetup (fineDelay : BitVec 32) : Setup := ⟨0, 60, 100, fineDelay, 1, 1⟩

theorem readLastHeld (reg : BitVec 32) : ReadsHeld readLast (fun _ => 0) reg := fun _ => rfl

theorem setupExactSoft : SetupRight readLast (fun _ => 0) false (1/10) (softSetup 5) [] := by
  have counts : ((5 : BitVec 32).toNat : ℚ)/(1/10) = (50 : ℤ) := by
    change ((5 : ℕ) : ℚ)/(1/10) = (50 : ℤ)
    norm_num
  refine (setupExact (readLastHeld _) (readLastHeld _) false (1/10) (softSetup 5) []).mpr (Or.inr ⟨?_, ?_, ?_, ?_⟩)
  · change divider 0 < _
    rw [divider, if_pos (by norm_num)]
    decide
  · decide
  · decide
  · change FineInRange (1/10) 5
    rw [FineInRange, counts, truncateInt]
    decide

/- A fine delay of 10000 counts is refused, and 0 is returned. -/
theorem fineDelayDropped : (setupPedestals readLast false (1/10) (softSetup 1000) []).1 = 0 ∧
    ¬ SetupRight readLast (fun _ => 0) false (1/10) (softSetup 1000) [] := by
  have accepted : (setupPedestals readLast false (1/10) (softSetup 1000) []).1 = 0 := by decide +kernel
  have counts : ((1000#32).toNat : ℚ)/(1/10) = (10000 : ℤ) := by norm_num
  refine ⟨accepted, fun right => ?_⟩
  have range := (right.success accepted).fine.1.2
  change truncate ((1000#32).toNat/(1/10)) ≤ 255 at range
  rw [counts, truncateInt] at range
  exact absurd range (by decide)

end PennDaq.MTCPedestals
