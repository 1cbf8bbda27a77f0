import PennDaq.Lib.Waveform
import PennDaq.MTCInit

/-! What the pulser and the threshold DACs are given: the data bits at the rising edges of
their clocks in the words that `SetPulserFrequency` and `LoadMTCADacsByCounts` write. -/
namespace PennDaq.MTCWaveforms
open Lib.CNumber
open Lib.Mask
open Lib.Waveform
open MTCInit

def madeTo (reg : BitVec 32) (before after : Trace) : List (BitVec 32) :=
  ((after.drop before.length).filter fun x => x.address = reg).map Write.data

def wordsTo (reg : BitVec 32) (words : List (BitVec 32)) : Trace := words.map fun data => ⟨reg,data⟩

theorem madeWords (reg : BitVec 32) (before : Trace) (words : List (BitVec 32)) (others : Trace)
    (elsewhere : ∀ x ∈ others, x.address ≠ reg) :
    madeTo reg before (before ++ wordsTo reg words ++ others) = words := by
  have none' : others.filter (fun x => x.address = reg) = [] := by
    rw [List.filter_eq_nil_iff]
    intro x mem
    simpa using elsewhere x mem
  have all : (wordsTo reg words).filter (fun x => x.address = reg) = wordsTo reg words := by
    rw [List.filter_eq_self]
    intro x mem
    obtain ⟨data, -, rfl⟩ := List.mem_map.mp mem
    exact decide_eq_true rfl
  rw [madeTo, List.append_assoc, List.drop_left, List.filter_append, none', all, List.append_nil, wordsTo,
    List.map_map]
  exact List.map_id words

/- The 24 bits that are clocked in are those of the divider. -/
def ProgramsDivider (read : Trace → BitVec 32 → BitVec 32) (t : Trace) (freq : ℚ) : Prop :=
  (setPulserFrequency read t freq).1 = 0 → ∀ level,
    let bits := sampled 5 1 level (madeTo mtcSerialReg t (setPulserFrequency read t freq).2)
    bits.length = 24 ∧ (number bits : ℤ) = ⌊781250/freq - 1⌋

def serialWords (clock value : BitVec 32) : Nat → List (BitVec 32)
  | 0 => []
  | j+1 =>
    let shiftValue := if value.getLsbD j then serDat ||| sen else sen
    shiftValue::(shiftValue ||| clock)::serialWords clock value j

theorem shiftOutWords {read : Trace → BitVec 32 → BitVec 32} (back : ReadsBack read mtcSerialReg)
    (clock value : BitVec 32) (j : Nat) (t : Trace) :
    shiftOut read clock value j t = t ++ wordsTo mtcSerialReg (serialWords clock value j) := by
  induction j generalizing t with
  | zero => simp [shiftOut, serialWords, wordsTo]
  | succ j ih =>
    rw [shiftOut, ih, setBits, back]
    simp [regWrite, serialWords, wordsTo]

theorem serialSampled (value : BitVec 32) (j : Nat) (level : Bool) :
    sampled 5 1 level (serialWords shftClkPs value j) = bitsOf value j := by
  induction j generalizing level with
  | zero => rfl
  | succ j ih =>
    cases h : value.getLsbD j with
    | true =>
      rw [serialWords, bitsOf, h, sampledPulse 1 level (by decide) (by decide), ih]
      rfl
    | false =>
      rw [serialWords, bitsOf, h, sampledPulse 1 level (by decide) (by decide), ih]
      rfl

theorem pulserSampled {read : Trace → BitVec 32 → BitVec 32} (back : ReadsBack read mtcSerialReg)
    (value : BitVec 32) (t : Trace) (level : Bool) :
    sampled 5 1 level (madeTo mtcSerialReg t (loadPulser read t value)) = bitsOf value 24 := by
  have elsewhere : ∀ (u : Trace) (bits : BitVec 32), ∃ others : Trace, toggle read u bits = u ++ others ∧
      ∀ x ∈ others, x.address ≠ mtcSerialReg := by
    intro u bits
    obtain ⟨others, same, mem⟩ := toggleWrites read List.mem_cons_self u bits
    refine ⟨others, same, fun x inside => ?_⟩
    rw [List.mem_singleton.mp (mem x inside)]
    decide
  obtain ⟨others, same, elsewhere⟩ := elsewhere (shiftOut read shftClkPs value 24 t) loadEnPs
  rw [loadPulser, same, shiftOutWords back, madeWords _ t _ _ elsewhere, serialSampled]

theorem dividerValue {freq : ℚ} (fast : 1/1000 < freq) :
    (toUInt 32 (781250/freq - 1)).toNat = ⌊781250/freq - 1⌋.toNat := by
  have positive : 0 < freq := lt_trans (by norm_num) fast
  have small : 781250/freq - 1 < 781250000 := by
    rw [sub_lt_iff_lt_add, div_lt_iff₀ positive]
    linarith
  have above : -1 < 781250/freq - 1 := by
    have share : 0 < 781250/freq := by positivity
    linarith
  have bound : ⌊781250/freq - 1⌋ < 781250000 := by
    rw [Int.floor_lt]
    exact_mod_cast small
  rw [toUInt, truncate, BitVec.toNat_ofInt]
  split
  · rename_i whole
    have least := Int.floor_nonneg.mpr whole
    omega
  · rename_i negative
    have zero : ⌈781250/freq - 1⌉ = 0 := by
      rw [Int.ceil_eq_zero_iff, Set.mem_Ioc]
      exact ⟨above, by linarith⟩
    have low : ⌊781250/freq - 1⌋ < 0 := by
      rw [Int.floor_lt]
      push_cast
      linarith
    rw [zero]
    omega

theorem dividerBelow {freq : ℚ} (positive : 0 < freq) {n : ℤ} {next : ℚ} (same : (n : ℚ) + 1 = next)
    (counts : 0 < next) : ⌊781250/freq - 1⌋ < n ↔ 781250/next < freq := by
  rw [Int.floor_lt, sub_lt_iff_lt_add, same, div_lt_comm₀ positive counts]

theorem pulserProgrammed {read : Trace → BitVec 32 → BitVec 32} (back : ReadsBack read mtcSerialReg)
    (t : Trace) {freq : ℚ} (fast : 1/1000 < freq) :
    ProgramsDivider read t freq ↔ 781250/16777217 < freq ∨ freq ≤ 781250/167772218 := by
  have positive : 0 < freq := lt_trans (by norm_num) fast
  have value := dividerValue fast
  have fits : ⌊781250/freq - 1⌋ < 16777216 ↔ 781250/16777217 < freq :=
    dividerBelow positive (by norm_num) (by norm_num)
  have refused : ⌊781250/freq - 1⌋ < 167772217 ↔ 781250/167772218 < freq :=
    dividerBelow positive (by norm_num) (by norm_num)
  rw [← fits, ← not_lt, ← refused]
  unfold ProgramsDivider setPulserFrequency
  rw [if_neg (not_le.mpr fast)]
  dsimp only
  split
  · rename_i out
    refine iff_of_true (fun zero => by simp at zero) ?_
    omega
  · rename_i inside
    have reading (level : Bool) := pulserSampled back (toUInt 32 (781250/freq - 1)) t level
    simp only [reading, bitsLength, numberBits, value, true_and, forall_const]
    omega

theorem pulserProgrammedOnce : ProgramsDivider readLast [] 1 :=
  (pulserProgrammed (readLastBack mtcSerialReg) [] (by norm_num)).mpr (.inl (by norm_num))

/- A frequency of 1/100 is accepted, and its divider has 27 bits. -/
theorem slowPulserCut : (setPulserFrequency readLast [] (1/100)).1 = 0 ∧
    ¬ ProgramsDivider readLast [] (1/100) := by
  have accepted : (setPulserFrequency readLast [] (1/100)).1 = 0 := by decide +kernel
  have clocked : number (sampled 5 1 false (madeTo mtcSerialReg []
      (setPulserFrequency readLast [] (1/100)).2)) = 11016135 := by decide +kernel
  have divider : ⌊(781250/(1/100) - 1 : ℚ)⌋ = 78124999 := by norm_num
  refine ⟨accepted, fun programs => ?_⟩
  have same := (programs accepted false).2
  rw [clocked, divider] at same
  exact absurd same (by decide)

def dummyWords : Nat → List (BitVec 32)
  | 0 => []
  | n+1 => (dacSel ||| dacClk)::dacSel::dummyWords n

def planeWords (rawDacs : Fin 14 → BitVec 16) : Nat → BitVec 32 → List (BitVec 32)
  | 0, _ => []
  | bi+1, value =>
    let value := shiftValue rawDacs bi value
    (value ||| dacSel)::(value ||| dacSel ||| dacClk)::(value ||| dacSel)::planeWords rawDacs bi value

theorem shiftDummyWords (n : Nat) (t : Trace) :
    shiftDummy n t = t ++ wordsTo mtcDacCntReg (dummyWords n) := by
  induction n generalizing t with
  | zero => simp [shiftDummy, dummyWords, wordsTo]
  | succ n ih =>
    rw [shiftDummy, ih]
    simp [dacWrite, regWrite, dummyWords, wordsTo]

theorem shiftDacsWords (rawDacs : Fin 14 → BitVec 16) (n : Nat) (value : BitVec 32) (t : Trace) :
    shiftDacs rawDacs n value t = t ++ wordsTo mtcDacCntReg (planeWords rawDacs n value) := by
  induction n generalizing value t with
  | zero => simp [shiftDacs, planeWords, wordsTo]
  | succ n ih =>
    rw [shiftDacs, ih]
    simp [dacWrite, regWrite, planeWords, wordsTo]

theorem loadedWords (t : Trace) (rawDacs : Fin 14 → BitVec 16) :
    loadMTCADacsByCounts t rawDacs =
      t ++ wordsTo mtcDacCntReg (dacSel::dummyWords 4 ++ planeWords rawDacs 12 0 ++ [0x0]) := by
  rw [loadMTCADacsByCounts, shiftDummyWords, shiftDacsWords]
  simp [dacWrite, regWrite, wordsTo]

def DataOnly (value : BitVec 32) : Prop := ∀ k, 14 ≤ k → value.getLsbD k = false

theorem shiftValueData (rawDacs : Fin 14 → BitVec 16) {value : BitVec 32} (only : DataOnly value) (bi : Nat) :
    DataOnly (shiftValue rawDacs bi value) := by
  intro k high
  rcases Nat.lt_or_ge k 32 with inside | outside
  · rw [shiftValue, shiftValueOther rawDacs bi _ value inside (fun di _ => by omega), only k high]
  · exact BitVec.getLsbD_of_ge _ _ outside

def controlWords : List (BitVec 32) :=
  dacSel::((List.replicate 4 [dacSel ||| dacClk,dacSel]).flatten ++
    (List.replicate 12 [dacSel,dacSel ||| dacClk,dacSel]).flatten ++ [0x0])

structure DacsShifted (rawDacs : Fin 14 → BitVec 16) (level : Bool) (words : List (BitVec 32)) : Prop where
  waveform : ∀ di : Fin 14, sampled 15 di level words = List.replicate 4 false ++ bitsOf (rawDacs di) 12
  selected : ∀ word ∈ edges 15 level words, word.getLsbD 14 = true
  lowered : ∃ before, words = before ++ [0x0] ∧ ∀ word ∈ before, word.getLsbD 14 = true
  undisturbed : words.map (· &&& (dacSel ||| dacClk)) = controlWords

theorem controlOf {value : BitVec 32} (only : DataOnly value) (control : BitVec 32) :
    (value ||| control) &&& (dacSel ||| dacClk) = control &&& (dacSel ||| dacClk) := by
  apply BitVec.eq_of_getLsbD_eq
  intro k _
  rw [BitVec.getLsbD_and, BitVec.getLsbD_and, BitVec.getLsbD_or]
  rcases Nat.lt_or_ge k 14 with data | high
  · have none' : ∀ k < 14, (dacSel ||| dacClk).getLsbD k = false := by decide
    rw [none' k data, Bool.and_false, Bool.and_false]
  · rw [only k high, Bool.false_or]

theorem planeControl {rawDacs : Fin 14 → BitVec 16} {value : BitVec 32} (only : DataOnly value) (n : Nat) :
    (planeWords rawDacs n value).map (· &&& (dacSel ||| dacClk)) =
      (List.replicate n [dacSel,dacSel ||| dacClk,dacSel]).flatten := by
  induction n generalizing value with
  | zero => rfl
  | succ n ih =>
    have next := shiftValueData rawDacs only n
    have both : (shiftValue rawDacs n value ||| dacSel ||| dacClk) &&& (dacSel ||| dacClk) = dacSel ||| dacClk := by
      rw [BitVec.or_assoc, controlOf next, BitVec.and_self]
    have one : (shiftValue rawDacs n value ||| dacSel) &&& (dacSel ||| dacClk) = dacSel := controlOf next dacSel
    rw [planeWords, List.replicate_succ, List.flatten_cons, ← ih next]
    simp only [List.map_cons, both, one, List.cons_append, List.nil_append]

theorem planeSampled {rawDacs : Fin 14 → BitVec 16} {value : BitVec 32} (only : DataOnly value) (n : Nat)
    (di : Fin 14) (level : Bool) : sampled 15 di level (planeWords rawDacs n value) = bitsOf (rawDacs di) n := by
  induction n generalizing value level with
  | zero => rfl
  | succ n ih =>
    have next := shiftValueData rawDacs only n
    have bit : (shiftValue rawDacs n value).getLsbD di = (rawDacs di).getLsbD n :=
      shiftValueAt rawDacs n _ (List.nodup_finRange 14) value (List.mem_finRange di)
    obtain ⟨sel, clk⟩ := controlBits di
    have down : (shiftValue rawDacs n value ||| dacSel).getLsbD 15 = false := by
      rw [BitVec.getLsbD_or, next 15 (by decide)]
      decide
    have up : (shiftValue rawDacs n value ||| dacSel ||| dacClk).getLsbD 15 = true := by
      rw [BitVec.getLsbD_or, down]
      decide
    rw [planeWords, sampledPulse di level down up, sampledLow di true down, ih next, bitsOf,
      BitVec.getLsbD_or, BitVec.getLsbD_or, sel, clk, bit, Bool.or_false, Bool.or_false]

theorem dummySampled (di : Fin 14) (n : Nat) :
    sampled 15 di false (dummyWords n) = List.replicate n false := by
  obtain ⟨sel, clk⟩ := controlBits di
  induction n with
  | zero => rfl
  | succ n ih =>
    have up : (dacSel ||| dacClk).getLsbD 15 = true := by decide
    have down : dacSel.getLsbD 15 = false := by decide
    rw [dummyWords, sampledRise di up, sampledLow di true down, ih, List.replicate_succ, BitVec.getLsbD_or,
      sel, clk, Bool.or_false]

theorem dummySelected (n : Nat) : ∀ word ∈ dacSel::dummyWords n, word.getLsbD 14 = true := by
  have sel : dacSel.getLsbD 14 = true := by decide
  induction n with
  | zero => simpa [dummyWords] using sel
  | succ n ih =>
    intro word mem
    simp only [dummyWords, List.mem_cons] at mem ih
    rcases mem with rfl | rfl | rfl | mem
    · exact sel
    · rw [BitVec.getLsbD_or, sel, Bool.true_or]
    · exact sel
    · exact ih word (Or.inr mem)

theorem dummyControl (n : Nat) : (dummyWords n).map (· &&& (dacSel ||| dacClk)) =
    (List.replicate n [dacSel ||| dacClk,dacSel]).flatten := by
  have one : dacSel &&& (dacSel ||| dacClk) = dacSel := rfl
  induction n with
  | zero => rfl
  | succ n ih =>
    rw [dummyWords, List.replicate_succ, List.flatten_cons, ← ih]
    simp only [List.map_cons, one, BitVec.and_self, List.cons_append, List.nil_append]

theorem planeSelected (rawDacs : Fin 14 → BitVec 16) (n : Nat) (value : BitVec 32) :
    ∀ word ∈ planeWords rawDacs n value, word.getLsbD 14 = true := by
  have sel : dacSel.getLsbD 14 = true := by decide
  induction n generalizing value with
  | zero => simp [planeWords]
  | succ n ih =>
    intro word mem
    simp only [planeWords, List.mem_cons] at mem
    rcases mem with rfl | rfl | rfl | mem
    · rw [BitVec.getLsbD_or, sel, Bool.or_true]
    · rw [BitVec.getLsbD_or, BitVec.getLsbD_or, sel, Bool.or_true, Bool.true_or]
    · rw [BitVec.getLsbD_or, sel, Bool.or_true]
    · exact ih _ word mem

theorem dacsShifted (t : Trace) (rawDacs : Fin 14 → BitVec 16) (level : Bool) :
    (∃ words, loadMTCADacsByCounts t rawDacs = t ++ wordsTo mtcDacCntReg words) ∧
      DacsShifted rawDacs level (madeTo mtcDacCntReg t (loadMTCADacsByCounts t rawDacs)) := by
  refine ⟨⟨_, loadedWords t rawDacs⟩, ?_⟩
  have made := madeWords mtcDacCntReg t
    (dacSel::dummyWords 4 ++ planeWords rawDacs 12 0 ++ [0x0]) [] (by simp)
  rw [List.append_nil, ← loadedWords] at made
  rw [made]
  have only : DataOnly 0 := fun k _ => BitVec.getLsbD_zero
  have high : ∀ word ∈ dacSel::dummyWords 4 ++ planeWords rawDacs 12 0, word.getLsbD 14 = true := by
    intro word mem
    rcases List.mem_append.mp mem with mem | mem
    · exact dummySelected 4 word mem
    · exact planeSelected rawDacs 12 0 word mem
  refine ⟨fun di => ?_, fun word mem => ?_, ⟨_, rfl, high⟩, ?_⟩
  · have first : sampled 15 di level (dacSel::dummyWords 4) = List.replicate 4 false := by
      rw [sampledLow di level (by decide), dummySampled]
    have last (level : Bool) : sampled 15 di level [(0x0 : BitVec 32)] = [] := by
      rw [sampledLow di level (by decide)]
      rfl
    rw [sampledAppend, sampledAppend, first, planeSampled only, last, List.append_nil]
  · obtain ⟨mem, clocked⟩ := edgesDriven level mem
    rcases List.mem_append.mp mem with mem | mem
    · exact high word mem
    · rw [List.mem_singleton.mp mem] at clocked
      exact absurd clocked (by decide)
  · have sel : dacSel &&& (dacSel ||| dacClk) = dacSel := rfl
    have none' : (0x0 : BitVec 32) &&& (dacSel ||| dacClk) = 0x0 := rfl
    rw [List.map_append, List.map_append, planeControl only, List.map_cons, dummyControl, sel, controlWords,
      List.map_singleton, none', List.cons_append, List.cons_append]

end PennDaq.MTCWaveforms
