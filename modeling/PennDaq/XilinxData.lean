import PennDaq.Lib.Buffer

/-! `MTCModel::GetXilinxData`: the bits of a Xilinx file in a block of `MAX_DATA_SIZE`. -/
namespace PennDaq.XilinxData
open Lib.Buffer

def maxDataSize : Nat := 150000

structure Block where
  bytes : Bytes
  size : bytes.length = maxDataSize

def endOfFile : Int := -1

def char (c : UInt8) : Int := c.toInt8.toInt

def skipped (c : UInt8) : Bool := c = 10 || c = 13 || c = 9

/- The `while` loop on what `getc` has still to give. `EOF` is stored like a byte. -/
def readData (data : Bytes) (howManyBits : Nat) : Bytes → Bytes × Nat
  | [] => (overwrite data howManyBits [0xFF],howManyBits)
  | c::later =>
    let data := overwrite data howManyBits [c]
    if char c ≠ endOfFile ∧ howManyBits < maxDataSize then
      if skipped c then readData data howManyBits later
      else readData data (howManyBits+1) later
    else (data,howManyBits)

/- No file and no block give `NULL`. -/
def getXilinxData (file : Option Bytes) (block : Option Block) : Option (Bytes × Nat) :=
  file.bind fun file => block.map fun block => readData block.bytes 0 file

def kept (file : Bytes) : Bytes := file.filter fun c => !skipped c

structure Loaded (file data : Bytes) (howManyBits : Nat) : Prop where
  bytes : data.take howManyBits = (kept file).take maxDataSize
  count : howManyBits = ((kept file).take maxDataSize).length
  inside : data.length = maxDataSize

theorem charEnd (c : UInt8) : char c = endOfFile ↔ c = 0xFF := by
  constructor
  · intro same
    exact congrArg Int8.toUInt8 (Int8.toInt_inj.mp same)
  · rintro rfl
    rfl

theorem keptCons (c : UInt8) (later : Bytes) : kept (c::later) = if skipped c then kept later else c::kept later := by
  cases h : skipped c with
  | true => simp [kept, h]
  | false => simp [kept, h]

theorem readEnd (data : Bytes) (n : Nat) (front back : Bytes) :
    readData data n (front ++ 0xFF::back) = readData data n front := by
  induction front generalizing data n with
  | nil => rfl
  | cons c front ih =>
    rw [List.cons_append]
    unfold readData
    simp only [ih]

theorem readFits {file : Bytes} (whole : 0xFF ∉ file) {data : Bytes} (size : data.length = maxDataSize) {n : Nat}
    (room : n + (kept file).length < maxDataSize) :
    (readData data n file).1.take (n + (kept file).length) = data.take n ++ kept file ∧
      (readData data n file).2 = n + (kept file).length ∧ (readData data n file).1.length = maxDataSize := by
  induction file generalizing data n with
  | nil =>
    change n < maxDataSize at room
    have same : (overwrite data n [0xFF]).length = maxDataSize := (overwriteInside (by simp; omega)).trans size
    refine ⟨?_, rfl, same⟩
    simp [readData, kept, overwrite, size, Nat.min_eq_left (Nat.le_of_lt room)]
  | cons c later ih =>
    obtain ⟨other, whole⟩ := not_or.mp (mt List.mem_cons.mpr whole)
    have goes : char c ≠ endOfFile ∧ n < maxDataSize := by
      exact ⟨fun same => other ((charEnd c).mp same).symm, by omega⟩
    have same : (overwrite data n [c]).length = maxDataSize := (overwriteInside (by simp; omega)).trans size
    rw [keptCons] at room ⊢
    unfold readData
    rw [if_pos goes]
    cases blank : skipped c with
    | true =>
      simp only [blank, if_true] at room ⊢
      have front : (overwrite data n [c]).take n = data.take n := by
        simp [overwrite, size, Nat.min_eq_left (Nat.le_of_lt goes.2)]
      rw [← front]
      exact ih whole same room
    | false =>
      simp only [blank, Bool.false_eq_true, if_false] at room ⊢
      have front : (overwrite data n [c]).take (n+1) = data.take n ++ [c] := overwriteTake data [c] (by omega)
      have rest := ih whole same (n := n+1) (by rw [List.length_cons] at room; omega)
      rw [front, List.append_assoc] at rest
      rw [List.length_cons, Nat.add_comm (kept later).length, ← Nat.add_assoc]
      exact rest

theorem overwriteBehind {data : Bytes} (size : data.length = maxDataSize) (c : UInt8) :
    (overwrite data maxDataSize [c]).length = maxDataSize + 1 := by
  rw [overwriteLength [c] (by omega)]
  simp [size]

theorem readOverruns {file : Bytes} (whole : 0xFF ∉ file) {data : Bytes} (size : data.length = maxDataSize) {n : Nat}
    (inside : n ≤ maxDataSize) (full : maxDataSize ≤ n + (kept file).length) :
    (readData data n file).1.length = maxDataSize + 1 := by
  induction file generalizing data n with
  | nil =>
    obtain rfl : n = maxDataSize := Nat.le_antisymm inside full
    exact overwriteBehind size 0xFF
  | cons c later ih =>
    obtain ⟨other, whole⟩ := not_or.mp (mt List.mem_cons.mpr whole)
    have goes : char c ≠ endOfFile := fun same => other ((charEnd c).mp same).symm
    unfold readData
    rcases Nat.lt_or_eq_of_le inside with less | rfl
    · have same : (overwrite data n [c]).length = maxDataSize := (overwriteInside (by simp; omega)).trans size
      rw [if_pos ⟨goes,less⟩]
      rw [keptCons] at full
      cases blank : skipped c with
      | true =>
        simp only [blank, if_true] at full ⊢
        exact ih whole same inside full
      | false =>
        simp only [blank, Bool.false_eq_true, if_false, List.length_cons] at full ⊢
        exact ih whole same less (by omega)
    · rw [if_neg fun both => Nat.lt_irrefl _ both.2]
      exact overwriteBehind size c

theorem loadedWhole {file : Bytes} (whole : 0xFF ∉ file) (block : Block) :
    Loaded file (readData block.bytes 0 file).1 (readData block.bytes 0 file).2 ↔ (kept file).length < maxDataSize := by
  constructor
  · intro loaded
    by_contra full
    have longer := readOverruns whole block.size (Nat.zero_le _) (n := 0) (by omega)
    have inside := loaded.inside
    omega
  · intro room
    obtain ⟨bytes, count, inside⟩ := readFits whole block.size (n := 0) (by omega)
    have all : (kept file).take maxDataSize = kept file := List.take_of_length_le (Nat.le_of_lt room)
    rw [Nat.zero_add] at bytes count
    constructor
    · rw [count, bytes, all]
      rfl
    · rw [count, all]
    · exact inside

theorem loadedCut {file : Bytes} (cut : 0xFF ∈ file) (block : Block) :
    ¬ Loaded file (readData block.bytes 0 file).1 (readData block.bytes 0 file).2 := by
  intro loaded
  obtain ⟨front, back, rfl, whole⟩ := List.eq_append_cons_of_mem cut
  rw [readEnd] at loaded
  have inside := loaded.inside
  rcases Nat.lt_or_ge (kept front).length maxDataSize with room | full
  · obtain ⟨-, count, -⟩ := readFits whole block.size (n := 0) (by omega)
    have split : kept (front ++ 0xFF::back) = kept front ++ 0xFF::kept back := by
      simp [kept, skipped]
    have more := loaded.count
    rw [count, split, List.length_take, List.length_append, List.length_cons] at more
    omega
  · have longer := readOverruns whole block.size (Nat.zero_le _) (n := 0) (by omega)
    omega

theorem xilinxLoaded (file : Bytes) (block : Block) :
    ∃ data howManyBits, getXilinxData (some file) (some block) = some (data,howManyBits) ∧
      (Loaded file data howManyBits ↔ 0xFF ∉ file ∧ (kept file).length < maxDataSize) := by
  refine ⟨(readData block.bytes 0 file).1, (readData block.bytes 0 file).2, rfl, ?_⟩
  constructor
  · intro loaded
    have whole : 0xFF ∉ file := fun cut => loadedCut cut block loaded
    exact ⟨whole, (loadedWhole whole block).mp loaded⟩
  · intro ⟨whole, room⟩
    exact (loadedWhole whole block).mpr room

/- One byte of three in a block of zeros. -/
theorem byteTakenForEnd : ¬ ∀ (file : Bytes) (block : Block) (data : Bytes) (howManyBits : Nat),
    getXilinxData (some file) (some block) = some (data,howManyBits) → Loaded file data howManyBits := by
  intro always
  have cut : 0xFF ∈ ([0x31,0xFF,0x30] : Bytes) := by decide
  exact loadedCut cut ⟨zeros maxDataSize,zerosLength _⟩ (always _ _ _ _ rfl)

end PennDaq.XilinxData
