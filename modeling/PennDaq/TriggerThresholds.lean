import PennDaq.MTCThresholds

/-! The thresholds of `TriggerScan`: the DAC counts that it comes down through, and the
indices that it writes into the file for them. -/
namespace PennDaq.TriggerThresholds
open MTCInit MTCThresholds

structure Pass where
  counts : Fin 14 → BitVec 16
  ithresh : Int

/- The threshold DAC to program is the one of the trigger where none is chosen. -/
def scannedDac (triggerSelect : Fin 14) (dacSelect : Option (Fin 14)) : Fin 14 := dacSelect.getD triggerSelect

def step (quickMode ithresh : Int) : Int := if ithresh > 50 ∧ quickMode = 1 then ithresh+9 else ithresh

def scanFrom (dac : Fin 14) (minThresh quickMode : Int) (counts : Fin 14 → BitVec 16) (ithresh : Int) : List Pass :=
  if ithresh < 4095-minThresh then
    let counts := Function.update counts dac (BitVec.ofInt 16 (4095-step quickMode ithresh))
    ⟨counts,step quickMode ithresh⟩::scanFrom dac minThresh quickMode counts (step quickMode ithresh+1)
  else []
termination_by (4095-minThresh-ithresh).toNat
decreasing_by
  unfold step
  split <;> omega

def triggerScan (triggerSelect : Fin 14) (dacSelect : Option (Fin 14)) (minThresh quickMode : Int) : List Pass :=
  scanFrom (scannedDac triggerSelect dacSelect) minThresh quickMode (fun _ => 10) 0

structure Descends (dac : Fin 14) (minThresh : Int) (passes : List Pass) : Prop where
  decreasing : passes.Pairwise fun p q => (q.counts dac).toNat < (p.counts dac).toNat
  inside : ∀ p ∈ passes, max 0 minThresh ≤ (p.counts dac).toNat ∧ (p.counts dac).toNat ≤ 4095
  written : ∀ p ∈ passes, ((p.counts dac).toNat : Int) = 4095-p.ithresh
  loaded : ∀ p ∈ passes, ∀ t, (dacCode dac (loadMTCADacsByCounts t p.counts) : Int) = 4095-p.ithresh

/- In quick mode the last step of ten ends above the lowest count. -/
def Lands (minThresh quickMode : Int) : Prop :=
  if quickMode = 1 then 4044 ≤ minThresh ∨ 0 ≤ minThresh ∧ (minThresh % 10 = 4 ∨ minThresh % 10 = 5)
  else -1 ≤ minThresh

def Reached (minThresh quickMode ithresh x : Int) : Prop :=
  if quickMode = 1 then
    ithresh ≤ x ∧ x ≤ 50 ∧ x < 4095-minThresh ∨
      max ithresh 51 + 9 ≤ x ∧ x % 10 = 0 ∧ x-9 < 4095-minThresh
  else ithresh ≤ x ∧ x < 4095-minThresh

section Passes
variable (dac : Fin 14) (minThresh quickMode : Int) (counts : Fin 14 → BitVec 16)

theorem reachedFrom {ithresh : Int} (aligned : quickMode = 1 → ithresh ≤ 51 ∨ ithresh % 10 = 1) (x : Int) :
    (∃ p ∈ scanFrom dac minThresh quickMode counts ithresh, p.ithresh = x) ↔
      Reached minThresh quickMode ithresh x := by
  fun_induction scanFrom dac minThresh quickMode counts ithresh with
  | case1 counts ithresh more counts' ih =>
    have aligned' : quickMode = 1 → step quickMode ithresh + 1 ≤ 51 ∨ (step quickMode ithresh + 1) % 10 = 1 := by
      intro quick
      have before := aligned quick
      unfold step
      split <;> omega
    simp only [List.mem_cons, exists_eq_or_imp]
    rw [ih aligned']
    unfold Reached step
    by_cases quick : quickMode = 1
    · have before := aligned quick
      simp only [quick, and_true, if_true]
      split <;> omega
    · simp only [quick, and_false, if_false]
      omega
  | case2 counts ithresh done =>
    unfold Reached
    simp only [List.not_mem_nil, false_and, exists_false, false_iff]
    by_cases quick : quickMode = 1
    · simp only [quick, if_true]
      omega
    · simp only [quick, if_false]
      omega

theorem countProgrammed {ithresh : Int} {p : Pass} (mem : p ∈ scanFrom dac minThresh quickMode counts ithresh) :
    p.counts dac = BitVec.ofInt 16 (4095-p.ithresh) ∧ ithresh ≤ p.ithresh := by
  fun_induction scanFrom dac minThresh quickMode counts ithresh with
  | case1 counts ithresh more counts' ih =>
    have stepped : ithresh ≤ step quickMode ithresh := by
      unfold step
      split <;> omega
    rcases List.mem_cons.mp mem with rfl | mem
    · exact ⟨Function.update_self .., stepped⟩
    · obtain ⟨count, later⟩ := ih mem
      exact ⟨count, by omega⟩
  | case2 => cases mem

theorem indicesAscend (ithresh : Int) :
    (scanFrom dac minThresh quickMode counts ithresh).Pairwise fun p q => p.ithresh < q.ithresh := by
  fun_induction scanFrom dac minThresh quickMode counts ithresh with
  | case1 counts ithresh more counts' ih =>
    refine List.pairwise_cons.mpr ⟨fun q mem => ?_, ih⟩
    exact Int.lt_of_add_one_le (countProgrammed dac minThresh quickMode counts' mem).2
  | case2 => exact .nil

theorem countValue {count : BitVec 16} {ithresh : Int} (made : count = BitVec.ofInt 16 (4095-ithresh))
    (first : 0 ≤ ithresh) (last : ithresh ≤ 4095) : (count.toNat : Int) = 4095-ithresh := by
  rw [made, BitVec.toNat_ofInt]
  omega

theorem descendsExact : Descends dac minThresh (scanFrom dac minThresh quickMode counts 0) ↔
    ∀ p ∈ scanFrom dac minThresh quickMode counts 0, p.ithresh ≤ 4095 - max 0 minThresh := by
  constructor
  · intro descends p mem
    have low := (descends.inside p mem).1
    have written := descends.written p mem
    omega
  · intro short
    have value : ∀ p ∈ scanFrom dac minThresh quickMode counts 0,
        ((p.counts dac).toNat : Int) = 4095-p.ithresh ∧ 0 ≤ p.ithresh := by
      intro p mem
      obtain ⟨made, first⟩ := countProgrammed dac minThresh quickMode counts mem
      have last := short p mem
      exact ⟨countValue made first (by omega), first⟩
    constructor
    · refine (indicesAscend dac minThresh quickMode counts 0).imp_of_mem fun mem mem' less => ?_
      have first := (value _ mem).1
      have second := (value _ mem').1
      omega
    · intro p mem
      obtain ⟨count, first⟩ := value p mem
      have last := short p mem
      omega
    · exact fun p mem => (value p mem).1
    · intro p mem t
      obtain ⟨count, first⟩ := value p mem
      rw [countsCode, Int.natCast_mod, count]
      have last := short p mem
      omega

end Passes

theorem reachedLands (minThresh quickMode : Int) :
    (∀ x, Reached minThresh quickMode 0 x → x ≤ 4095 - max 0 minThresh) ↔ Lands minThresh quickMode := by
  unfold Reached Lands
  by_cases quick : quickMode = 1
  · simp only [quick, if_true]
    constructor
    · intro short
      -- the step that ends above 4095, and the first one above the lowest count
      have above := short 4100
      have next := short (4095-minThresh - (4095-minThresh) % 10 + 10)
      omega
    · intro lands x reached
      omega
  · simp only [quick, if_false]
    constructor
    · intro short
      have above := short 4096
      omega
    · intro lands x reached
      omega

theorem thresholdsDescend (triggerSelect : Fin 14) (dacSelect : Option (Fin 14)) (minThresh quickMode : Int) :
    Descends (scannedDac triggerSelect dacSelect) minThresh (triggerScan triggerSelect dacSelect minThresh quickMode) ↔
      Lands minThresh quickMode := by
  rw [triggerScan, descendsExact, ← reachedLands]
  have each := @reachedFrom (scannedDac triggerSelect dacSelect) minThresh quickMode (fun _ => 10) 0
    fun _ => .inl (by decide)
  constructor
  · intro short x reached
    obtain ⟨p, mem, rfl⟩ := (each x).mpr reached
    exact short p mem
  · intro short p mem
    exact short p.ithresh ((each _).mp ⟨p, mem, rfl⟩)

/- Quick mode down to 0 ends with the count -5. -/
theorem quickOvershoots : ¬ Descends 0 0 (triggerScan 0 none 0 1) := by
  intro descends
  obtain ⟨p, mem, last⟩ := (reachedFrom 0 0 1 (fun _ => 10) (fun _ => .inl (by decide)) 4100).mpr
    (show Reached 0 1 0 4100 by rw [Reached, if_pos rfl]; omega)
  have low := (descends.inside p mem).1
  have written := descends.written p mem
  omega

end PennDaq.TriggerThresholds
