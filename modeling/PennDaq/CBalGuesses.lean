import PennDaq.CrateCBal
import PennDaq.Lib.Mask

/-! Whether `CrateCBal` uses a point or a best guess that it has not assigned, and what it
posts. -/
namespace PennDaq.CBalGuesses
open Lib.CNumber
open Lib.Loop
open Lib.Mask
open Lib.Scan
open CrateCBal
open Pedestals

structure Part where
  active : Bool
  balanced : Bool
  chan : Chan

def part (j : Fin 32) (b : Balancing) : Part := ⟨b.activeChans.getLsbD j,b.balancedChans.getLsbD j,b.chans j⟩

section Channel
variable (gain : Gain) (secant : ℤ → ℤ → ℚ → ℚ → ℤ) (kick : Fin 32 → ℤ) (first : Bool)

def Unbalanceable (c : Chan) : Prop :=
  acceptable gain c.x2 = false ∧ acceptable gain c.x1 = false ∧ difference gain c.x1*difference gain c.x2 > 0

instance (c : Chan) : Decidable (Unbalanceable gain c) := by
  unfold Unbalanceable
  infer_instance

def retired (p : Part) (value : ℤ) : Part := ⟨false,true,{ p.chan with isBalanced := true, gainBalance := value }⟩

def balancePart (j : Fin 32) (p : Part) : Turn Part Part :=
  if p.active && !p.chan.isBalanced then
    if acceptable gain p.chan.x2 then .again (retired p p.chan.x2Bal)
    else if acceptable gain p.chan.x1 then .again (retired p p.chan.x1Bal)
    else if difference gain p.chan.x1*difference gain p.chan.x2 > 0 ∧ first = true then
      .stop ⟨false,p.balanced,{ p.chan with gainBalance := nearer gain p.chan }⟩
    else .again { p with chan := pickPoint gain secant (kick j) p.chan }
  else .again p

theorem retireOwn (b : Balancing) (j : Fin 32) (value : ℤ) : part j (retire b j value) = retired (part j b) value := by
  unfold part retire retired
  simp only [setBit, clearBit, if_true, Function.update_self]

theorem retireOther (b : Balancing) {i j : Fin 32} (other : j ≠ i) (value : ℤ) : part j (retire b i value) = part j b := by
  unfold part retire
  simp only [setBit, clearBit, if_neg other, Function.update_of_ne other]

theorem balanceParts : Parts (balanceChannel gain secant kick first) (balancePart gain secant kick first) part where
  own b j := by
    have dropped : part j { b with
        chans := Function.update b.chans j { b.chans j with gainBalance := nearer gain (b.chans j) }
        activeChans := b.activeChans &&& ~~~(1#32 <<< j.val) } =
        ⟨false,(part j b).balanced,{ (part j b).chan with gainBalance := nearer gain (part j b).chan }⟩ := by
      unfold part
      simp only [clearBit, if_true, Function.update_self]
    have picked : part j { b with chans := Function.update b.chans j (pickPoint gain secant (kick j) (b.chans j)) } =
        { part j b with chan := pickPoint gain secant (kick j) (part j b).chan } := by
      unfold part
      simp only [Function.update_self]
    unfold balanceChannel balancePart
    simp only [apply_ite (through (part j)), throughAgain, throughStop, retireOwn, dropped, picked]
    rfl
  apart b i j other := by
    unfold balanceChannel
    simp only
    split
    · split
      · exact retireOther b other _
      · split
        · exact retireOther b other _
        · split
          · unfold after part
            simp only [clearBit, if_neg other, Function.update_of_ne other]
          · unfold after part
            simp only [Function.update_of_ne other]
    · rfl

inductive Balance (j : Fin 32) (p : Part) : Turn Part Part → Prop where
  | idle (off : p.active = false ∨ p.chan.isBalanced = true) : Balance j p (.again p)
  | second (on : p.active = true ∧ p.chan.isBalanced = false) (x2 : acceptable gain p.chan.x2 = true) :
      Balance j p (.again (retired p p.chan.x2Bal))
  | first (on : p.active = true ∧ p.chan.isBalanced = false) (x1 : acceptable gain p.chan.x1 = true) :
      Balance j p (.again (retired p p.chan.x1Bal))
  | off (on : p.active = true ∧ p.chan.isBalanced = false) (start : first = true) (apart : Unbalanceable gain p.chan) :
      Balance j p (.stop ⟨false,p.balanced,{ p.chan with gainBalance := nearer gain p.chan }⟩)
  | pick (on : p.active = true ∧ p.chan.isBalanced = false)
      (far : acceptable gain p.chan.x1 = false ∧ acceptable gain p.chan.x2 = false) :
      Balance j p (.again { p with chan := pickPoint gain secant (kick j) p.chan })

theorem balanceCases (j : Fin 32) (p : Part) : Balance gain secant kick first j p (balancePart gain secant kick first j p) := by
  unfold balancePart
  split
  · rename_i on
    rw [Bool.and_eq_true, Bool.not_eq_true'] at on
    split
    · rename_i x2
      exact .second on x2
    · rename_i x2
      have x2 := Bool.eq_false_of_not_eq_true x2
      split
      · rename_i x1
        exact .first on x1
      · rename_i x1
        have x1 := Bool.eq_false_of_not_eq_true x1
        split
        · rename_i both
          exact .off on both.2 ⟨x2, x1, both.1⟩
        · exact .pick on ⟨x1, x2⟩
  · rename_i off
    refine .idle ?_
    cases active : p.active with
    | false => exact .inl rfl
    | true =>
      rw [active, Bool.true_and, Bool.not_eq_true', Bool.not_eq_false] at off
      exact .inr off

end Channel

def updatedPart (tmp : Sample) (p : Part) : Part :=
  if p.active then { p with chan := { p.chan with
    x1 := p.chan.x2
    x1Bal := p.chan.x2Bal
    x2 := tmp
    x2Bal := p.chan.tmpBal.getD 0 } }
  else p

section Iteration
variable (channelMask : BitVec 32) (secant : ℤ → ℤ → ℚ → ℚ → ℤ) (kick : ℕ → Fin 32 → ℤ) (hardware : Hardware) (gain : Gain)

def scanned (b : Balancing) : Balancing :=
  scan (balanceChannel gain secant (kick (b.iterations+1)) (b.iterations+1 = 1)) (List.finRange 32)
    { b with iterations := b.iterations+1 }

structure Next (b t : Balancing) : Prop where
  iterations : t.iterations = b.iterations+1
  balanced : t.balancedChans = (scanned secant kick gain b).balancedChans
  parts : ∀ j, part j t = updatedPart (hardware.sample gain (b.iterations+2) j) (part j (scanned secant kick gain b))
  assigned : ∀ j, (part j (scanned secant kick gain b)).active = true →
    (part j (scanned secant kick gain b)).chan.tmpBal ≠ none

inductive Pass (b : Balancing) : Turn Balancing Exit → Prop where
  | tooMany (late : maxIterations < b.iterations) : Pass b (.stop (bestGuesses b))
  | skipped (few : b.iterations ≤ maxIterations)
      (failure : hardware.links.load gain (b.iterations+1) ≠ .fine ∨ hardware.links.pedestal gain (b.iterations+1) ≠ .fine) :
      Pass b (.stop (.skipped (scanned secant kick gain b).chans))
  | thrown (few : b.iterations ≤ maxIterations)
      (failure : hardware.links.load gain (b.iterations+1) ≠ .fine ∨ hardware.links.pedestal gain (b.iterations+1) ≠ .fine) :
      Pass b (.stop .thrown)
  | unassigned (few : b.iterations ≤ maxIterations) {j : Fin 32} (active : (part j (scanned secant kick gain b)).active = true)
      (missing : (part j (scanned secant kick gain b)).chan.tmpBal = none) : Pass b (.stop .unassigned)
  | ended (few : b.iterations ≤ maxIterations) {t : Balancing} (next : Next secant kick hardware gain b t)
      (all : t.balancedChans = channelMask) : Pass b (.stop (.ended t))
  | again (few : b.iterations ≤ maxIterations) {t : Balancing} (next : Next secant kick hardware gain b t)
      (more : t.balancedChans ≠ channelMask) : Pass b (.again t)

end Iteration

section Posted
variable {channelMask : BitVec 32}

end Posted

section Slot
variable (channelMask : BitVec 32) (secant : ℤ → ℤ → ℚ → ℚ → ℤ) (kick : Gain → ℕ → Fin 32 → ℤ) (hardware : Hardware)

end Slot

/- No channel is turned off in the first iteration; and the last iteration leaves none, or
all channels of the slot take part. -/
structure Balances (channelMask : BitVec 32) (gain : Gain) (sample : ℕ → Fin 32 → Sample) : Prop where
  straddled : ∀ j : Fin 32, channelMask.getLsbD j = true → acceptable gain (sample 0 j) = true ∨
    acceptable gain (sample 1 j) = true ∨ difference gain (sample 0 j)*difference gain (sample 1 j) ≤ 0
  found : channelMask = BitVec.allOnes 32 ∨
    ∀ j : Fin 32, channelMask.getLsbD j = true → ∃ n ≤ maxIterations+1, acceptable gain (sample n j) = true

section Enough
variable {channelMask : BitVec 32} {secant : ℤ → ℤ → ℚ → ℚ → ℤ} {kick : ℕ → Fin 32 → ℤ} {hardware : Hardware} {gain : Gain}

structure GoingPart (channelMask : BitVec 32) (gain : Gain) (sample : ℕ → Fin 32 → Sample) (n : ℕ) (j : Fin 32)
    (p : Part) : Prop where
  masked : p.active = true → channelMask.getLsbD j = true ∧ p.chan.isBalanced = false
  left : channelMask.getLsbD j = true → p.active = true ∨ p.chan.isBalanced = true
  balanced : p.balanced = p.chan.isBalanced
  own : p.chan.isBalanced = true → channelMask.getLsbD j = true
  points : p.active = true → p.chan.x1 = sample n j ∧ p.chan.x2 = sample (n+1) j
  far : p.active = true → n ≠ 0 → ∀ m ≤ n, acceptable gain (sample m j) = false
  assigned : p.active = true → n ≠ 0 → p.chan.tmpBal ≠ none ∧ p.chan.bestguessBal ≠ none

theorem goingOff {sample : ℕ → Fin 32 → Sample} {n : ℕ} {j : Fin 32} {q : Part} (off : q.active = false)
    (left : channelMask.getLsbD j = true → q.chan.isBalanced = true) (balanced : q.balanced = q.chan.isBalanced)
    (own : q.chan.isBalanced = true → channelMask.getLsbD j = true) :
    GoingPart channelMask gain sample n j (updatedPart (sample (n+1) j) q) := by
  have on {P : Prop} (active : q.active = true) : P := by
    rw [off] at active
    contradiction
  rw [updatedPart, if_neg (ne_true_of_eq_false off)]
  exact ⟨on, fun masked => .inr (left masked), balanced, own, on, on, on⟩

theorem goingPicked {sample : ℕ → Fin 32 → Sample} {n : ℕ} {j : Fin 32} {p : Part}
    (going : GoingPart channelMask gain sample n j p) (kick : ℤ) (on : p.active = true ∧ p.chan.isBalanced = false)
    (far : acceptable gain p.chan.x1 = false ∧ acceptable gain p.chan.x2 = false) :
    GoingPart channelMask gain sample (n+1) j
      (updatedPart (sample (n+2) j) { p with chan := pickPoint gain secant kick p.chan }) := by
  have masked := (going.masked on.1).1
  obtain ⟨x1, x2⟩ := going.points on.1
  have later (m : ℕ) (most : m ≤ n+1) : acceptable gain (sample m j) = false := by
    rcases Nat.lt_trichotomy m n with before | rfl | behind
    · exact going.far on.1 (Nat.ne_zero_of_lt before) m before.le
    · exact x1 ▸ far.1
    · have same : m = n+1 := by omega
      rw [same, ← x2]
      exact far.2
  rw [updatedPart, if_pos on.1]
  constructor
  case masked => exact fun _ => ⟨masked, on.2⟩
  case left => exact fun _ => .inl on.1
  case balanced => exact going.balanced
  case own => exact fun _ => masked
  case points => exact fun _ => ⟨x2, rfl⟩
  case far => exact fun _ _ => later
  case assigned => exact fun _ _ => ⟨Option.some_ne_none _, Option.some_ne_none _⟩

theorem goingPass {sample : ℕ → Fin 32 → Sample} {n : ℕ} {j : Fin 32} {p q : Part}
    (going : GoingPart channelMask gain sample n j p) {kick : Fin 32 → ℤ} {first : Bool}
    (goes : balancePart gain secant kick first j p = .again q) :
    GoingPart channelMask gain sample (n+1) j (updatedPart (sample (n+2) j) q) ∧ (q.active = true → q.chan.tmpBal ≠ none) := by
  have step := balanceCases gain secant kick first j p
  rw [goes] at step
  cases step with
  | idle off =>
    have off : p.active = false := by
      rcases off with off | balanced
      · exact off
      · refine Bool.eq_false_of_not_eq_true fun active => ?_
        rw [(going.masked active).2] at balanced
        contradiction
    have inactive : ¬ p.active = true := ne_true_of_eq_false off
    exact ⟨goingOff off (fun masked => (going.left masked).resolve_left inactive) going.balanced going.own,
      fun active => absurd active inactive⟩
  | second on | first on =>
    have masked := (going.masked on.1).1
    exact ⟨goingOff rfl (fun _ => rfl) rfl fun _ => masked, fun active => nomatch active⟩
  | pick on far => exact ⟨goingPicked going (kick j) on far, fun _ => Option.some_ne_none _⟩

structure Going (channelMask : BitVec 32) (gain : Gain) (sample : ℕ → Fin 32 → Sample) (b : Balancing) : Prop where
  few : b.iterations ≤ maxIterations+1
  more : b.iterations ≠ 0 → b.balancedChans ≠ channelMask
  parts : ∀ j, GoingPart channelMask gain sample b.iterations j (part j b)

variable {b t : Balancing}

theorem goingAll (balances : Balances channelMask gain (hardware.sample gain))
    (going : Going channelMask gain (hardware.sample gain) b) (j : Fin 32) :
    ∃ q, balancePart gain secant (kick (b.iterations+1)) (b.iterations+1 = 1) j (part j b) = .again q := by
  have step := balanceCases gain secant (kick (b.iterations+1)) (b.iterations+1 = 1) j (part j b)
  generalize balancePart gain secant (kick (b.iterations+1)) (b.iterations+1 = 1) j (part j b) = turn at step
  cases step with
  | off on start apart =>
    have zero : b.iterations = 0 := Nat.succ_injective (of_decide_eq_true start)
    obtain ⟨x1, x2⟩ := (going.parts j).points on.1
    rw [zero] at x1 x2
    obtain ⟨second, first, positive⟩ := apart
    rw [x2] at second
    rw [x1] at first
    rw [x1, x2] at positive
    rcases balances.straddled j ((going.parts j).masked on.1).1 with found | found | opposite
    · rw [first] at found
      contradiction
    · rw [second] at found
      contradiction
    · exact absurd positive opposite.not_gt
  | idle | second | first | pick => exact ⟨_, rfl⟩

theorem goingScanned (balances : Balances channelMask gain (hardware.sample gain))
    (going : Going channelMask gain (hardware.sample gain) b) (j : Fin 32) :
    GoingPart channelMask gain (hardware.sample gain) (b.iterations+1) j
      (updatedPart (hardware.sample gain (b.iterations+2) j) (part j (scanned secant kick gain b))) ∧
    ((part j (scanned secant kick gain b)).active = true → (part j (scanned secant kick gain b)).chan.tmpBal ≠ none) := by
  have parts := balanceParts gain secant (kick (b.iterations+1)) (b.iterations+1 = 1)
  have all (i : Fin 32) (_ : i ∈ List.finRange 32) : ∃ q, balancePart gain secant (kick (b.iterations+1))
      (b.iterations+1 = 1) i (part i { b with iterations := b.iterations+1 }) = .again q := goingAll balances going i
  obtain ⟨q, goes⟩ := all j (List.mem_finRange j)
  have own : part j (scanned secant kick gain b) = q := by
    refine (scanAll parts (List.nodup_finRange 32) all (List.mem_finRange j)).trans ?_
    rw [goes]
    rfl
  rw [own]
  exact goingPass (going.parts j) goes

theorem goingNext (balances : Balances channelMask gain (hardware.sample gain))
    (going : Going channelMask gain (hardware.sample gain) b) (few : b.iterations ≤ maxIterations)
    (next : Next secant kick hardware gain b t) (more : t.balancedChans ≠ channelMask) :
    Going channelMask gain (hardware.sample gain) t := by
  refine ⟨next.iterations ▸ Nat.succ_le_succ few, fun _ => more, fun j => ?_⟩
  rw [next.iterations, next.parts j]
  exact (goingScanned balances going j).1

end Enough

section Needed
variable {channelMask : BitVec 32} {secant : ℤ → ℤ → ℚ → ℚ → ℤ} {kick : ℕ → Fin 32 → ℤ} {hardware : Hardware} {gain : Gain}

variable {b t : Balancing}

structure Fine (links : Links) (gain : Gain) : Prop where
  points : links.points gain = .fine
  load : ∀ n, links.load gain n = .fine
  pedestal : ∀ n, links.pedestal gain n = .fine

end Needed

end PennDaq.CBalGuesses
