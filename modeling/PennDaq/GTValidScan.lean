import Mathlib.Data.Rat.Defs
import Mathlib.Tactic.Linarith
import Mathlib.Data.Fin.SuccPred
import Mathlib.Data.List.FinRange
import Mathlib.Logic.Function.Basic
import PennDaq.Lib.Mask
import PennDaq.Lib.Sweep

/-! The maximum scan of `GTValidTest`: for every channel the window and the ISETM value
with which each slot was first seen to be longer. -/
namespace PennDaq.GTValidScan
open Lib.Mask
open Lib.Sweep

def isetmMaxGtvalid : ℕ := 80
def gtMax : ℕ := 1000
def nGtvalid : ℕ := 20

abbrev Masks := Fin 20 → BitVec 32

abbrev Results := Fin 20 → Fin 16 → BitVec 32

/- `num_read >= NGTVALID*0.75`; in the FECD slot each pulse counts twice. -/
def Longer (crateNum : Fin 20) (slotNum : Fin 16) (result : BitVec 32) : Prop :=
  let numRead := (result &&& 0x000FFFFF#32).toNat/3
  if crateNum.val = 17 ∧ slotNum.val = 15 then 4*numRead ≥ 3*(2*nGtvalid) else 4*numRead ≥ 3*nGtvalid

instance (crateNum : Fin 20) (slotNum : Fin 16) (result : BitVec 32) : Decidable (Longer crateNum slotNum result) := by
  unfold Longer
  infer_instance

def isGTValidLonger (crateMask : BitVec 32) (slotMasks : Masks) (results : Results) (crateNum : Fin 20) : BitVec 16 :=
  if crateMask.getLsbD crateNum then
    orBits 0 (((List.finRange 16).filter fun slotNum : Fin 16 =>
      (slotMasks crateNum).getLsbD slotNum && Longer crateNum slotNum (results crateNum slotNum)).map Fin.val)
  else 0

structure Window where
  time : ℚ
  isetm : ℕ
  deriving DecidableEq, Repr

def defaultStep : Window := ⟨gtMax,isetmMaxGtvalid⟩

def scanSteps : List Window :=
  (List.range 8).flatMap fun k : ℕ => (List.range 50).map fun l : ℕ => ⟨1000-100*(k : ℚ),l*5⟩

/- One crate, for one channel. An element that has not been assigned is `none`. -/
structure CrateMax where
  notDoneMask : BitVec 32
  maxGtvalid : Fin 16 → Option ℚ
  maxIsetm : Fin 16 → Option (BitVec 16)

def slotTurn (islonger : BitVec 16) (w : Window) (c : CrateMax) (i : Fin 16) : CrateMax :=
  if c.notDoneMask.getLsbD i ∧ islonger.getLsbD i then
    { notDoneMask := c.notDoneMask &&& ~~~(islonger.setWidth 32)
      maxGtvalid := Function.update c.maxGtvalid i (some w.time)
      maxIsetm := Function.update c.maxIsetm i (some (BitVec.ofNat 16 w.isetm)) }
  else c

structure Crates (α : Type) where
  crates : Fin 20 → α
  crateNotDoneMask : BitVec 32

section Loop
variable {α : Type} (notDoneMask : α → BitVec 32)

def Crates.setCrate (s : Crates α) (crateNum : Fin 20) (c : α) : Crates α where
  crates := Function.update s.crates crateNum c
  crateNotDoneMask :=
    if notDoneMask c = 0 then s.crateNotDoneMask &&& ~~~(1#32 <<< crateNum.val) else s.crateNotDoneMask

def crateTurn (body : Fin 20 → α → α) (s : Crates α) (crateNum : Fin 20) : Crates α :=
  if s.crateNotDoneMask.getLsbD crateNum then s.setCrate notDoneMask crateNum (body crateNum (s.crates crateNum))
  else s

end Loop

abbrev Scan := Crates CrateMax

section Channel
variable (crateMask : BitVec 32) (slotMasks : Masks)

def firstCrate (slotMask : BitVec 32) (islonger : BitVec 16) : CrateMax where
  notDoneMask := slotMask &&& ~~~(islonger.setWidth 32)
  maxGtvalid i := if slotMask.getLsbD i ∧ islonger.getLsbD i then some gtMax else some 0
  maxIsetm i := if slotMask.getLsbD i ∧ islonger.getLsbD i then some (BitVec.ofNat 16 isetmMaxGtvalid) else none

def firstTurn (islonger : Fin 20 → BitVec 16) (s : Scan) (crateNum : Fin 20) : Scan :=
  if crateMask.getLsbD crateNum then
    s.setCrate CrateMax.notDoneMask crateNum (firstCrate (slotMasks crateNum) (islonger crateNum))
  else s

def scanStart (results : Results) : Scan :=
  (List.finRange 20).foldl (firstTurn crateMask slotMasks (isGTValidLonger crateMask slotMasks results))
    ⟨fun _ => ⟨0,fun _ => none,fun _ => none⟩,crateMask⟩

def scanStep (results : Results) (w : Window) (s : Scan) : Scan :=
  let islonger := isGTValidLonger crateMask (fun crateNum => (s.crates crateNum).notDoneMask) results
  (List.finRange 20).foldl
    (crateTurn CrateMax.notDoneMask fun crateNum => (List.finRange 16).foldl (slotTurn (islonger crateNum) w)) s

def scanFrom (results : ℕ → Results) : ℕ → List Window → Scan → Scan
  | _, [], s => s
  | n, w::later, s =>
    let s := scanStep crateMask (results n) w s
    if s.crateNotDoneMask = 0 then s else scanFrom results (n+1) later s

structure ChannelMax where
  maxGtvalid : Fin 20 → Fin 16 → Option ℚ
  maxIsetm : Fin 20 → Fin 16 → Option (BitVec 16)
  chanErrors : Fin 20 → Fin 16 → ℕ

def scanChannel (results : ℕ → Results) : ChannelMax :=
  let s := scanStart crateMask slotMasks (results 0)
  let s := if s.crateNotDoneMask = 0 then s else scanFrom crateMask results 1 scanSteps s
  { maxGtvalid := fun crateNum => (s.crates crateNum).maxGtvalid
    maxIsetm := fun crateNum => (s.crates crateNum).maxIsetm
    chanErrors := fun crateNum i =>
      if s.crateNotDoneMask.getLsbD crateNum ∧ (slotMasks crateNum).getLsbD i ∧
        (s.crates crateNum).maxGtvalid i = some 0 then 1 else 0 }

def maximumScan (channelMask : BitVec 32) (hardware : Fin 32 → ℕ → Results) (j : Fin 32) : ChannelMax :=
  if channelMask.getLsbD j then scanChannel crateMask slotMasks (hardware j)
  else ⟨fun _ _ => none,fun _ _ => none,fun _ _ => 0⟩

end Channel

theorem longerBit (crateMask : BitVec 32) (slotMasks : Masks) (results : Results) (crateNum : Fin 20) (i : Fin 16) :
    (isGTValidLonger crateMask slotMasks results crateNum).getLsbD i =
      (crateMask.getLsbD crateNum && ((slotMasks crateNum).getLsbD i &&
        decide (Longer crateNum i (results crateNum i)))) := by
  unfold isGTValidLonger
  cases crateMask.getLsbD crateNum with
  | false => exact BitVec.getLsbD_zero
  | true =>
    rw [if_pos rfl, orBitsBit _ _ i.isLt, Bool.true_and]
    simp [Fin.val_inj]

theorem slotsIdle {islonger : BitVec 16} {w : Window} {c : CrateMax} (items : List (Fin 16))
    (idle : ∀ i ∈ items, ¬ (c.notDoneMask.getLsbD i = true ∧ islonger.getLsbD i = true)) :
    items.foldl (slotTurn islonger w) c = c := by
  induction items with
  | nil => rfl
  | cons i later ih =>
    have skipped : slotTurn islonger w c i = c := if_neg (idle i List.mem_cons_self)
    rw [List.foldl_cons, skipped]
    exact ih fun i mem => idle i (List.mem_cons_of_mem _ mem)

def CrateMax.recorded (c : CrateMax) (islonger : BitVec 16) (w : Window) (i : Fin 16) : CrateMax where
  notDoneMask := c.notDoneMask &&& ~~~(islonger.setWidth 32)
  maxGtvalid := Function.update c.maxGtvalid i (some w.time)
  maxIsetm := Function.update c.maxIsetm i (some (BitVec.ofNat 16 w.isetm))

theorem clearedBit (mask : BitVec 32) (islonger : BitVec 16) (k : ℕ) :
    (mask &&& ~~~(islonger.setWidth 32)).getLsbD k = (mask.getLsbD k && !islonger.getLsbD k) := by
  rw [BitVec.getLsbD_and, BitVec.getLsbD_not, BitVec.getLsbD_setWidth]
  by_cases inside : k < 32
  · simp [inside]
  · rw [BitVec.getLsbD_of_ge mask k (Nat.le_of_not_lt inside), Bool.false_and, Bool.false_and]

theorem slotsLowest {islonger : BitVec 16} {w : Window} {c : CrateMax}
    (open' : ∀ i : Fin 16, islonger.getLsbD i = true → c.notDoneMask.getLsbD i = true) (items : List (Fin 16)) :
    items.foldl (slotTurn islonger w) c = match items.find? fun i : Fin 16 => islonger.getLsbD i with
      | none => c
      | some i => c.recorded islonger w i := by
  induction items with
  | nil => rfl
  | cons i later ih =>
    rw [List.foldl_cons, List.find?_cons]
    cases longer : islonger.getLsbD i with
    | false =>
      have skipped : slotTurn islonger w c i = c := if_neg fun both => by
        rw [longer] at both
        exact absurd both.2 (by decide)
      rw [skipped]
      exact ih
    | true =>
      have taken : slotTurn islonger w c i = c.recorded islonger w i := if_pos ⟨open' i longer, longer⟩
      rw [taken]
      refine slotsIdle later fun k _ both => ?_
      have cleared := both.1
      rw [CrateMax.recorded, clearedBit, both.2] at cleared
      simp at cleared

theorem lowestBelow {p : Fin 16 → Bool} {i : Fin 16} (found : (List.finRange 16).find? p = some i) :
    p i = true ∧ ∀ k < i, p k = false := by
  obtain ⟨holds, before, after, split, none'⟩ := List.find?_eq_some_iff_append.mp found
  refine ⟨holds, fun k less => ?_⟩
  have sorted := List.pairwise_lt_finRange 16
  rw [split, List.pairwise_append] at sorted
  have mem := List.mem_finRange k
  rw [split, List.mem_append] at mem
  rcases mem with mem | mem
  · simpa using none' k mem
  · rcases List.mem_cons.mp mem with rfl | mem
    · exact absurd less (lt_irrefl k)
    · exact absurd less (not_lt_of_gt ((List.pairwise_cons.mp sorted.2.1).1 k mem))

theorem lowestFound {p : Fin 16 → Bool} (i : Fin 16) :
    (List.finRange 16).find? p = some i ↔ p i = true ∧ ∀ k < i, p k = false := by
  refine ⟨lowestBelow, fun lowest => ?_⟩
  cases found : (List.finRange 16).find? p with
  | none => exact absurd lowest.1 (List.find?_eq_none.mp found i (List.mem_finRange i))
  | some k =>
    obtain ⟨holds, none'⟩ := lowestBelow found
    rcases lt_trichotomy k i with less | rfl | less
    · exact absurd holds (Bool.eq_false_iff.mp (lowest.2 k less))
    · rfl
    · exact absurd lowest.1 (Bool.eq_false_iff.mp (none' i less))

def allSteps : List Window := defaultStep::scanSteps

section Crate
variable (slotMask : BitVec 32) (longerAt : ℕ → Fin 16 → Bool)

def FirstAt (n : ℕ) (i : Fin 16) : Prop := longerAt n i = true ∧ ∀ m < n, longerAt m i = false

def Heads (n : ℕ) (i : Fin 16) : Prop := n = 0 ∨ ∀ k < i, slotMask.getLsbD k = true → ¬ FirstAt longerAt n k

def Assigned (n : ℕ) (c : CrateMax) (i : Fin 16) : Prop :=
  ∃ w, allSteps[n]? = some w ∧ c.maxGtvalid i = some w.time ∧ c.maxIsetm i = some (BitVec.ofNat 16 w.isetm)

structure Behind (n : ℕ) (c : CrateMax) : Prop where
  pending : ∀ i : Fin 16, c.notDoneMask.getLsbD i = true ↔ slotMask.getLsbD i = true ∧ ∀ m < n, longerAt m i = false
  high : ∀ k, 16 ≤ k → c.notDoneMask.getLsbD k = slotMask.getLsbD k
  found : ∀ i : Fin 16, slotMask.getLsbD i = true → ∀ m < n, FirstAt longerAt m i → Heads slotMask longerAt m i →
    Assigned m c i
  missed : ∀ i : Fin 16, slotMask.getLsbD i = true →
    (∀ m < n, FirstAt longerAt m i → ¬ Heads slotMask longerAt m i) → c.maxGtvalid i = some 0 ∧ c.maxIsetm i = none

variable {slotMask longerAt}

theorem firstOnce {m n : ℕ} {i : Fin 16} (a : FirstAt longerAt m i) (b : FirstAt longerAt n i) : m = n := by
  rcases lt_trichotomy m n with less | same | less
  · exact absurd a.1 (Bool.eq_false_iff.mp (b.2 m less))
  · exact same
  · exact absurd b.1 (Bool.eq_false_iff.mp (a.2 n less))

theorem someFirst {n : ℕ} {i : Fin 16} (longer : ∃ m < n, longerAt m i = true) : ∃ m < n, FirstAt longerAt m i := by
  obtain ⟨m, less, at'⟩ := longer
  have ever : ∃ m, longerAt m i = true := ⟨m, at'⟩
  refine ⟨Nat.find ever, (Nat.find_min' ever at').trans_lt less, Nat.find_spec ever, fun k below => ?_⟩
  exact Bool.eq_false_of_not_eq_true (Nat.find_min ever below)

theorem behindIdle {n n' : ℕ} {c : CrateMax} (behind : Behind slotMask longerAt n c) (done : c.notDoneMask = 0)
    (later : n ≤ n') : Behind slotMask longerAt n' c := by
  have early (i : Fin 16) (masked : slotMask.getLsbD i = true) : ∃ m < n, longerAt m i = true := by
    by_contra never
    have pending := (behind.pending i).mpr ⟨masked, fun m less => Bool.eq_false_of_not_eq_true fun at' => never ⟨m, less, at'⟩⟩
    rw [emptyBit done] at pending
    contradiction
  have first (i : Fin 16) (masked : slotMask.getLsbD i = true) (m : ℕ) (at' : FirstAt longerAt m i) : m < n := by
    obtain ⟨k, less, at''⟩ := someFirst (early i masked)
    exact firstOnce at' at'' ▸ less
  refine ⟨fun i => ?_, behind.high, fun i masked m _ at' => ?_, fun i masked none' => ?_⟩
  · rw [emptyBit done]
    refine iff_of_false (by decide) fun both => ?_
    obtain ⟨m, less, at'⟩ := early i both.1
    exact absurd at' (Bool.eq_false_iff.mp (both.2 m (less.trans_le later)))
  · exact behind.found i masked m (first i masked m at') at'
  · exact behind.missed i masked fun m less at' => none' m (less.trans_le later) at'

section Step
variable {n : ℕ} {c : CrateMax} {islonger : BitVec 16} (behind : Behind slotMask longerAt n c)
  (reported : ∀ i : Fin 16, islonger.getLsbD i = (c.notDoneMask.getLsbD i && longerAt n i))

include behind reported

theorem reportedFirst (i : Fin 16) :
    islonger.getLsbD i = true ↔ slotMask.getLsbD i = true ∧ FirstAt longerAt n i := by
  rw [reported, Bool.and_eq_true, behind.pending]
  exact ⟨fun both => ⟨both.1.1, both.2, both.1.2⟩, fun both => ⟨⟨both.1, both.2.2⟩, both.2.1⟩⟩

theorem pendingStep (i : Fin 16) : (c.notDoneMask.getLsbD i && !islonger.getLsbD i) = true ↔
    slotMask.getLsbD i = true ∧ ∀ m < n+1, longerAt m i = false := by
  have before := behind.pending i
  rw [reported]
  cases pending : c.notDoneMask.getLsbD i with
  | false =>
    rw [pending] at before
    refine iff_of_false (by simp) fun both => absurd (before.mpr ⟨both.1, fun m less => both.2 m (by omega)⟩) (by decide)
  | true =>
    obtain ⟨masked, none'⟩ := before.mp pending
    simp only [Bool.true_and, Bool.not_eq_true', masked, true_and]
    refine ⟨fun now m less => ?_, fun all => all n (Nat.lt_succ_self n)⟩
    rcases Nat.lt_succ_iff_lt_or_eq.mp less with less | rfl
    · exact none' m less
    · exact now

omit reported in
theorem highStep (k : ℕ) (high : 16 ≤ k) : (c.notDoneMask.getLsbD k && !islonger.getLsbD k) = slotMask.getLsbD k := by
  rw [BitVec.getLsbD_of_ge islonger k high, Bool.not_false, Bool.and_true, behind.high k high]

theorem silentStep (silent : ∀ i : Fin 16, islonger.getLsbD i = false) : Behind slotMask longerAt (n+1) c := by
  refine ⟨fun i => ?_, behind.high, fun i masked m less at' heads => ?_, fun i masked none' => ?_⟩
  · rw [← pendingStep behind reported i, silent, Bool.not_false, Bool.and_true]
  · rcases Nat.lt_succ_iff_lt_or_eq.mp less with less | rfl
    · exact behind.found i masked m less at' heads
    · exact absurd ((reportedFirst behind reported i).mpr ⟨masked, at'⟩) (Bool.eq_false_iff.mp (silent i))
  · exact behind.missed i masked fun m less => none' m (by omega)

theorem aheadLowest (some' : n ≠ 0) {i k : Fin 16}
    (lowest : (List.finRange 16).find? (fun i : Fin 16 => islonger.getLsbD i) = some i)
    (masked : slotMask.getLsbD k = true) (now : FirstAt longerAt n k) (ahead : Heads slotMask longerAt n k) : k = i := by
  have first := reportedFirst behind reported
  have below (l : Fin 16) (less : l < k) : islonger.getLsbD l = false := by
    refine Bool.eq_false_of_not_eq_true fun longer => ?_
    obtain ⟨masked, now⟩ := (first l).mp longer
    exact ahead.resolve_left some' l less masked now
  have found := (lowestFound (p := fun i : Fin 16 => islonger.getLsbD i) k).mpr ⟨(first k).mpr ⟨masked, now⟩, below⟩
  rw [lowest] at found
  exact (Option.some.inj found).symm

theorem recordedStep {w : Window} (window : allSteps[n]? = some w) (some' : n ≠ 0) {i : Fin 16}
    (lowest : (List.finRange 16).find? (fun i : Fin 16 => islonger.getLsbD i) = some i) :
    Behind slotMask longerAt (n+1) (c.recorded islonger w i) := by
  have first := reportedFirst behind reported
  obtain ⟨longer, none'⟩ := lowestBelow lowest
  obtain ⟨masked, now⟩ := (first i).mp longer
  have heads : Heads slotMask longerAt n i := .inr fun k less masked at' =>
    absurd ((first k).mpr ⟨masked, at'⟩) (Bool.eq_false_iff.mp (none' k less))
  have other {k : Fin 16} (different : k ≠ i) :
      (c.recorded islonger w i).maxGtvalid k = c.maxGtvalid k ∧ (c.recorded islonger w i).maxIsetm k = c.maxIsetm k :=
    ⟨Function.update_of_ne different .., Function.update_of_ne different ..⟩
  refine ⟨fun k => ?_, fun k high => ?_, fun k masked m less at' ahead => ?_, fun k masked unheaded => ?_⟩
  · change (c.notDoneMask &&& ~~~(islonger.setWidth 32)).getLsbD k = true ↔ _
    rw [clearedBit]
    exact pendingStep behind reported k
  · change (c.notDoneMask &&& ~~~(islonger.setWidth 32)).getLsbD k = _
    rw [clearedBit]
    exact highStep behind k high
  · by_cases same : k = i
    · subst same
      obtain rfl := firstOnce at' now
      exact ⟨w, window, Function.update_self .., Function.update_self ..⟩
    · obtain ⟨gtvalid, isetm⟩ := other same
      rcases Nat.lt_succ_iff_lt_or_eq.mp less with less | rfl
      · obtain ⟨v, window, values⟩ := behind.found k masked m less at' ahead
        exact ⟨v, window, gtvalid.trans values.1, isetm.trans values.2⟩
      · exact absurd (aheadLowest behind reported some' lowest masked at' ahead) same
  · have different : k ≠ i := by
      rintro rfl
      exact unheaded n (Nat.lt_succ_self n) now heads
    obtain ⟨zero, unset⟩ := behind.missed k masked fun m less => unheaded m (by omega)
    exact ⟨(other different).1.trans zero, (other different).2.trans unset⟩

theorem behindStep {w : Window} (window : allSteps[n]? = some w) (some' : n ≠ 0) :
    Behind slotMask longerAt (n+1) ((List.finRange 16).foldl (slotTurn islonger w) c) := by
  rw [slotsLowest fun i longer => (Bool.and_eq_true _ _ ▸ (reported i).symm.trans longer).1]
  cases lowest : (List.finRange 16).find? fun i : Fin 16 => islonger.getLsbD i with
  | none =>
    exact silentStep behind reported fun i =>
      Bool.eq_false_of_not_eq_true (List.find?_eq_none.mp lowest i (List.mem_finRange i))
  | some i => exact recordedStep behind reported window some' lowest

end Step

theorem behindFirst {islonger : BitVec 16}
    (reported : ∀ i : Fin 16, islonger.getLsbD i = (slotMask.getLsbD i && longerAt 0 i)) :
    Behind slotMask longerAt 1 (firstCrate slotMask islonger) := by
  refine ⟨fun i => ?_, fun k high => ?_, fun i masked m less at' heads => ?_, fun i masked none' => ?_⟩
  · rw [firstCrate, clearedBit, reported]
    simp +contextual
  · rw [firstCrate, clearedBit, BitVec.getLsbD_of_ge islonger k high, Bool.not_false, Bool.and_true]
  · obtain rfl := Nat.lt_one_iff.mp less
    have longer : islonger.getLsbD i = true := by rw [reported, masked, at'.1]; rfl
    exact ⟨defaultStep, rfl, if_pos ⟨masked, longer⟩, if_pos ⟨masked, longer⟩⟩
  · have short : ¬ (slotMask.getLsbD i = true ∧ islonger.getLsbD i = true) := by
      rintro ⟨-, longer⟩
      rw [reported, masked, Bool.true_and] at longer
      exact none' 0 (by decide) ⟨longer, fun m less => absurd less (Nat.not_lt_zero m)⟩ (.inl rfl)
    exact ⟨if_neg short, if_neg short⟩

end Crate

section Loop
variable {α : Type} {notDoneMask : α → BitVec 32}

def crateView (crateNum : Fin 20) (s : Crates α) : α × Bool := (s.crates crateNum,s.crateNotDoneMask.getLsbD crateNum)

theorem setCrateOwn (s : Crates α) (crateNum : Fin 20) (c : α) :
    crateView crateNum (s.setCrate notDoneMask crateNum c) =
      (c,s.crateNotDoneMask.getLsbD crateNum && decide (notDoneMask c ≠ 0)) := by
  have bit := writtenBit s.crateNotDoneMask false crateNum (show crateNum.val < 32 by omega)
  simp only [Bool.false_eq_true, if_false, if_true] at bit
  refine Prod.ext (Function.update_self ..) ?_
  simp only [crateView, Crates.setCrate]
  split
  · rename_i done
    rw [bit, decide_eq_false (not_not_intro done), Bool.and_false]
  · rename_i more
    rw [decide_eq_true more, Bool.and_true]

theorem setCrateBit (s : Crates α) (crateNum : Fin 20) (c : α) {k : ℕ} (inside : k < 32) (different : k ≠ crateNum) :
    (s.setCrate notDoneMask crateNum c).crateNotDoneMask.getLsbD k = s.crateNotDoneMask.getLsbD k := by
  have bit := writtenBit s.crateNotDoneMask false crateNum inside
  simp only [Bool.false_eq_true, if_false, different] at bit
  simp only [Crates.setCrate]
  split
  · exact bit
  · rfl

theorem setCrateOther (s : Crates α) {crateNum other : Fin 20} (different : other ≠ crateNum) (c : α) :
    crateView other (s.setCrate notDoneMask crateNum c) = crateView other s :=
  Prod.ext (Function.update_of_ne different ..)
    (setCrateBit s crateNum c (by omega) fun same => different (Fin.ext same))

variable (body : Fin 20 → α → α)

theorem crateApart : Apart (crateTurn notDoneMask body) crateView := by
  intro s i j different
  unfold crateTurn
  split
  · exact setCrateOther s different _
  · rfl

theorem crateGoing {s : Crates α} {crateNum : Fin 20} (more : s.crateNotDoneMask.getLsbD crateNum = true) :
    crateView crateNum (crateTurn notDoneMask body s crateNum) =
      (body crateNum (s.crates crateNum),decide (notDoneMask (body crateNum (s.crates crateNum)) ≠ 0)) := by
  rw [crateTurn, if_pos more, setCrateOwn, more, Bool.true_and]

theorem crateDone {s : Crates α} {crateNum : Fin 20} (done : s.crateNotDoneMask.getLsbD crateNum = false) :
    crateTurn notDoneMask body s crateNum = s := by
  rw [crateTurn, done]
  rfl

theorem crateLocal : Local (crateTurn notDoneMask body) crateView := by
  intro s s' i same
  obtain ⟨crate, bit⟩ := Prod.mk.inj same
  cases more : s.crateNotDoneMask.getLsbD i with
  | true => rw [crateGoing body more, crateGoing body (bit ▸ more), crate]
  | false => rw [crateDone body more, crateDone body (bit ▸ more), same]

theorem cratesTurned (s : Crates α) (crateNum : Fin 20) :
    crateView crateNum ((List.finRange 20).foldl (crateTurn notDoneMask body) s) =
      crateView crateNum (crateTurn notDoneMask body s crateNum) :=
  sweepOwn (crateApart body) (crateLocal body) (List.nodup_finRange 20) (List.mem_finRange crateNum) s

end Loop

section First
variable (crateMask : BitVec 32) (slotMasks : Masks) (islonger : Fin 20 → BitVec 16)

theorem firstApart : Apart (firstTurn crateMask slotMasks islonger) crateView := by
  intro s i j different
  unfold firstTurn
  split
  · exact setCrateOther s different _
  · rfl

theorem firstOwn (s : Scan) (crateNum : Fin 20) (masked : crateMask.getLsbD crateNum = true) :
    crateView crateNum (firstTurn crateMask slotMasks islonger s crateNum) =
      (firstCrate (slotMasks crateNum) (islonger crateNum),
        (crateView crateNum s).2 && decide ((firstCrate (slotMasks crateNum) (islonger crateNum)).notDoneMask ≠ 0)) := by
  rw [firstTurn, if_pos masked, setCrateOwn]
  rfl

theorem firstLocal : Local (firstTurn crateMask slotMasks islonger) crateView := by
  intro s s' i same
  cases masked : crateMask.getLsbD i with
  | true => rw [firstOwn _ _ _ s i masked, firstOwn _ _ _ s' i masked, same]
  | false =>
    unfold firstTurn
    rw [masked, if_neg (by decide), if_neg (by decide), same]

end First

section Runs
variable {crateMask : BitVec 32} {slotMasks : Masks} {results : ℕ → Results}

def longerAt (results : ℕ → Results) (crateNum : Fin 20) (n : ℕ) (i : Fin 16) : Bool :=
  Longer crateNum i (results n crateNum i)

def Scanned (crateMask : BitVec 32) (slotMasks : Masks) (results : ℕ → Results) (n : ℕ) (s : Scan) : Prop :=
  ∀ crateNum : Fin 20, crateMask.getLsbD crateNum = true →
    Behind (slotMasks crateNum) (longerAt results crateNum) n (s.crates crateNum) ∧
      s.crateNotDoneMask.getLsbD crateNum = decide ((s.crates crateNum).notDoneMask ≠ 0)

theorem scannedFirst : Scanned crateMask slotMasks results 1 (scanStart crateMask slotMasks (results 0)) := by
  intro crateNum masked
  have view := sweepOwn (firstApart crateMask slotMasks (isGTValidLonger crateMask slotMasks (results 0)))
    (firstLocal crateMask slotMasks _) (List.nodup_finRange 20) (List.mem_finRange crateNum)
    ⟨fun _ => ⟨0,fun _ => none,fun _ => none⟩,crateMask⟩
  rw [firstOwn _ _ _ _ _ masked, ← scanStart] at view
  obtain ⟨crate, bit⟩ := Prod.mk.inj view
  simp only [crateView, masked, Bool.true_and] at bit
  rw [crate]
  refine ⟨behindFirst fun i => ?_, bit⟩
  rw [longerBit, masked, Bool.true_and]
  rfl

theorem scannedStep {n : ℕ} {s : Scan} {w : Window} (scanned : Scanned crateMask slotMasks results n s)
    (window : allSteps[n]? = some w) (some' : n ≠ 0) :
    Scanned crateMask slotMasks results (n+1) (scanStep crateMask (results n) w s) := by
  intro crateNum masked
  obtain ⟨behind, bit⟩ := scanned crateNum masked
  have view : crateView crateNum (scanStep crateMask (results n) w s) = _ := cratesTurned _ s crateNum
  cases more : s.crateNotDoneMask.getLsbD crateNum with
  | true =>
    rw [crateGoing _ more] at view
    obtain ⟨crate, bit⟩ := Prod.mk.inj view
    rw [crate]
    refine ⟨behindStep behind (fun i => ?_) window some', bit⟩
    rw [longerBit, masked, Bool.true_and]
    rfl
  | false =>
    rw [crateDone _ more] at view
    obtain ⟨crate, kept⟩ := Prod.mk.inj view
    rw [more] at bit
    have done : (s.crates crateNum).notDoneMask = 0 := not_not.mp (of_decide_eq_false bit.symm)
    rw [crate, kept, more]
    exact ⟨behindIdle behind done (Nat.le_succ n), bit⟩

theorem scannedEarly {n n' : ℕ} {s : Scan} (scanned : Scanned crateMask slotMasks results n s)
    (done : s.crateNotDoneMask = 0) (later : n ≤ n') : Scanned crateMask slotMasks results n' s := by
  intro crateNum masked
  obtain ⟨behind, bit⟩ := scanned crateNum masked
  refine ⟨behindIdle behind ?_ later, bit⟩
  rw [emptyBit done] at bit
  exact not_not.mp (of_decide_eq_false bit.symm)

theorem scannedFrom {later : List Window} {n : ℕ} {s : Scan} (scanned : Scanned crateMask slotMasks results n s)
    (some' : n ≠ 0) (windows : allSteps.drop n = later) :
    Scanned crateMask slotMasks results (n + later.length) (scanFrom crateMask results n later s) := by
  induction later generalizing n s with
  | nil => exact scanned
  | cons w later ih =>
    have window : allSteps[n]? = some w := by
      rw [← List.head?_drop, windows]
      rfl
    have rest : allSteps.drop (n+1) = later := by
      rw [← List.drop_drop, windows]
      rfl
    have step := scannedStep scanned window some'
    unfold scanFrom
    simp only
    split
    · rename_i done
      exact scannedEarly step done (by rw [List.length_cons]; omega)
    · have from' := ih step (Nat.succ_ne_zero n) rest
      rwa [Nat.add_assoc, Nat.add_comm 1, ← List.length_cons (a := w)] at from'

end Runs

theorem allStepsLength : allSteps.length = 401 := by
  simp [allSteps, scanSteps, List.length_flatMap]

theorem windowPositive : ∀ w ∈ allSteps, w.time ≠ 0 := by
  intro w mem
  rcases List.mem_cons.mp mem with rfl | mem
  · norm_num [defaultStep, gtMax]
  · obtain ⟨k, small, mem⟩ := List.mem_flatMap.mp mem
    obtain ⟨l, -, rfl⟩ := List.mem_map.mp mem
    have below : (k : ℚ) < 8 := by exact_mod_cast List.mem_range.mp small
    exact ne_of_gt (by linarith : (0 : ℚ) < 1000-100*k)

section Settled
variable (slotMask : BitVec 32) (longerAt : ℕ → Fin 16 → Bool)

/- The slot has the window and the ISETM value of the first step at which it was
longer, or is in error. -/
def Settled (maxGtvalid : Option ℚ) (maxIsetm : Option (BitVec 16)) (chanError : ℕ) (i : Fin 16) : Prop :=
  (∃ n w, allSteps[n]? = some w ∧ FirstAt longerAt n i ∧ maxGtvalid = some w.time ∧
    maxIsetm = some (BitVec.ofNat 16 w.isetm)) ∨ chanError = 1

/- The crate has a slot that never is done, or no two of its slots are first longer in
the same step behind the default one. -/
def Separate : Prop :=
  (∃ k, 16 ≤ k ∧ slotMask.getLsbD k = true) ∨
    (∃ i : Fin 16, slotMask.getLsbD i = true ∧ ∀ n < allSteps.length, longerAt n i = false) ∨
    ∀ n < allSteps.length, n ≠ 0 → ∀ i k : Fin 16, slotMask.getLsbD i = true → slotMask.getLsbD k = true →
      FirstAt longerAt n i → FirstAt longerAt n k → i = k

variable {slotMask longerAt} {c : CrateMax} (behind : Behind slotMask longerAt allSteps.length c)

include behind

theorem headedAssigned {i : Fin 16} (masked : slotMask.getLsbD i = true) :
    (∃ n w, allSteps[n]? = some w ∧ FirstAt longerAt n i ∧ c.maxGtvalid i = some w.time ∧
      c.maxIsetm i = some (BitVec.ofNat 16 w.isetm)) ↔
    ∃ n < allSteps.length, FirstAt longerAt n i ∧ Heads slotMask longerAt n i := by
  constructor
  · rintro ⟨n, w, window, first, gtvalid, -⟩
    refine ⟨n, (List.getElem?_eq_some_iff.mp window).1, first, ?_⟩
    by_contra unheaded
    have zero := (behind.missed i masked fun m _ at' => firstOnce first at' ▸ unheaded).1
    rw [gtvalid] at zero
    exact windowPositive w (List.mem_of_getElem? window) (Option.some.inj zero)
  · rintro ⟨n, less, first, heads⟩
    obtain ⟨w, window, values⟩ := behind.found i masked n less first heads
    exact ⟨n, w, window, first, values⟩

theorem unheadedZero {i : Fin 16} (masked : slotMask.getLsbD i = true)
    (none' : ¬ ∃ n < allSteps.length, FirstAt longerAt n i ∧ Heads slotMask longerAt n i) : c.maxGtvalid i = some 0 :=
  (behind.missed i masked fun n less first heads => none' ⟨n, less, first, heads⟩).1

theorem headedSet {i : Fin 16} (masked : slotMask.getLsbD i = true) :
    (∃ value, c.maxIsetm i = some value) ↔ ∃ n < allSteps.length, FirstAt longerAt n i ∧ Heads slotMask longerAt n i := by
  constructor
  · rintro ⟨value, set⟩
    by_contra none'
    have unset := (behind.missed i masked fun n less first heads => none' ⟨n, less, first, heads⟩).2
    rw [unset] at set
    contradiction
  · rintro ⟨n, less, first, heads⟩
    obtain ⟨w, -, -, isetm⟩ := behind.found i masked n less first heads
    exact ⟨_, isetm⟩

theorem openSeparate (more : c.notDoneMask ≠ 0) : Separate slotMask longerAt := by
  obtain ⟨k, bit⟩ := someBit more
  by_cases high : 16 ≤ k
  · exact .inl ⟨k, high, behind.high k high ▸ bit⟩
  · exact .inr (.inl ⟨⟨k, by omega⟩, (behind.pending ⟨k, by omega⟩).mp bit⟩)

theorem doneSeparate (done : c.notDoneMask = 0) : Separate slotMask longerAt ↔
    ∀ i : Fin 16, slotMask.getLsbD i = true → ∃ n < allSteps.length, FirstAt longerAt n i ∧ Heads slotMask longerAt n i := by
  constructor
  · rintro (⟨k, high, bit⟩ | ⟨i, never⟩ | apart) i masked
    · rw [← behind.high k high, emptyBit done] at bit
      contradiction
    · have pending := (behind.pending _).mpr never
      rw [emptyBit done] at pending
      contradiction
    · obtain ⟨n, less, first⟩ : ∃ n < allSteps.length, FirstAt longerAt n i := by
        refine someFirst (by_contra fun never => ?_)
        have pending := (behind.pending i).mpr
          ⟨masked, fun m less => Bool.eq_false_of_not_eq_true fun at' => never ⟨m, less, at'⟩⟩
        rw [emptyBit done] at pending
        contradiction
      refine ⟨n, less, first, or_iff_not_imp_left.mpr fun some' k below other at' => ?_⟩
      exact absurd (apart n less some' k i other masked at' first) (ne_of_lt below)
  · intro all
    -- Of two slots the later one does not head its step.
    have behindOther {n : ℕ} (some' : n ≠ 0) {i k : Fin 16} (masked : slotMask.getLsbD i = true)
        (masked' : slotMask.getLsbD k = true) (first : FirstAt longerAt n i) (first' : FirstAt longerAt n k) : ¬ i < k := by
      intro less
      obtain ⟨m, -, at', heads⟩ := all k masked'
      obtain rfl := firstOnce first' at'
      exact heads.resolve_left some' i less masked first
    refine .inr (.inr fun n _ some' i k masked masked' first first' => ?_)
    exact le_antisymm (not_lt.mp (behindOther some' masked' masked first' first))
      (not_lt.mp (behindOther some' masked masked' first first'))

theorem crateSettled {bit : Bool} (open' : bit = decide (c.notDoneMask ≠ 0)) :
    (∀ i : Fin 16, slotMask.getLsbD i = true → Settled longerAt (c.maxGtvalid i) (c.maxIsetm i)
      (if bit ∧ slotMask.getLsbD i ∧ c.maxGtvalid i = some 0 then 1 else 0) i) ↔ Separate slotMask longerAt := by
  by_cases done : c.notDoneMask = 0
  · rw [doneSeparate behind done]
    refine forall₂_congr fun i masked => ?_
    rw [open', decide_eq_false (not_not_intro done), Settled, headedAssigned behind masked]
    simp
  · refine iff_of_true (fun i masked => ?_) (openSeparate behind done)
    rw [open', decide_eq_true done, Settled, headedAssigned behind masked]
    refine or_iff_not_imp_left.mpr fun none' => if_pos ⟨rfl, masked, unheadedZero behind masked none'⟩

end Settled

def CrateSettled (max : ChannelMax) (slotMasks : Masks) (results : ℕ → Results) (crateNum : Fin 20) : Prop :=
  ∀ i : Fin 16, (slotMasks crateNum).getLsbD i = true → Settled (longerAt results crateNum)
    (max.maxGtvalid crateNum i) (max.maxIsetm crateNum i) (max.chanErrors crateNum i) i

theorem scannedAll (crateMask : BitVec 32) (slotMasks : Masks) (results : ℕ → Results) {s : Scan}
    (start : s = scanStart crateMask slotMasks (results 0)) :
    Scanned crateMask slotMasks results allSteps.length
      (if s.crateNotDoneMask = 0 then s else scanFrom crateMask results 1 scanSteps s) := by
  subst start
  split
  · rename_i done
    exact scannedEarly scannedFirst done (by rw [allStepsLength]; decide)
  · have first : Scanned crateMask slotMasks results 1 (scanStart crateMask slotMasks (results 0)) := scannedFirst
    have scanned := scannedFrom first Nat.one_ne_zero (rfl : allSteps.drop 1 = scanSteps)
    rwa [Nat.add_comm, ← List.length_cons (a := defaultStep)] at scanned

theorem channelSettled {crateMask : BitVec 32} (slotMasks : Masks) (results : ℕ → Results) {crateNum : Fin 20}
    (masked : crateMask.getLsbD crateNum = true) :
    CrateSettled (scanChannel crateMask slotMasks results) slotMasks results crateNum ↔
      Separate (slotMasks crateNum) (longerAt results crateNum) := by
  obtain ⟨behind, bit⟩ := scannedAll crateMask slotMasks results rfl crateNum masked
  exact crateSettled behind bit

def MaximumFound (slotMasks : Masks) (channelMask : BitVec 32) (hardware : Fin 32 → ℕ → Results) (j : Fin 32)
    (crateNum : Fin 20) (i : Fin 16) : Prop :=
  channelMask.getLsbD j = true ∧ ∃ n < allSteps.length, FirstAt (longerAt (hardware j) crateNum) n i ∧
    Heads (slotMasks crateNum) (longerAt (hardware j) crateNum) n i

theorem maximumSet {crateMask : BitVec 32} {slotMasks : Masks} (channelMask : BitVec 32)
    (hardware : Fin 32 → ℕ → Results) (j : Fin 32) {crateNum : Fin 20} {i : Fin 16}
    (crate : crateMask.getLsbD crateNum = true) (slot : (slotMasks crateNum).getLsbD i = true) :
    (∃ value, (maximumScan crateMask slotMasks channelMask hardware j).maxIsetm crateNum i = some value) ↔
      MaximumFound slotMasks channelMask hardware j crateNum i := by
  unfold maximumScan MaximumFound
  cases channelMask.getLsbD j with
  | true =>
    obtain ⟨behind, -⟩ := scannedAll crateMask slotMasks (hardware j) rfl crateNum crate
    rw [if_pos rfl]
    exact (headedSet behind slot).trans ⟨fun found => ⟨rfl, found⟩, And.right⟩
  | false =>
    refine iff_of_false ?_ fun both => absurd both.1 (by decide)
    rintro ⟨value, set⟩
    cases set

/- The scan settles all channels exactly if no two slots of a crate that gets done are
first longer in the same step. -/
theorem maximumSettled (crateMask : BitVec 32) (slotMasks : Masks) (channelMask : BitVec 32)
    (hardware : Fin 32 → ℕ → Results) :
    (∀ (j : Fin 32) (crateNum : Fin 20), channelMask.getLsbD j = true → crateMask.getLsbD crateNum = true →
      CrateSettled (maximumScan crateMask slotMasks channelMask hardware j) slotMasks (hardware j) crateNum) ↔
    ∀ (j : Fin 32) (crateNum : Fin 20), channelMask.getLsbD j = true → crateMask.getLsbD crateNum = true →
      Separate (slotMasks crateNum) (longerAt (hardware j) crateNum) := by
  refine forall₂_congr fun j crateNum => forall₂_congr fun scanned masked => ?_
  rw [maximumScan, if_pos scanned]
  exact channelSettled slotMasks (hardware j) masked

/- Slots 0 and 1 of crate 0 are longer for the first time in the same step. -/
theorem secondSlotLost :
    ¬ CrateSettled (maximumScan 1 (fun _ => 3) 1 (fun _ n _ _ => if n = 1 then 60 else 0) 0) (fun _ => 3)
      (fun n _ _ => if n = 1 then 60 else 0) 0 := by
  rw [maximumScan, if_pos (by decide), channelSettled _ _ (by decide)]
  have first : ∀ i : Fin 16, FirstAt (longerAt (fun n _ _ => if n = 1 then 60 else 0) 0) 1 i := by
    intro i
    refine ⟨?_, fun m less => ?_⟩
    · revert i
      decide
    · obtain rfl := Nat.lt_one_iff.mp less
      revert i
      decide
  rintro (⟨k, high, bit⟩ | ⟨i, -, never⟩ | apart)
  · have outside := highBit (by decide : (3#32).toNat < 2^16) high
    exact absurd (outside.symm.trans bit) Bool.false_ne_true
  · have silent := never 1 (by rw [allStepsLength]; decide)
    rw [(first i).1] at silent
    contradiction
  · exact absurd (apart 1 (by rw [allStepsLength]; decide) Nat.one_ne_zero 0 1 (by decide) (by decide) (first 0) (first 1))
      (by decide)

end PennDaq.GTValidScan
