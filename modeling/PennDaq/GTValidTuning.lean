import PennDaq.GTValidScan
import PennDaq.Lib.Loop

/-! The tuning passes of `GTValidTest`: for each TAC ISETM is raised, channel by channel,
until the window of no slot is longer than the cutoff any more. -/
namespace PennDaq.GTValidTuning
open Lib.Loop
open Lib.Mask
open Lib.Sweep
open GTValidScan

def isetmMin : ℕ := 155

structure CrateTuning where
  isetm : Fin 16 → BitVec 16
  notDoneMask : BitVec 32

def tuneSlot (islonger : BitVec 16) (c : CrateTuning) (i : Fin 16) : CrateTuning :=
  let clear := c.notDoneMask &&& ~~~(1#32 <<< i.val)
  if c.notDoneMask.getLsbD i then
    if islonger.getLsbD i then
      { isetm := Function.update c.isetm i (c.isetm i + 1)
        notDoneMask := if (c.isetm i + 1).toNat = 255 then clear else c.notDoneMask }
    else { c with notDoneMask := clear }
  else c

structure Tuning where
  crates : Crates CrateTuning
  calls : ℕ

section Hardware
variable (crateMask : BitVec 32) (slotMasks : Masks) (results : ℕ → Results)

def tuningPass (s : Tuning) : Tuning :=
  let islonger := isGTValidLonger crateMask (fun crateNum => (s.crates.crates crateNum).notDoneMask) (results s.calls)
  { crates := (List.finRange 20).foldl
      (crateTurn CrateTuning.notDoneMask fun crateNum => (List.finRange 16).foldl (tuneSlot (islonger crateNum))) s.crates
    calls := s.calls+1 }

def tuningTurn (s : Tuning) : Turn Tuning Tuning :=
  if s.crates.crateNotDoneMask = 0 then .stop s else .again (tuningPass crateMask results s)

structure Tac where
  isetm : Fin 20 → Fin 16 → BitVec 16
  calls : ℕ

def Tac.enter (t : Tac) : Tuning := ⟨⟨fun crateNum => ⟨t.isetm crateNum,slotMasks crateNum⟩,crateMask⟩,t.calls⟩

def leave (s : Tuning) : Tac := ⟨fun crateNum => (s.crates.crates crateNum).isetm,s.calls⟩

def tacStart : Tac := ⟨fun _ _ => BitVec.ofNat 16 isetmMin,0⟩

/- The channels of the two passes; no channel mask is looked at. -/
def tuningChannels : List (Fin 32) := List.finRange 32 ++ List.finRange 32

end Hardware

section Wanted
variable (crateMask : BitVec 32) (slotMasks : Masks) (maxIsetm : Fin 32 → Fin 20 → Fin 16 → Option (BitVec 16))
  (results : ℕ → Results)

def Masked (crateNum : Fin 20) (i : Fin 16) : Prop :=
  crateMask.getLsbD crateNum = true ∧ (slotMasks crateNum).getLsbD i = true

def LoadsSet (j : Fin 32) : Prop :=
  ∀ crateNum i, Masked crateMask slotMasks crateNum i → ∃ value, maxIsetm j crateNum i = some value

/- A loop over one channel makes at most `256-ISETM_MIN` passes, and none of them takes
a value down or above 255. -/
structure LoopSafe (start : Tuning) : Prop where
  passes : ∀ n t, Reaches (tuningTurn crateMask results) start n t → n ≤ 256-isetmMin
  grows : ∀ n t u, Reaches (tuningTurn crateMask results) start n t → tuningTurn crateMask results t = .again u →
    ∀ crateNum i, Masked crateMask slotMasks crateNum i →
      ((t.crates.crates crateNum).isetm i).toNat ≤ ((u.crates.crates crateNum).isetm i).toNat ∧
        ((u.crates.crates crateNum).isetm i).toNat ≤ 255

def TacSafe : List (Fin 32) → Tac → Prop
  | [], _ => True
  | j::later, t => LoadsSet crateMask slotMasks maxIsetm j ∧
    LoopSafe crateMask slotMasks results (t.enter crateMask slotMasks) ∧
    ∀ after, Ends (tuningTurn crateMask results) (t.enter crateMask slotMasks) after → TacSafe later (leave after)

/- No crate and no slot that the loops never look at. -/
def MasksFit : Prop :=
  (∀ k, 20 ≤ k → crateMask.getLsbD k = false) ∧
    ∀ crateNum : Fin 20, crateMask.getLsbD crateNum = true → ∀ k, 16 ≤ k → (slotMasks crateNum).getLsbD k = false

/- No slot that is at the limit already is longer in the first measurement. -/
def BelowLimit (t : Tac) : Prop :=
  ∀ crateNum i, Masked crateMask slotMasks crateNum i → (t.isetm crateNum i).toNat = 255 →
    ¬ Longer crateNum i (results t.calls crateNum i)

def TacClear (found : Fin 32 → Fin 20 → Fin 16 → Prop) : List (Fin 32) → Tac → Prop
  | [], _ => True
  | j::later, t => (∀ crateNum i, Masked crateMask slotMasks crateNum i → found j crateNum i) ∧
    (MasksFit crateMask slotMasks ∧ BelowLimit crateMask slotMasks results t) ∧
    ∀ after, Ends (tuningTurn crateMask results) (t.enter crateMask slotMasks) after →
      TacClear found later (leave after)

end Wanted

def slotView (i : Fin 16) (c : CrateTuning) : BitVec 16 × Bool := (c.isetm i,c.notDoneMask.getLsbD i)

def tuneView (longer : Bool) (v : BitVec 16 × Bool) : BitVec 16 × Bool :=
  if v.2 then if longer then (v.1+1,decide ((v.1+1).toNat ≠ 255)) else (v.1,false) else v

theorem slotApart (islonger : BitVec 16) : Apart (tuneSlot islonger) slotView := by
  intro c i j different
  have bit := writtenBit c.notDoneMask false i (show j.val < 32 by omega)
  simp only [Bool.false_eq_true, if_false, Fin.val_inj, different] at bit
  unfold tuneSlot slotView
  simp only
  split
  · split
    · simp only [Function.update_of_ne different]
      split
      · rw [bit]
      · rfl
    · simp only [bit]
  · rfl

theorem slotOwn (islonger : BitVec 16) (c : CrateTuning) (i : Fin 16) :
    slotView i (tuneSlot islonger c i) = tuneView (islonger.getLsbD i) (slotView i c) := by
  have bit := writtenBit c.notDoneMask false i (show i.val < 32 by omega)
  simp only [Bool.false_eq_true, if_false, if_true] at bit
  unfold tuneSlot tuneView slotView
  simp only
  split
  · rename_i open'
    split
    · simp only [Function.update_self]
      split
      · rename_i full
        rw [bit, decide_eq_false (not_not_intro full)]
      · rename_i more
        rw [open', decide_eq_true more]
    · simp only [bit]
  · rfl

theorem slotLocal (islonger : BitVec 16) : Local (tuneSlot islonger) slotView := by
  intro c c' i same
  rw [slotOwn, slotOwn, same]

theorem slotsTuned (islonger : BitVec 16) (c : CrateTuning) (i : Fin 16) :
    slotView i ((List.finRange 16).foldl (tuneSlot islonger) c) = tuneView (islonger.getLsbD i) (slotView i c) := by
  rw [sweepOwn (slotApart islonger) (slotLocal islonger) (List.nodup_finRange 16) (List.mem_finRange i), slotOwn]

theorem slotsHigh (islonger : BitVec 16) (c : CrateTuning) {k : ℕ} (high : 16 ≤ k) :
    ((List.finRange 16).foldl (tuneSlot islonger) c).notDoneMask.getLsbD k = c.notDoneMask.getLsbD k := by
  refine sweepKeeps (fun c : CrateTuning => c.notDoneMask.getLsbD k) (fun c i => ?_) (List.finRange 16) c
  have clear : (c.notDoneMask &&& ~~~(1#32 <<< i.val)).getLsbD k = c.notDoneMask.getLsbD k := by
    by_cases inside : k < 32
    · have bit := writtenBit c.notDoneMask false i inside
      simpa [show k ≠ i.val by omega] using bit
    · rw [BitVec.getLsbD_of_ge _ k (Nat.le_of_not_lt inside), BitVec.getLsbD_of_ge _ k (Nat.le_of_not_lt inside)]
  unfold tuneSlot
  simp only
  split
  · split
    · split
      · exact clear
      · rfl
    · exact clear
  · rfl

section Pass
variable {crateMask : BitVec 32} {slotMasks : Masks} {results : ℕ → Results} {s : Tuning} {crateNum : Fin 20}

def crateOf (s : Tuning) (crateNum : Fin 20) : CrateTuning := s.crates.crates crateNum

def Open (s : Tuning) (crateNum : Fin 20) : Prop := s.crates.crateNotDoneMask.getLsbD crateNum = true

theorem openCrate (open' : Open s crateNum) :
    (crateOf (tuningPass crateMask results s) crateNum = (List.finRange 16).foldl (tuneSlot
      (isGTValidLonger crateMask (fun crateNum => (crateOf s crateNum).notDoneMask) (results s.calls) crateNum))
      (crateOf s crateNum)) ∧
    (Open (tuningPass crateMask results s) crateNum ↔
      (crateOf (tuningPass crateMask results s) crateNum).notDoneMask ≠ 0) := by
  have view : crateView crateNum (tuningPass crateMask results s).crates = _ := cratesTurned _ s.crates crateNum
  rw [crateGoing _ open'] at view
  obtain ⟨crate, bit⟩ := Prod.mk.inj view
  refine ⟨crate, ?_⟩
  rw [Open, bit, crateOf, crate, decide_eq_true_eq]

theorem closedCrate (closed : ¬ Open s crateNum) :
    crateOf (tuningPass crateMask results s) crateNum = crateOf s crateNum ∧
      ¬ Open (tuningPass crateMask results s) crateNum := by
  have view : crateView crateNum (tuningPass crateMask results s).crates = _ := cratesTurned _ s.crates crateNum
  rw [crateDone _ (Bool.eq_false_of_not_eq_true closed)] at view
  obtain ⟨crate, bit⟩ := Prod.mk.inj view
  exact ⟨crate, fun open' => closed (bit.symm.trans open')⟩

def Settled (s : Tuning) (crateNum : Fin 20) : Prop := ¬ Open s crateNum → (crateOf s crateNum).notDoneMask = 0

theorem passSettled (settled : Settled s crateNum) : Settled (tuningPass crateMask results s) crateNum := by
  intro closed
  by_cases open' : Open s crateNum
  · exact not_not.mp (mt (openCrate open').2.mpr closed)
  · rw [(closedCrate open').1]
    exact settled open'

theorem passSlot (results : ℕ → Results) (masked : crateMask.getLsbD crateNum = true) (settled : Settled s crateNum)
    (i : Fin 16) :
    slotView i (crateOf (tuningPass crateMask results s) crateNum) =
      tuneView (Longer crateNum i (results s.calls crateNum i)) (slotView i (crateOf s crateNum)) := by
  by_cases open' : Open s crateNum
  · rw [(openCrate open').1, slotsTuned, longerBit, masked, Bool.true_and]
    unfold tuneView slotView
    simp only
    split
    · rename_i bit
      rw [bit, Bool.true_and]
    · rfl
  · rw [(closedCrate open').1, tuneView, slotView, emptyBit (settled open')]
    rfl

theorem passHigh (crateMask : BitVec 32) (results : ℕ → Results) {k : ℕ} (high : 16 ≤ k) :
    (crateOf (tuningPass crateMask results s) crateNum).notDoneMask.getLsbD k =
      (crateOf s crateNum).notDoneMask.getLsbD k := by
  by_cases open' : Open s crateNum
  · rw [(openCrate open').1, slotsHigh _ _ high]
  · rw [(closedCrate open').1]

theorem passBits {k : ℕ} (high : 20 ≤ k) :
    (tuningPass crateMask results s).crates.crateNotDoneMask.getLsbD k = s.crates.crateNotDoneMask.getLsbD k := by
  refine sweepKeeps (fun s : Crates CrateTuning => s.crateNotDoneMask.getLsbD k) (fun s i => ?_) (List.finRange 20) s.crates
  unfold crateTurn
  split
  · by_cases inside : k < 32
    · exact setCrateBit s i _ inside (by omega)
    · rw [BitVec.getLsbD_of_ge _ k (Nat.le_of_not_lt inside), BitVec.getLsbD_of_ge _ k (Nat.le_of_not_lt inside)]
  · rfl

end Pass

section Loop
variable {crateMask : BitVec 32} {slotMasks : Masks} {results : ℕ → Results} {t : Tac}

theorem againPass {s u : Tuning} (turn : tuningTurn crateMask results s = .again u) :
    s.crates.crateNotDoneMask ≠ 0 ∧ u = tuningPass crateMask results s := by
  unfold tuningTurn at turn
  split at turn
  · contradiction
  · rename_i more
    cases turn
    exact ⟨more, rfl⟩

theorem stopPass {s after : Tuning} (turn : tuningTurn crateMask results s = .stop after) :
    s.crates.crateNotDoneMask = 0 ∧ after = s := by
  unfold tuningTurn at turn
  split at turn
  · rename_i done
    cases turn
    exact ⟨done, rfl⟩
  · contradiction

structure Tuned (crateMask : BitVec 32) (slotMasks : Masks) (t : Tac) (n : ℕ) (s : Tuning) : Prop where
  calls : s.calls = t.calls + n
  settled : ∀ crateNum : Fin 20, crateMask.getLsbD crateNum = true → Settled s crateNum
  high : ∀ crateNum k, 16 ≤ k → (crateOf s crateNum).notDoneMask.getLsbD k = (slotMasks crateNum).getLsbD k
  bits : ∀ k, 20 ≤ k → s.crates.crateNotDoneMask.getLsbD k = crateMask.getLsbD k
  crates : ∀ crateNum : Fin 20, Open s crateNum → crateMask.getLsbD crateNum = true ∧
    (n = 0 ∨ (crateOf s crateNum).notDoneMask ≠ 0)

theorem tunedStart : Tuned crateMask slotMasks t 0 (t.enter crateMask slotMasks) where
  calls := rfl
  settled _ masked closed := absurd masked closed
  high _ _ _ := rfl
  bits _ _ := rfl
  crates _ open' := ⟨open',.inl rfl⟩

theorem tunedPass {n : ℕ} {s : Tuning} (tuned : Tuned crateMask slotMasks t n s) :
    Tuned crateMask slotMasks t (n+1) (tuningPass crateMask results s) where
  calls := congrArg (· + 1) tuned.calls
  settled crateNum masked := passSettled (tuned.settled crateNum masked)
  high crateNum k high := (passHigh crateMask results high).trans (tuned.high crateNum k high)
  bits k high := (passBits high).trans (tuned.bits k high)
  crates crateNum open' := by
    have before : Open s crateNum := by_contra fun closed => (closedCrate closed).2 open'
    exact ⟨(tuned.crates crateNum before).1, .inr ((openCrate before).2.mp open')⟩

def InRange (crateMask : BitVec 32) (slotMasks : Masks) (t : Tac) : Prop :=
  ∀ crateNum i, Masked crateMask slotMasks crateNum i →
    isetmMin ≤ (t.isetm crateNum i).toNat ∧ (t.isetm crateNum i).toNat ≤ 255

structure Raised (crateMask : BitVec 32) (slotMasks : Masks) (n : ℕ) (s : Tuning) : Prop where
  range : ∀ crateNum i, Masked crateMask slotMasks crateNum i →
    isetmMin ≤ ((crateOf s crateNum).isetm i).toNat ∧ ((crateOf s crateNum).isetm i).toNat ≤ 255
  going : ∀ (crateNum : Fin 20) (i : Fin 16), crateMask.getLsbD crateNum = true →
    (crateOf s crateNum).notDoneMask.getLsbD i = true → (slotMasks crateNum).getLsbD i = true ∧
      isetmMin + n ≤ ((crateOf s crateNum).isetm i).toNat ∧ (n = 0 ∨ ((crateOf s crateNum).isetm i).toNat ≤ 254)

theorem raisedStart (range : InRange crateMask slotMasks t) :
    Raised crateMask slotMasks 0 (t.enter crateMask slotMasks) :=
  ⟨range, fun crateNum i masked open' => ⟨open', (range crateNum i ⟨masked, open'⟩).1, .inl rfl⟩⟩

theorem tuneKept {n : ℕ} {v : BitVec 16 × Bool} {longer : Bool} (range : isetmMin ≤ v.1.toNat ∧ v.1.toNat ≤ 255)
    (going : v.2 = true → isetmMin + n ≤ v.1.toNat ∧ (n = 0 ∨ v.1.toNat ≤ 254))
    (limit : n = 0 → v.1.toNat = 255 → longer = false) :
    (v.1.toNat ≤ (tuneView longer v).1.toNat ∧ (tuneView longer v).1.toNat ≤ 255) ∧
      ((tuneView longer v).2 = true → v.2 = true ∧ isetmMin + (n+1) ≤ (tuneView longer v).1.toNat ∧
        (tuneView longer v).1.toNat ≤ 254) := by
  obtain ⟨value, open'⟩ := v
  simp only at range going limit
  cases open' with
  | false => exact ⟨⟨Nat.le_refl _, range.2⟩, fun open' => by cases open'⟩
  | true =>
    obtain ⟨least, below⟩ := going rfl
    cases longer with
    | false => exact ⟨⟨Nat.le_refl _, range.2⟩, fun open' => by cases open'⟩
    | true =>
      have less : value.toNat ≤ 254 := by
        rcases below with zero | below
        · by_contra full
          exact absurd (limit zero (by omega)) (by decide)
        · exact below
      have next : (value+1).toNat = value.toNat+1 := by
        rw [BitVec.toNat_add]
        change (value.toNat + 1) % 65536 = _
        omega
      change (value.toNat ≤ (value+1).toNat ∧ (value+1).toNat ≤ 255) ∧
        (decide ((value+1).toNat ≠ 255) = true → true = true ∧ isetmMin + (n+1) ≤ (value+1).toNat ∧
          (value+1).toNat ≤ 254)
      rw [next, decide_eq_true_eq]
      exact ⟨⟨by omega, by omega⟩, fun more => ⟨rfl, by omega, by omega⟩⟩

theorem raisedSlot {n : ℕ} {s : Tuning} (tuned : Tuned crateMask slotMasks t n s) (raised : Raised crateMask slotMasks n s)
    (limit : n = 0 → BelowLimit crateMask slotMasks results ⟨fun crateNum => (crateOf s crateNum).isetm,s.calls⟩)
    {crateNum : Fin 20} {i : Fin 16} (masked : Masked crateMask slotMasks crateNum i) :
    (((crateOf s crateNum).isetm i).toNat ≤ ((crateOf (tuningPass crateMask results s) crateNum).isetm i).toNat ∧
      ((crateOf (tuningPass crateMask results s) crateNum).isetm i).toNat ≤ 255) ∧
    ((crateOf (tuningPass crateMask results s) crateNum).notDoneMask.getLsbD i = true →
      isetmMin + (n+1) ≤ ((crateOf (tuningPass crateMask results s) crateNum).isetm i).toNat ∧
        ((crateOf (tuningPass crateMask results s) crateNum).isetm i).toNat ≤ 254) := by
  have short : n = 0 → ((crateOf s crateNum).isetm i).toNat = 255 →
      decide (Longer crateNum i (results s.calls crateNum i)) = false :=
    fun zero full => decide_eq_false (limit zero crateNum i masked full)
  have kept := tuneKept (v := slotView i (crateOf s crateNum)) (raised.range crateNum i masked)
    (fun open' => (raised.going crateNum i masked.1 open').2) short
  rw [← passSlot results masked.1 (tuned.settled crateNum masked.1) i] at kept
  exact ⟨kept.1, fun open' => (kept.2 open').2⟩

theorem raisedPass {n : ℕ} {s : Tuning} (tuned : Tuned crateMask slotMasks t n s) (raised : Raised crateMask slotMasks n s)
    (limit : n = 0 → BelowLimit crateMask slotMasks results ⟨fun crateNum => (crateOf s crateNum).isetm,s.calls⟩) :
    Raised crateMask slotMasks (n+1) (tuningPass crateMask results s) := by
  refine ⟨fun crateNum i masked => ?_, fun crateNum i masked open' => ?_⟩
  · obtain ⟨kept, -⟩ := raisedSlot tuned raised limit masked
    exact ⟨(raised.range crateNum i masked).1.trans kept.1, kept.2⟩
  · have before : (crateOf s crateNum).notDoneMask.getLsbD i = true := by
      by_contra closed
      have view := passSlot results masked (tuned.settled crateNum masked) i
      rw [tuneView, if_neg (show ¬ (slotView i (crateOf s crateNum)).2 = true from closed)] at view
      exact closed ((congrArg Prod.snd view).symm.trans open')
    have slot := (raised.going crateNum i masked before).1
    obtain ⟨-, going⟩ := raisedSlot tuned raised limit ⟨masked, slot⟩
    exact ⟨slot, (going open').1, .inr (going open').2⟩

theorem reachedRaised (range : InRange crateMask slotMasks t) (limit : BelowLimit crateMask slotMasks results t) {n : ℕ}
    {s : Tuning} (reached : Reaches (tuningTurn crateMask results) (t.enter crateMask slotMasks) n s) :
    Tuned crateMask slotMasks t n s ∧ Raised crateMask slotMasks n s ∧
      (n = 0 → BelowLimit crateMask slotMasks results ⟨fun crateNum => (crateOf s crateNum).isetm,s.calls⟩) := by
  refine reachesInvariant (fun n s => Tuned crateMask slotMasks t n s ∧ Raised crateMask slotMasks n s ∧
    (n = 0 → BelowLimit crateMask slotMasks results ⟨fun crateNum => (crateOf s crateNum).isetm,s.calls⟩))
    ⟨tunedStart, raisedStart range, fun _ => limit⟩ (fun n s u kept turn => ?_) reached
  obtain ⟨tuned, raised, limit⟩ := kept
  obtain ⟨-, rfl⟩ := againPass turn
  exact ⟨tunedPass tuned, raisedPass tuned raised limit, fun zero => absurd zero (Nat.succ_ne_zero n)⟩

theorem goesOn (fit : MasksFit crateMask slotMasks) {n : ℕ} {s : Tuning} (tuned : Tuned crateMask slotMasks t n s)
    (raised : Raised crateMask slotMasks n s) (more : s.crates.crateNotDoneMask ≠ 0) : isetmMin + n ≤ 254 := by
  obtain ⟨k, bit⟩ := someBit more
  have low : k < 20 := by
    by_contra high
    rw [tuned.bits k (Nat.le_of_not_lt high), fit.1 k (Nat.le_of_not_lt high)] at bit
    contradiction
  obtain ⟨masked, zero | open'⟩ := tuned.crates ⟨k, low⟩ bit
  · rw [zero]
    decide
  · obtain ⟨l, bit⟩ := someBit open'
    have slot : l < 16 := by
      by_contra high
      rw [tuned.high _ l (Nat.le_of_not_lt high), fit.2 _ masked l (Nat.le_of_not_lt high)] at bit
      contradiction
    obtain ⟨-, least, below⟩ := raised.going ⟨k, low⟩ ⟨l, slot⟩ masked bit
    rcases below with zero | below
    · rw [zero]
      decide
    · omega

theorem clearSafe (range : InRange crateMask slotMasks t) (fit : MasksFit crateMask slotMasks)
    (limit : BelowLimit crateMask slotMasks results t) :
    LoopSafe crateMask slotMasks results (t.enter crateMask slotMasks) := by
  refine ⟨fun n s reached => ?_, fun n s u reached turn crateNum i masked => ?_⟩
  · cases reached with
    | start => exact Nat.zero_le _
    | again before turn =>
      obtain ⟨tuned, raised, -⟩ := reachedRaised range limit before
      have most := goesOn fit tuned raised (againPass turn).1
      unfold isetmMin at most ⊢
      omega
  · obtain ⟨tuned, raised, limit⟩ := reachedRaised range limit reached
    obtain ⟨-, rfl⟩ := againPass turn
    exact (raisedSlot tuned raised limit masked).1

theorem stuckLoop {k : ℕ} (inv : Tuning → Prop) (start : inv (t.enter crateMask slotMasks))
    (bit : ∀ s, inv s → s.crates.crateNotDoneMask.getLsbD k = true)
    (pass : ∀ s, inv s → inv (tuningPass crateMask results s)) :
    ¬ LoopSafe crateMask slotMasks results (t.enter crateMask slotMasks) := by
  intro safe
  have again (s : Tuning) (kept : inv s) : ∃ u, tuningTurn crateMask results s = .again u ∧ inv u := by
    refine ⟨tuningPass crateMask results s, if_neg fun none' => ?_, pass s kept⟩
    have open' := bit s kept
    rw [emptyBit none'] at open'
    contradiction
  obtain ⟨s, reached, -⟩ := reachesForever inv again start 102
  exact absurd (safe.passes 102 s reached) (by decide)

theorem safeFit (safe : LoopSafe crateMask slotMasks results (t.enter crateMask slotMasks)) :
    MasksFit crateMask slotMasks := by
  refine ⟨fun k high => Bool.eq_false_of_not_eq_true fun bit => ?_,
    fun crateNum masked k high => Bool.eq_false_of_not_eq_true fun bit => ?_⟩
  · exact stuckLoop (k := k) (fun s => s.crates.crateNotDoneMask.getLsbD k = true) bit (fun _ kept => kept)
      (fun s kept => (passBits high).trans kept) safe
  · refine stuckLoop (k := crateNum) (fun s => Open s crateNum ∧ (crateOf s crateNum).notDoneMask.getLsbD k = true)
      ⟨masked, bit⟩ (fun _ kept => kept.1) (fun s kept => ?_) safe
    have stays := (passHigh crateMask results high).trans kept.2
    refine ⟨(openCrate kept.1).2.mpr fun none' => ?_, stays⟩
    rw [emptyBit none'] at stays
    contradiction

theorem safeLimit (safe : LoopSafe crateMask slotMasks results (t.enter crateMask slotMasks)) :
    BelowLimit crateMask slotMasks results t := by
  intro crateNum i masked full longer
  have more : (t.enter crateMask slotMasks).crates.crateNotDoneMask ≠ 0 := by
    intro none'
    have bit := emptyBit none' crateNum
    rw [show (t.enter crateMask slotMasks).crates.crateNotDoneMask = crateMask from rfl, masked.1] at bit
    contradiction
  obtain ⟨-, most⟩ := safe.grows 0 _ _ .start (if_neg more) crateNum i masked
  have start : Tuned crateMask slotMasks t 0 (t.enter crateMask slotMasks) := tunedStart
  have view := passSlot results masked.1 (start.settled crateNum masked.1) i
  rw [tuneView, if_pos (show (slotView i (crateOf (t.enter crateMask slotMasks) crateNum)).2 = true from masked.2),
    if_pos (show decide (Longer crateNum i (results (t.enter crateMask slotMasks).calls crateNum i)) = true from
      decide_eq_true longer)] at view
  have value : ((crateOf (tuningPass crateMask results (t.enter crateMask slotMasks)) crateNum).isetm i) =
    t.isetm crateNum i + 1 := congrArg Prod.fst view
  rw [show ((tuningPass crateMask results (t.enter crateMask slotMasks)).crates.crates crateNum).isetm i = _ from value,
    BitVec.toNat_add, full] at most
  exact absurd most (by decide)

theorem safeExact (range : InRange crateMask slotMasks t) :
    LoopSafe crateMask slotMasks results (t.enter crateMask slotMasks) ↔
      MasksFit crateMask slotMasks ∧ BelowLimit crateMask slotMasks results t :=
  ⟨fun safe => ⟨safeFit safe, safeLimit safe⟩, fun clear => clearSafe range clear.1 clear.2⟩

def Rising (s : Tuning) (crateNum : Fin 20) (i : Fin 16) : Prop :=
  (crateOf s crateNum).notDoneMask.getLsbD i = true ∨ ((crateOf s crateNum).isetm i).toNat = 255

theorem risingPass {s : Tuning} {crateNum : Fin 20} {i : Fin 16} (masked : crateMask.getLsbD crateNum = true)
    (settled : Settled s crateNum) (longer : Longer crateNum i (results s.calls crateNum i)) (rising : Rising s crateNum i) :
    Rising (tuningPass crateMask results s) crateNum i := by
  have view := passSlot results masked settled i
  rw [decide_eq_true longer, tuneView] at view
  cases open' : (slotView i (crateOf s crateNum)).2 with
  | true =>
    rw [if_pos open', if_pos rfl] at view
    obtain ⟨value, bit⟩ := Prod.mk.inj view
    rw [Rising, bit, value, decide_eq_true_eq]
    exact (Decidable.em _).symm
  | false =>
    rw [open', if_neg Bool.false_ne_true] at view
    have closed : ¬ (crateOf s crateNum).notDoneMask.getLsbD i = true := Bool.eq_false_iff.mp open'
    exact .inr ((congrArg (fun v => v.1.toNat) view).trans (rising.resolve_left closed))

theorem alwaysLonger (longer : ∀ n crateNum i, Longer crateNum i (results n crateNum i)) {after : Tuning}
    (ends : Ends (tuningTurn crateMask results) (t.enter crateMask slotMasks) after) {crateNum : Fin 20} {i : Fin 16}
    (masked : Masked crateMask slotMasks crateNum i) : (((leave after).isetm crateNum) i).toNat = 255 := by
  obtain ⟨n, s, reached, stop⟩ := endsReaches ends
  have raised := reachesInvariant (fun n s => Tuned crateMask slotMasks t n s ∧ Rising s crateNum i)
    ⟨tunedStart, .inl masked.2⟩ (fun n s u kept turn => by
      obtain ⟨tuned, rising⟩ := kept
      obtain ⟨-, rfl⟩ := againPass turn
      exact ⟨tunedPass tuned, risingPass masked.1 (tuned.settled crateNum masked.1) (longer ..) rising⟩) reached
  obtain ⟨done, rfl⟩ := stopPass stop
  have closed : ¬ Open after crateNum := by
    rw [Open, emptyBit done]
    exact Bool.false_ne_true
  refine raised.2.resolve_left ?_
  rw [emptyBit (raised.1.settled crateNum masked.1 closed)]
  exact Bool.false_ne_true

theorem rangeKept (range : InRange crateMask slotMasks t) (limit : BelowLimit crateMask slotMasks results t) {after : Tuning}
    (ends : Ends (tuningTurn crateMask results) (t.enter crateMask slotMasks) after) :
    InRange crateMask slotMasks (leave after) := by
  obtain ⟨n, s, reached, stop⟩ := endsReaches ends
  obtain ⟨tuned, raised, -⟩ := reachedRaised range limit reached
  obtain ⟨-, rfl⟩ := stopPass stop
  exact raised.range

end Loop

theorem tacExact {crateMask : BitVec 32} {slotMasks : Masks}
    {maxIsetm : Fin 32 → Fin 20 → Fin 16 → Option (BitVec 16)} {found : Fin 32 → Fin 20 → Fin 16 → Prop}
    {results : ℕ → Results} (set : ∀ j crateNum i, Masked crateMask slotMasks crateNum i →
      ((∃ value, maxIsetm j crateNum i = some value) ↔ found j crateNum i))
    (channels : List (Fin 32)) {t : Tac} (range : InRange crateMask slotMasks t) :
    TacSafe crateMask slotMasks maxIsetm results channels t ↔ TacClear crateMask slotMasks results found channels t := by
  induction channels generalizing t with
  | nil => exact Iff.rfl
  | cons j later ih =>
    rw [TacSafe, TacClear, safeExact range]
    have loads : LoadsSet crateMask slotMasks maxIsetm j ↔
        ∀ crateNum i, Masked crateMask slotMasks crateNum i → found j crateNum i :=
      forall₂_congr fun crateNum i => forall_congr' (set j crateNum i)
    refine and_congr loads (and_congr_right fun clear => forall₂_congr fun after ends => ?_)
    exact ih (rangeKept range clear.2 ends)

theorem startRange (crateMask : BitVec 32) (slotMasks : Masks) : InRange crateMask slotMasks tacStart :=
  fun _ _ _ => ⟨Nat.le_refl _, (by decide : (BitVec.ofNat 16 isetmMin).toNat ≤ 255)⟩

/- Both TACs, with the ISETM values that the maximum scan has set. -/
theorem tuningExact (crateMask : BitVec 32) (slotMasks : Masks) (channelMask : BitVec 32)
    (hardware : Fin 32 → ℕ → Results) (results : Fin 2 → ℕ → Results) :
    (∀ wt, TacSafe crateMask slotMasks (fun j => (maximumScan crateMask slotMasks channelMask hardware j).maxIsetm)
      (results wt) tuningChannels tacStart) ↔
    ∀ wt, TacClear crateMask slotMasks (results wt) (MaximumFound slotMasks channelMask hardware) tuningChannels
      tacStart := by
  refine forall_congr' fun wt => tacExact (fun j crateNum i masked => ?_) tuningChannels (startRange crateMask slotMasks)
  exact maximumSet channelMask hardware j masked.1 masked.2

/- The slot is longer in every measurement: the first channel takes it to 255, and the
second one beyond. -/
theorem limitPassed :
    ¬ ∀ wt, TacSafe 1 (fun _ => 1)
      (fun j => (maximumScan 1 (fun _ => 1) 0xFFFFFFFF (fun _ _ _ _ => 90) j).maxIsetm)
      ((fun _ _ _ _ => 90 : Fin 2 → ℕ → Results) wt) tuningChannels tacStart := by
  intro safe
  have longer (crateNum : Fin 20) (i : Fin 16) : Longer crateNum i 90 := by
    unfold Longer
    simp only
    split
    · decide
    · decide
  obtain ⟨-, first, rest⟩ := safe 0
  obtain ⟨after, ends⟩ := endsBounded first.passes
  obtain ⟨-, second, -⟩ := rest after ends
  have masked : Masked 1 (fun _ => 1) 0 0 := ⟨by decide, by decide⟩
  have full := alwaysLonger (fun _ crateNum i => longer crateNum i) ends masked
  exact safeLimit second 0 0 masked full (longer 0 0)

end PennDaq.GTValidTuning
