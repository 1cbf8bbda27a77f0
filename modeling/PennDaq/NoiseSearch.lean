import PennDaq.FindNoise
import Mathlib.Algebra.Order.BigOperators.Group.Finset
import Mathlib.Data.Fintype.Prod

/-! The main loop of `FindNoise` ends, whatever is counted. -/
namespace PennDaq.NoiseSearch
open Lib.Loop
open Lib.Mask
open Lib.Sweep
open FindNoise

structure Progress where
  below : Bool
  done : Bool
  error : Bool
  vthr : BitVec 32
  deriving DecidableEq

def progress (k : Fin 32) (s : Slot) : Progress :=
  ⟨s.foundBelow.getLsbD k,s.doneChannel.getLsbD k,s.errorChannel.getLsbD k,s.currentVthr k⟩

def started (zero : BitVec 32) : Progress :=
  if zero.toNat ≥ 255 then ⟨false,true,true,255⟩ else ⟨false,false,false,zero+25⟩

def steppedUp (p : Progress) : Progress :=
  if (p.vthr+1).toNat ≥ 255 then { p with vthr := 255, error := true } else { p with vthr := p.vthr+1 }

def steppedDown (p : Progress) : Progress :=
  if (p.vthr-1).toNat ≤ 0 then { p with vthr := 0, error := true } else { p with vthr := p.vthr-1 }

def checked (isNoisy early : Bool) (p : Progress) : Progress :=
  if p.error then p
  else if !p.done then
    if isNoisy then steppedUp { p with below := true }
    else if p.below then { p with done := true }
    else steppedDown p
  else if isNoisy then
    if early then { steppedUp { p with done := false } with below := false } else steppedUp { p with done := false }
  else p

section Channel
variable (s : Slot) (k : Fin 32)

theorem stepUpOwn : progress k (stepUp s k) = steppedUp (progress k s) := by
  unfold stepUp steppedUp progress
  simp only
  split
  · simp only [setBit, if_true, Function.update_self]
  · simp only [Function.update_self]

theorem stepDownOwn : progress k (stepDown s k) = steppedDown (progress k s) := by
  unfold stepDown steppedDown progress
  simp only
  split
  · simp only [setBit, if_true, Function.update_self]
  · simp only [Function.update_self]

theorem stepUpOther {j : Fin 32} (other : j ≠ k) : progress j (stepUp s k) = progress j s := by
  unfold stepUp progress
  simp only
  split
  · simp only [setBit, if_neg other, Function.update_of_ne other]
  · simp only [Function.update_of_ne other]

theorem stepDownOther {j : Fin 32} (other : j ≠ k) : progress j (stepDown s k) = progress j s := by
  unfold stepDown progress
  simp only
  split
  · simp only [setBit, if_neg other, Function.update_of_ne other]
  · simp only [Function.update_of_ne other]

end Channel

section Check
variable (isNoisy : Fin 32 → Bool) (early : Bool)

theorem checkOwn (s : Slot) (k : Fin 32) :
    progress k (checkChannel isNoisy early s k) = checked (isNoisy k) early (progress k s) := by
  have below : progress k { s with foundBelow := s.foundBelow ||| (1#32 <<< k.val) } = { progress k s with below := true } := by
    rw [progress, setBit, if_pos rfl]
    rfl
  have undone : progress k { s with doneChannel := s.doneChannel &&& ~~~(1#32 <<< k.val) } =
      { progress k s with done := false } := by
    rw [progress, clearBit, if_pos rfl]
    rfl
  unfold checkChannel checked
  rw [show s.errorChannel.getLsbD k = (progress k s).error from rfl,
    show s.doneChannel.getLsbD k = (progress k s).done from rfl]
  split
  · rfl
  · split
    · split
      · rw [stepUpOwn, below]
      · change progress k (if (progress k s).below = true then _ else _) = _
        split
        · unfold progress
          simp only [setBit, if_true]
        · rw [stepDownOwn]
          rfl
    · split
      · rw [← undone, ← stepUpOwn]
        simp only
        split
        · unfold progress
          simp only [clearBit, if_true]
        · rfl
      · rfl

theorem checkApart : Apart (checkChannel isNoisy early) progress := by
  intro s k j other
  unfold checkChannel
  split
  · rfl
  · split
    · split
      · rw [stepUpOther _ _ other]
        unfold progress
        simp only [setBit, if_neg other]
      · simp only
        split
        · unfold progress
          simp only [setBit, if_neg other]
        · exact stepDownOther _ _ other
    · split
      · have before := stepUpOther { s with doneChannel := s.doneChannel &&& ~~~(1#32 <<< k.val) } k other
        have same : progress j { s with doneChannel := s.doneChannel &&& ~~~(1#32 <<< k.val) } = progress j s := by
          unfold progress
          simp only [clearBit, if_neg other]
        rw [← same, ← before]
        simp only
        split
        · unfold progress
          simp only [clearBit, if_neg other]
        · rfl
      · rfl

theorem slotChecked (s : Slot) (k : Fin 32) :
    progress k ((List.finRange 32).foldl (checkChannel isNoisy early) s) = checked (isNoisy k) early (progress k s) := by
  have loc : Local (checkChannel isNoisy early) progress := fun s s' i same => by rw [checkOwn, checkOwn, same]
  rw [sweepOwn (checkApart isNoisy early) loc (List.nodup_finRange 32) (List.mem_finRange k), checkOwn]

end Check

theorem startApart (vthrZeros : Fin 32 → BitVec 32) : Apart (startChannel vthrZeros) progress := by
  intro s k j other
  unfold startChannel progress
  split
  · simp only [setBit, if_neg other, Function.update_of_ne other]
  · simp only [Function.update_of_ne other]

theorem slotStarted (vthrZeros : Fin 32 → BitVec 32) (k : Fin 32) : progress k (startSlot vthrZeros) = started (vthrZeros k) := by
  have own (s : Slot) (i : Fin 32) : (progress i (startChannel vthrZeros s i)) =
      { started (vthrZeros i) with
        below := (progress i s).below
        done := (progress i s).done || (started (vthrZeros i)).done
        error := (progress i s).error || (started (vthrZeros i)).error } := by
    unfold startChannel started progress
    split
    · simp only [setBit, if_true, Function.update_self, Bool.or_true]
    · simp only [Function.update_self, Bool.or_false]
  have loc : Local (startChannel vthrZeros) progress := fun s s' i same => by rw [own, own, same]
  rw [startSlot, sweepOwn (startApart vthrZeros) loc (List.nodup_finRange 32) (List.mem_finRange k), own]
  unfold started progress
  simp only [BitVec.ofNat_eq_ofNat, BitVec.getLsbD_zero, Bool.false_or]
  split
  · rfl
  · rfl

structure Sane (p : Progress) : Prop where
  ended : p.error = true → p.vthr = 0 ∨ p.vthr = 255
  range : p.error = false → 1 ≤ p.vthr.toNat ∧ p.vthr.toNat ≤ 279
  below : p.error = false → p.below = true → p.vthr.toNat ≤ 254
  done : p.error = false → p.done = true → p.below = true

theorem nextNat {vthr : BitVec 32} (small : vthr.toNat ≤ 279) : (vthr+1).toNat = vthr.toNat+1 := by
  rw [BitVec.toNat_add]
  change (vthr.toNat + 1) % 2^32 = _
  omega

theorem beforeNat {vthr : BitVec 32} (positive : 1 ≤ vthr.toNat) : (vthr-1).toNat = vthr.toNat-1 :=
  BitVec.toNat_sub_of_le positive

theorem steppedUpCases {p : Progress} (small : p.vthr.toNat ≤ 279) :
    steppedUp p = { p with vthr := 255, error := true } ∨
      steppedUp p = { p with vthr := p.vthr+1 } ∧ (p.vthr+1).toNat = p.vthr.toNat+1 ∧ p.vthr.toNat+1 ≤ 254 := by
  have next := nextNat small
  unfold steppedUp
  split
  · exact .inl rfl
  · exact .inr ⟨rfl, next, by omega⟩

theorem steppedDownCases {p : Progress} (positive : 1 ≤ p.vthr.toNat) :
    steppedDown p = { p with vthr := 0, error := true } ∨
      steppedDown p = { p with vthr := p.vthr-1 } ∧ (p.vthr-1).toNat + 1 = p.vthr.toNat ∧ 1 ≤ (p.vthr-1).toNat := by
  have before := beforeNat positive
  unfold steppedDown
  split
  · exact .inl rfl
  · exact .inr ⟨rfl, by omega, by omega⟩

theorem errorSane {p : Progress} (error : p.error = true) (value : p.vthr = 0 ∨ p.vthr = 255) : Sane p where
  ended _ := value
  range fine := absurd (error.symm.trans fine) Bool.false_ne_true.symm
  below fine := absurd (error.symm.trans fine) Bool.false_ne_true.symm
  done fine := absurd (error.symm.trans fine) Bool.false_ne_true.symm

theorem startedSane (zero : BitVec 32) : Sane (started zero) := by
  unfold started
  split
  · exact errorSane rfl (.inr rfl)
  · rename_i small
    have sum : (zero+25).toNat = zero.toNat+25 := by
      rw [BitVec.toNat_add]
      change (zero.toNat + 25) % 2^32 = _
      omega
    have range : 1 ≤ (zero+25).toNat ∧ (zero+25).toNat ≤ 279 := ⟨by omega, by omega⟩
    exact ⟨nofun, fun _ => range, fun _ => nofun, fun _ => nofun⟩

def left (p : Progress) : ℕ :=
  if p.error then 0
  else if p.below then 2*(255-p.vthr.toNat) + (if p.done then 0 else 1)
  else 1000+p.vthr.toNat

theorem leftMost {p : Progress} (sane : Sane p) : left p ≤ 1279 := by
  unfold left
  split
  · exact Nat.zero_le _
  · rename_i fine
    have range := sane.range (Bool.eq_false_of_not_eq_true fine)
    split
    · split
      · omega
      · omega
    · omega

inductive Check (isNoisy early : Bool) (p : Progress) : Progress → Prop where
  | error {q : Progress} (error : q.error = true) (value : q.vthr = 0 ∨ q.vthr = 255) : Check isNoisy early p q
  | stays (done : p.done = true) (quiet : isNoisy = false) : Check isNoisy early p p
  | done (undone : p.done = false) (below : p.below = true) (quiet : isNoisy = false) :
      Check isNoisy early p { p with done := true }
  | up {q : Progress} (fine : q.error = false) (undone : q.done = false)
      (below : q.below = if p.done then p.below && !early else true)
      (next : q.vthr.toNat = p.vthr.toNat+1) (high : q.vthr.toNat ≤ 254) : Check isNoisy early p q
  | down {q : Progress} (fine : q.error = false) (undone : p.done = false ∧ q.done = false)
      (above : p.below = false ∧ q.below = false) (before : q.vthr.toNat+1 = p.vthr.toNat) (low : 1 ≤ q.vthr.toNat) :
      Check isNoisy early p q

theorem checkedCases {p : Progress} (sane : Sane p) (fine : p.error = false) (isNoisy early : Bool) :
    Check isNoisy early p (checked isNoisy early p) := by
  obtain ⟨least, most⟩ := sane.range fine
  unfold checked
  rw [if_neg (ne_true_of_eq_false fine)]
  cases done : p.done with
  | false =>
    rw [Bool.not_false, if_pos rfl]
    cases isNoisy with
    | true =>
      rw [if_pos rfl]
      rcases @steppedUpCases { p with below := true, done := false } most with up | ⟨up, next, high⟩
      · rw [up]
        exact .error rfl (.inr rfl)
      · rw [up]
        exact .up fine rfl (by rw [done]; rfl) next (next.trans_le high)
    | false =>
      rw [if_neg Bool.false_ne_true]
      by_cases below : p.below = true
      · rw [if_pos below]
        exact .done done below rfl
      · rw [if_neg below]
        have above := Bool.eq_false_of_not_eq_true below
        rcases steppedDownCases least with down | ⟨down, before, low⟩
        · rw [down]
          exact .error rfl (.inl rfl)
        · rw [down]
          exact .down fine ⟨done, done⟩ ⟨above, above⟩ before low
  | true =>
    rw [Bool.not_true, if_neg Bool.false_ne_true]
    cases isNoisy with
    | false => exact .stays done rfl
    | true =>
      rw [if_pos rfl]
      rcases @steppedUpCases { p with done := false } most with up | ⟨up, next, high⟩
      · rw [up]
        split
        · exact .error rfl (.inr rfl)
        · exact .error rfl (.inr rfl)
      · rw [up]
        split
        · rename_i early
          exact .up fine rfl (by rw [done, early, Bool.not_true, Bool.and_false]; rfl) next (next.trans_le high)
        · rename_i late
          have late := Bool.eq_false_of_not_eq_true late
          exact .up fine rfl (by rw [done, late, Bool.not_false, Bool.and_true]; rfl) next (next.trans_le high)

theorem checkedError {p : Progress} (error : p.error = true) (isNoisy early : Bool) : checked isNoisy early p = p := by
  rw [checked, if_pos error]

theorem checkedSane {p : Progress} (sane : Sane p) (isNoisy early : Bool) : Sane (checked isNoisy early p) := by
  cases fine : p.error with
  | true =>
    rw [checkedError fine]
    exact sane
  | false =>
    have range := sane.range fine
    have below := sane.below fine
    generalize checked isNoisy early p = q, checkedCases sane fine isNoisy early = case
    cases case with
    | error error value => exact errorSane error value
    | stays done quiet => exact sane
    | done undone below' quiet => exact ⟨sane.ended, sane.range, sane.below, fun _ _ => below'⟩
    | up fine' undone below' next high =>
      refine ⟨fun error => ?_, fun _ => ⟨by omega, by omega⟩, fun _ _ => high, fun _ done => ?_⟩
      · rw [fine'] at error
        contradiction
      · rw [undone] at done
        contradiction
    | down fine' undone above before low =>
      refine ⟨fun error => ?_, fun _ => ⟨low, by omega⟩, fun _ below => ?_, fun _ done => ?_⟩
      · rw [fine'] at error
        contradiction
      · rw [above.2] at below
        contradiction
      · rw [undone.2] at done
        contradiction

theorem leftUndone {p : Progress} (sane : Sane p) (fine : p.error = false) (undone : p.done = false) : 0 < left p := by
  have range := sane.range fine
  rw [left, fine, undone]
  simp only [Bool.false_eq_true, if_false]
  split
  · omega
  · omega

theorem leftUp {p q : Progress} (sane : Sane p) (fine : p.error = false) (fine' : q.error = false) (undone : q.done = false)
    (below : q.below = if p.done then p.below && !false else true) (next : q.vthr.toNat = p.vthr.toNat+1)
    (high : q.vthr.toNat ≤ 254) : left q < left p := by
  unfold left
  rw [if_neg (ne_true_of_eq_false fine), if_neg (ne_true_of_eq_false fine'), undone]
  cases before : p.done with
  | true =>
    have was := sane.done fine before
    have now : q.below = true := by rw [below, before, was]; rfl
    simp only [now, was, if_true, Bool.false_eq_true, if_false]
    omega
  | false =>
    have now : q.below = true := by rw [below, before]; rfl
    simp only [now, if_true, Bool.false_eq_true, if_false]
    split
    · omega
    · omega

theorem checkedLate {p : Progress} (sane : Sane p) (isNoisy : Bool) : left (checked isNoisy false p) ≤ left p ∧
    (p.error = false → p.done = false → left (checked isNoisy false p) < left p) := by
  cases fine : p.error with
  | true =>
    rw [checkedError fine]
    exact ⟨Nat.le_refl _, nofun⟩
  | false =>
    generalize checked isNoisy false p = q, checkedCases sane fine isNoisy false = case
    cases case with
    | error error value =>
      have none' : left q = 0 := by rw [left, if_pos error]
      rw [none']
      exact ⟨Nat.zero_le _, fun _ undone => leftUndone sane fine undone⟩
    | stays done' quiet => exact ⟨Nat.le_refl _, fun _ undone => by rw [undone] at done'; contradiction⟩
    | done undone below' quiet =>
      have less : left { p with done := true } < left p := by simp [left, fine, undone, below']
      exact ⟨less.le, fun _ _ => less⟩
    | up fine' undone below' next high =>
      have less := leftUp sane fine fine' undone below' next high
      exact ⟨less.le, fun _ _ => less⟩
    | down fine' undone above before low =>
      have less : left q < left p := by
        simp only [left, fine, fine', above.1, above.2, Bool.false_eq_true, if_false]
        omega
      exact ⟨less.le, fun _ _ => less⟩

def progressOf (s : Search) (c : Channel) : Progress := progress c.2.2 (s.slots c.1 c.2.1)

def Masked (crateMask : BitVec 32) (slotMasks : Fin 20 → BitVec 32) (c : Channel) : Prop :=
  inMask crateMask slotMasks c.1 c.2.1 = true

instance (crateMask : BitVec 32) (slotMasks : Fin 20 → BitVec 32) (c : Channel) : Decidable (Masked crateMask slotMasks c) := by
  unfold Masked
  infer_instance

section Iteration
variable {crateMask : BitVec 32} {slotMasks : Fin 20 → BitVec 32} {frequency : Frequency}

theorem iterationChannel (counts : Counts) (s : Search) {c : Channel} (masked : Masked crateMask slotMasks c) :
    progressOf (iteration crateMask slotMasks frequency counts s) c =
      checked (noisy frequency (readoutNoise counts c)) (s.iterations < maxIterations) (progressOf s c) := by
  rw [progressOf, iteration]
  change progress c.2.2 (if inMask crateMask slotMasks c.1 c.2.1 = true then _ else _) = _
  have here : inMask crateMask slotMasks c.1 c.2.1 = true := masked
  rw [if_pos here, slotChecked]
  rfl

theorem allDoneChannels (s : Search) : AllDone crateMask slotMasks s ↔
    ∀ c, Masked crateMask slotMasks c → (progressOf s c).done = true ∨ (progressOf s c).error = true := by
  have bits (i : Fin 20) (j : Fin 16) : (s.slots i j).doneChannel ||| (s.slots i j).errorChannel = 0xFFFFFFFF ↔
      ∀ k : Fin 32, (progressOf s (i,j,k)).done = true ∨ (progressOf s (i,j,k)).error = true := by
    rw [show (0xFFFFFFFF : BitVec 32) = BitVec.allOnes 32 from rfl]
    constructor
    · intro all k
      have bit := congrArg (fun mask => mask.getLsbD k) all
      simp only [BitVec.getLsbD_or, BitVec.getLsbD_allOnes, k.isLt, decide_true, Bool.or_eq_true] at bit
      exact bit
    · intro all
      refine BitVec.eq_of_getLsbD_eq fun k less => ?_
      simp only [BitVec.getLsbD_or, BitVec.getLsbD_allOnes, less, decide_true, Bool.or_eq_true]
      exact all ⟨k, less⟩
  unfold AllDone
  simp only [bits]
  exact ⟨fun all c masked => all c.1 c.2.1 masked c.2.2, fun all i j masked k => all (i, j, k) masked⟩

theorem iterationLoads (counts : Counts) (s : Search) {c : Channel} (masked : Masked crateMask slotMasks c) :
    (iteration crateMask slotMasks frequency counts s).bench.dacs c = dacValue (progressOf s c).vthr := by
  let cur := fun i j => (s.slots i j).currentVthr
  let view : Fin 20 × Fin 16 → Bench → Fin 32 → BitVec 32 := fun at' b k => b.dacs (at'.1,at'.2,k)
  have own (b : Bench) (at' : Fin 20 × Fin 16) : view at' (loadSlot cur b at') = fun k => dacValue (cur at'.1 at'.2 k) := by
    funext k
    exact if_pos ⟨rfl, rfl⟩
  have apart : Apart (loadSlot cur) view := by
    intro b at' other different
    funext k
    exact if_neg fun same => different (Prod.ext same.1 same.2)
  have loc : Local (loadSlot cur) view := fun b b' at' _ => by rw [own, own]
  have distinct : (maskedSlots crateMask slotMasks).Nodup :=
    ((List.nodup_finRange 20).product (List.nodup_finRange 16)).filter _
  have mem : (c.1,c.2.1) ∈ maskedSlots crateMask slotMasks :=
    List.mem_filter.mpr ⟨List.pair_mem_product.mpr ⟨List.mem_finRange _, List.mem_finRange _⟩, masked⟩
  have loaded := sweepOwn apart loc distinct mem s.bench
  rw [own] at loaded
  exact congrFun loaded c.2.2

end Iteration

section Runs
variable {crateMask : BitVec 32} {slotMasks : Fin 20 → BitVec 32} {frequency : Frequency} {counts : ℕ → Option Counts}
  {vthrZeros : Channel → BitVec 32} {bench : Bench}

theorem againIteration {s t : Search} (turn : mainTurn crateMask slotMasks frequency counts s = .again t) :
    ∃ n, counts s.iterations = some n ∧ t = iteration crateMask slotMasks frequency n s ∧ ¬ AllDone crateMask slotMasks t := by
  unfold mainTurn at turn
  split at turn
  · contradiction
  · rename_i n given
    simp only at turn
    split at turn
    · contradiction
    · rename_i more
      cases turn
      exact ⟨n, given, rfl, more⟩

theorem stopIteration {s : Search} {exit : Option Search} (turn : mainTurn crateMask slotMasks frequency counts s = .stop exit) :
    exit = none ∧ counts s.iterations = none ∨
      ∃ n t, exit = some t ∧ counts s.iterations = some n ∧ t = iteration crateMask slotMasks frequency n s ∧
        AllDone crateMask slotMasks t := by
  unfold mainTurn at turn
  split at turn
  · rename_i failed
    cases turn
    exact .inl ⟨rfl, failed⟩
  · rename_i n given
    simp only at turn
    split at turn
    · rename_i done
      cases turn
      exact .inr ⟨n, _, rfl, given, rfl, done⟩
    · contradiction

structure Running (crateMask : BitVec 32) (slotMasks : Fin 20 → BitVec 32) (s : Search) : Prop where
  sane : ∀ c, Masked crateMask slotMasks c → Sane (progressOf s c)
  more : s.iterations = 0 ∨ ¬ AllDone crateMask slotMasks s

theorem runningStart (vthrZeros : Channel → BitVec 32) (bench : Bench) :
    Running crateMask slotMasks (searchStart vthrZeros bench) where
  sane c _ := by
    have same : progressOf (searchStart vthrZeros bench) c = started (vthrZeros c) := slotStarted _ c.2.2
    rw [same]
    exact startedSane _
  more := .inl rfl

theorem iterationSane (n : Counts) {s : Search} (running : Running crateMask slotMasks s) {c : Channel}
    (masked : Masked crateMask slotMasks c) : Sane (progressOf (iteration crateMask slotMasks frequency n s) c) := by
  rw [iterationChannel n s masked]
  exact checkedSane (running.sane c masked) _ _

theorem runningAgain {s t : Search} (running : Running crateMask slotMasks s)
    (turn : mainTurn crateMask slotMasks frequency counts s = .again t) : Running crateMask slotMasks t := by
  obtain ⟨n, -, rfl, more⟩ := againIteration turn
  exact ⟨fun c masked => iterationSane n running masked, .inr more⟩

def leftOf (crateMask : BitVec 32) (slotMasks : Fin 20 → BitVec 32) (s : Search) : ℕ :=
  ∑ c : Channel, if Masked crateMask slotMasks c then left (progressOf s c) else 0

theorem leftOfMost {s : Search} (running : Running crateMask slotMasks s) :
    leftOf crateMask slotMasks s ≤ Fintype.card Channel*1279 := by
  have most (c : Channel) (_ : c ∈ Finset.univ) : (if Masked crateMask slotMasks c then left (progressOf s c) else 0) ≤ 1279 := by
    split
    · rename_i masked
      exact leftMost (running.sane c masked)
    · exact Nat.zero_le _
  have all := Finset.sum_le_card_nsmul Finset.univ _ 1279 most
  rw [Finset.card_univ, Nat.nsmul_eq_mul] at all
  exact all

theorem leftOfLate {s : Search} (running : Running crateMask slotMasks s) (late : maxIterations ≤ s.iterations) (n : Counts) :
    leftOf crateMask slotMasks (iteration crateMask slotMasks frequency n s) < leftOf crateMask slotMasks s := by
  have kept (c : Channel) (masked : Masked crateMask slotMasks c) :=
    checkedLate (running.sane c masked) (noisy frequency (readoutNoise n c))
  have step {c : Channel} (masked : Masked crateMask slotMasks c) :
      progressOf (iteration crateMask slotMasks frequency n s) c =
        checked (noisy frequency (readoutNoise n c)) false (progressOf s c) := by
    rw [iterationChannel n s masked, decide_eq_false (Nat.not_lt.mpr late)]
  refine Finset.sum_lt_sum (fun c _ => ?_) ?_
  · split
    · rename_i masked
      rw [step masked]
      exact (kept c masked).1
    · exact Nat.le_refl _
  · have more := running.more.resolve_left (by unfold maxIterations at late; omega)
    rw [allDoneChannels] at more
    push Not at more
    obtain ⟨c, masked, undone, fine⟩ := more
    refine ⟨c, Finset.mem_univ c, ?_⟩
    rw [if_pos masked, if_pos masked, step masked]
    exact (kept c masked).2 (Bool.eq_false_of_not_eq_true fine) (Bool.eq_false_of_not_eq_true undone)

def measure (crateMask : BitVec 32) (slotMasks : Fin 20 → BitVec 32) (s : Search) : ℕ :=
  (maxIterations-s.iterations)*(Fintype.card Channel*1279+1) + leftOf crateMask slotMasks s

theorem measureAgain {s t : Search} (running : Running crateMask slotMasks s)
    (turn : mainTurn crateMask slotMasks frequency counts s = .again t) :
    measure crateMask slotMasks t < measure crateMask slotMasks s := by
  have most := leftOfMost (runningAgain running turn)
  obtain ⟨n, -, rfl, -⟩ := againIteration turn
  unfold measure
  change (maxIterations-(s.iterations+1))*_ + _ < _
  rcases Nat.lt_or_ge s.iterations maxIterations with early | late
  · have one : maxIterations-s.iterations = maxIterations-(s.iterations+1)+1 := by omega
    rw [one, Nat.add_mul]
    omega
  · have less : leftOf crateMask slotMasks (iteration crateMask slotMasks frequency n s) < _ := leftOfLate running late n
    rw [Nat.sub_eq_zero_of_le late, Nat.sub_eq_zero_of_le (Nat.le_succ_of_le late)]
    omega

/- Where a channel is when the loop has ended; `last` are the counts of the last
iteration. -/
def Settled (frequency : Frequency) (last : Counts) (s : Search) (c : Channel) : Prop :=
  let slot := s.slots c.1 c.2.1
  let vthr := slot.currentVthr c.2.2
  slot.errorChannel.getLsbD c.2.2 = true ∧ (vthr = 0 ∨ vthr = 255) ∨
    slot.doneChannel.getLsbD c.2.2 = true ∧ (1 ≤ vthr.toNat ∧ vthr.toNat ≤ 254) ∧
      s.bench.dacs c = vthr ∧ noisy frequency (readoutNoise last c) = false

theorem settledStop {s : Search} (running : Running crateMask slotMasks s) (n : Counts)
    (done : AllDone crateMask slotMasks (iteration crateMask slotMasks frequency n s)) {c : Channel}
    (masked : Masked crateMask slotMasks c) :
    Settled frequency n (iteration crateMask slotMasks frequency n s) c := by
  have sane := running.sane c masked
  have after : Sane (progressOf (iteration crateMask slotMasks frequency n s) c) := iterationSane n running masked
  have step : progressOf (iteration crateMask slotMasks frequency n s) c = _ := iterationChannel n s masked
  have loads : (iteration crateMask slotMasks frequency n s).bench.dacs c = _ := iterationLoads n s masked
  have ended := (allDoneChannels _).mp done c masked
  generalize iteration crateMask slotMasks frequency n s = t at *
  change (progressOf t c).error = true ∧ ((progressOf t c).vthr = 0 ∨ (progressOf t c).vthr = 255) ∨
    (progressOf t c).done = true ∧ (1 ≤ (progressOf t c).vthr.toNat ∧ (progressOf t c).vthr.toNat ≤ 254) ∧
      t.bench.dacs c = (progressOf t c).vthr ∧ _
  cases error : (progressOf t c).error with
  | true => exact .inl ⟨rfl, after.ended error⟩
  | false =>
    have done := ended.resolve_right (ne_true_of_eq_false error)
    have high := after.below error (after.done error done)
    refine .inr ⟨done, ⟨(after.range error).1, high⟩, ?_⟩
    have fine : (progressOf s c).error = false := by
      by_contra before
      rw [step, checkedError (Bool.eq_true_of_not_eq_false before)] at error
      exact before error
    -- A channel that ends up done was quiet and has kept its threshold.
    have kept : (progressOf t c).vthr = (progressOf s c).vthr ∧ noisy frequency (readoutNoise n c) = false := by
      generalize progressOf t c = q, checkedCases sane fine (noisy frequency (readoutNoise n c))
        (decide (s.iterations < maxIterations)) = case at *
      rw [← step] at case
      cases case with
      | error error' _ => rw [error] at error'; contradiction
      | stays _ quiet => exact ⟨rfl, quiet⟩
      | done _ _ quiet => exact ⟨rfl, quiet⟩
      | up _ undone => rw [undone] at done; contradiction
      | down _ undone => rw [undone.2] at done; contradiction
    refine ⟨?_, kept.2⟩
    rw [loads, ← kept.1, dacValue, if_pos (by omega)]

def Ended (crateMask : BitVec 32) (slotMasks : Fin 20 → BitVec 32) (frequency : Frequency) (counts : ℕ → Option Counts) :
    Option Search → Prop
  | none => ∃ n, counts n = none
  | some s => ∃ n last, s.iterations = n+1 ∧ counts n = some last ∧
    ∀ c : Channel, inMask crateMask slotMasks c.1 c.2.1 = true → Settled frequency last s c

theorem searchSettled {exit : Option Search}
    (ends : Ends (mainTurn crateMask slotMasks frequency counts) (searchStart vthrZeros bench) exit) :
    Ended crateMask slotMasks frequency counts exit := by
  refine endsInvariant (Running crateMask slotMasks) (Ended crateMask slotMasks frequency counts)
    (fun s t running turn => runningAgain running turn) (fun s exit running turn => ?_) (runningStart vthrZeros bench) ends
  rcases stopIteration turn with ⟨rfl, failed⟩ | ⟨n, t, rfl, given, rfl, done⟩
  · exact ⟨s.iterations, failed⟩
  · exact ⟨s.iterations, n, rfl, given, fun c masked => settledStop running n done masked⟩

theorem searchStops (crateMask : BitVec 32) (slotMasks : Fin 20 → BitVec 32) (frequency : Frequency) (counts : ℕ → Option Counts)
    (vthrZeros : Channel → BitVec 32) (bench : Bench) :
    ∃ exit, Ends (mainTurn crateMask slotMasks frequency counts) (searchStart vthrZeros bench) exit := by
  have start : Running crateMask slotMasks (searchStart vthrZeros bench) := runningStart vthrZeros bench
  obtain ⟨exit, done⟩ := endsWithin (Running crateMask slotMasks) (measure crateMask slotMasks)
    (fun s t running turn => ⟨runningAgain running turn, measureAgain running turn⟩) start
  exact ⟨exit, _, done⟩

/- The loop ends, and with all channels settled unless a load or a link fails. -/
theorem mainLoopEnds (crateMask : BitVec 32) (slotMasks : Fin 20 → BitVec 32) (frequency : Frequency) (counts : ℕ → Option Counts)
    (vthrZeros : Channel → BitVec 32) (bench : Bench) :
    ∃ exit, Ends (mainTurn crateMask slotMasks frequency counts) (searchStart vthrZeros bench) exit ∧
      Ended crateMask slotMasks frequency counts exit := by
  obtain ⟨exit, ends⟩ := searchStops crateMask slotMasks frequency counts vthrZeros bench
  exact ⟨exit, ends, searchSettled ends⟩

end Runs

end PennDaq.NoiseSearch
