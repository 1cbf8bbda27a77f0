import PennDaq.FECSettings
import PennDaq.NoiseChannels
import PennDaq.NoiseSearch

/-! The thresholds that `FindNoise` posts, and the field of `MB` that they end up in. -/
namespace PennDaq.NoiseThresholds
open Lib.CNumber
open Lib.JsonTree
open Lib.Loop
open FECSettings
open FindNoise
open NoiseChannels
open NoiseSearch

structure PostedRight (zero noiseless : BitVec 32) : Prop where
  least : zero.toNat+5 ≤ noiseless.toNat
  most : noiseless.toNat ≤ 255
  stored : (byteOf (some (ofNat noiseless.toNat))).toNat = noiseless.toNat

theorem postedRange (zero noiseless : BitVec 32) :
    PostedRight zero noiseless ↔ zero.toNat+5 ≤ noiseless.toNat ∧ noiseless.toNat ≤ 255 := by
  refine ⟨fun right => ⟨right.least, right.most⟩, fun range => ⟨range.1, range.2, ?_⟩⟩
  rw [byteOf, intOf, getNumberNat, toUIntNat, BitVec.toNat_ofNat]
  exact Nat.mod_eq_of_lt (by omega)

def InRange (zero vthr : BitVec 32) : Prop := zero.toNat+5 ≤ vthr.toNat ∧ vthr.toNat ≤ 255

section Tuning
variable {frequency : Frequency} {vthrZeros : Channel → BitVec 32} {c : Channel}

def Tuned (zero : BitVec 32) (steps : ℕ) (vthr : BitVec 32) : Prop :=
  vthr.toNat ≤ 255 ∧ (0 < steps → zero.toNat+5 ≤ vthr.toNat ∧ vthr.toNat ≤ 253)

theorem tuneTurns (low : (vthrZeros c).toNat ≤ 250) :
    Turns (fun _ => false) (tuneChannel frequency vthrZeros) (fun vthr => vthr.toNat ≤ 255) (Tuned (vthrZeros c))
      (InRange (vthrZeros c)) c where
  first vthr most := ⟨most, fun more => absurd more (Nat.lt_irrefl 0)⟩
  skip _ _ _ spent := absurd spent Bool.false_ne_true
  again steps vthr noise vthr' tuned _ next := by
    obtain ⟨most, stepped⟩ := tuned
    have step := tuneCases frequency vthrZeros c vthr noise steps
    rw [next] at step
    cases step with
    | down inside far =>
      have range : (vthrZeros c).toNat+5 ≤ (vthr-1).toNat ∧ (vthr-1).toNat ≤ 253 := by bv_omega
      exact ⟨by omega, fun _ => range⟩
  leave steps vthr noise vthr' tuned _ last := by
    obtain ⟨most, stepped⟩ := tuned
    unfold InRange
    have step := tuneCases frequency vthrZeros c vthr noise steps
    rw [last] at step
    cases step with
    | full => exact ⟨by change _ ≤ 255; omega, Nat.le_refl 255⟩
    | hard inside near | harder inside near => bv_omega
    | above inside far | last inside far => bv_omega
    | back inside far =>
      split
      · bv_omega
      · bv_omega

theorem noisyTurns (zero : BitVec 32) (c : Channel) :
    Turns (fun vthr => vthr.toNat > 250) (fun _ => stepNoisy) (InRange zero) (fun _ => InRange zero) (InRange zero) c where
  first vthr range := range
  skip _ _ range _ := range
  again steps vthr noise vthr' range under next := by
    have under := of_decide_eq_false under
    unfold InRange at *
    have step := noisyCases vthr noise steps
    rw [next] at step
    cases step with
    | up => bv_omega
  leave steps vthr noise vthr' range under last := by
    have under := of_decide_eq_false under
    unfold InRange at *
    have step := noisyCases vthr noise steps
    rw [last] at step
    cases step with
    | quiet => exact range
    | stuck => bv_omega

theorem plusOneRange {zero vthr : BitVec 32} (range : InRange zero vthr) (plusOne : Bool) :
    InRange zero (plusOneMore plusOne vthr) := by
  unfold InRange plusOneMore at *
  split
  · split
    · bv_omega
    · exact range
  · exact range

end Tuning

section Runs
variable {crateMask : BitVec 32} {slotMasks : Fin 20 → BitVec 32} {frequency : Frequency} {vthrZeros : Channel → BitVec 32}
  {c : Channel}

theorem maskedParts (masked : inMask crateMask slotMasks c.1 c.2.1 = true) :
    ((maskedCrates crateMask).Nodup ∧ c.1 ∈ maskedCrates crateMask) ∧ (slotMasks c.1).getLsbD c.2.1 = true := by
  have parts := Bool.and_eq_true_iff.mp masked
  exact ⟨⟨maskedCratesNodup crateMask, maskedCratesMem.mpr parts.1⟩, parts.2⟩

theorem tunedEnds {before between after : BitVec 32 → Prop} {during during' : ℕ → BitVec 32 → Prop}
    (masked : inMask crateMask slotMasks c.1 c.2.1 = true)
    (tune : Turns (fun _ => false) (tuneChannel frequency vthrZeros) before during between c)
    (noisy : Turns (fun vthr => vthr.toNat > 250) (fun _ => stepNoisy) between during' after c)
    {counts counts' : ℕ → Option (BitVec 32 × BitVec 32)} {s : Search} {t u : Tuner} (start : before (progressOf s c).vthr)
    (ends : Ends (tuneTurn slotMasks frequency vthrZeros counts) (tuneStart crateMask slotMasks s) (some t))
    (ends' : Ends (noisyTurn slotMasks counts') (noisyStart crateMask t) (some u)) : after (u.currentVthr2 c) := by
  obtain ⟨crates, slot⟩ := maskedParts masked
  have copy : (tuneStart crateMask slotMasks s).currentVthr2 c = (progressOf s c).vthr := if_pos masked
  have first := channelEnds slot tune crates ⟨rfl, rfl⟩ (by rw [copy]; exact start) ends
  exact channelEnds slot noisy (s := noisyStart crateMask t) crates ⟨rfl, rfl⟩ first ends'

theorem settledMost {last : Counts} {s : Search} (settled : Settled frequency last s c) : (progressOf s c).vthr.toNat ≤ 255 := by
  rcases settled with ⟨-, zero | full⟩ | ⟨-, range, -⟩
  · exact (congrArg BitVec.toNat zero).trans_le (Nat.zero_le _)
  · exact (congrArg BitVec.toNat full).le
  · exact range.2.trans (Nat.le_succ _)

theorem postedLow {hardware : Hardware} {plusOne : Bool} {noiseless : Channel → BitVec 32}
    (posts : Posts crateMask slotMasks frequency vthrZeros hardware plusOne noiseless)
    (masked : inMask crateMask slotMasks c.1 c.2.1 = true) (low : (vthrZeros c).toNat ≤ 250) :
    InRange (vthrZeros c) (noiseless c) := by
  obtain ⟨bench, s, t, u, search, tuning, noisy, rfl⟩ := posts.ends
  obtain ⟨n, last, -, -, settled⟩ := searchSettled search
  exact plusOneRange (tunedEnds masked (tuneTurns low) (noisyTurns (vthrZeros c) c) (settledMost (settled c masked)) tuning noisy)
    plusOne

theorem thresholdsExact (crateMask : BitVec 32) (slotMasks : Fin 20 → BitVec 32) (frequency : Frequency)
    (vthrZeros : Channel → BitVec 32) (hardware : Hardware) (plusOne : Bool) (noiseless : Channel → BitVec 32)
    (posts : Posts crateMask slotMasks frequency vthrZeros hardware plusOne noiseless) (c : Channel)
    (masked : inMask crateMask slotMasks c.1 c.2.1 = true) (usable : (vthrZeros c).toNat < 255) :
    PostedRight (vthrZeros c) (noiseless c) ↔ (vthrZeros c).toNat ≤ 250 := by
  rw [postedRange]
  exact ⟨fun range => by omega, fun low => postedLow posts masked low⟩

theorem someSearch (crateMask : BitVec 32) (slotMasks : Fin 20 → BitVec 32) (frequency : Frequency) (vthrZeros : Channel → BitVec 32)
    {counts : ℕ → Option Counts} (given : ∀ n, counts n ≠ none) (bench : Bench) :
    ∃ s, Ends (mainTurn crateMask slotMasks frequency counts) (searchStart vthrZeros bench) (some s) := by
  obtain ⟨exit, search⟩ := searchStops crateMask slotMasks frequency counts vthrZeros bench
  have settled := searchSettled search
  cases exit with
  | none =>
    obtain ⟨n, failed⟩ := settled
    exact absurd failed (given n)
  | some s => exact ⟨s, search⟩

theorem somePosts (crateMask : BitVec 32) (slotMasks : Fin 20 → BitVec 32) (frequency : Frequency) (vthrZeros : Channel → BitVec 32)
    {hardware : Hardware} (plusOne : Bool)
    (given : (∀ n, hardware.main n ≠ none) ∧ (∀ n, hardware.tuning n ≠ none) ∧ ∀ n, hardware.noisy n ≠ none) (bench : Bench) :
    ∃ noiseless, Posts crateMask slotMasks frequency vthrZeros hardware plusOne noiseless := by
  have tuneBound (c : Channel) (vthr noise : BitVec 32) (steps : ℕ) (vthr' : BitVec 32) (few : steps ≤ 3)
      (next : tuneChannel frequency vthrZeros c vthr noise steps = .again vthr') : steps < 3 := by
    have step := tuneCases frequency vthrZeros c vthr noise steps
    rw [next] at step
    cases step with
    | down inside far more => omega
  have noisyBound (c : Channel) (vthr noise : BitVec 32) (steps : ℕ) (vthr' : BitVec 32) (_ : steps ≤ 5)
      (next : stepNoisy vthr noise steps = .again vthr') : steps < 5 := by
    have step := noisyCases vthr noise steps
    rw [next] at step
    cases step with
    | up few => omega
  obtain ⟨s, search⟩ := someSearch crateMask slotMasks frequency vthrZeros given.1 bench
  obtain ⟨exit, tuning, failed⟩ := @channelsEnd slotMasks (fun _ => false) _ hardware.tuning
    (tuneStart crateMask slotMasks s) 3 tuneBound ⟨orderedStart (maskedCratesNodup crateMask) ⟨rfl, rfl⟩, Nat.zero_le _⟩
  cases exit with
  | none =>
    obtain ⟨n, failed⟩ := failed rfl
    exact absurd failed (given.2.1 n)
  | some t =>
    obtain ⟨exit, noisy, failed⟩ := @channelsEnd slotMasks (fun vthr => vthr.toNat > 250) _ hardware.noisy
      (noisyStart crateMask t) 5 noisyBound ⟨orderedStart (maskedCratesNodup crateMask) ⟨rfl, rfl⟩, Nat.zero_le _⟩
    cases exit with
    | none =>
      obtain ⟨n, failed⟩ := failed rfl
      exact absurd failed (given.2.2 n)
    | some u => exact ⟨_, ⟨bench, s, t, u, search, tuning, noisy, rfl⟩⟩

end Runs

def oneNoise (at' : ℕ) (tuning : ℕ → Option (BitVec 32 × BitVec 32)) : Hardware where
  main n := some ⟨fun _ => 0,fun _ => if n = at' then 3 else 1⟩
  tuning := tuning
  noisy _ := some (0,1)

def path (zero : BitVec 32) (at' : ℕ) : ℕ → Progress
  | 0 => started zero
  | n+1 => checked (decide (n = at')) (decide (n < maxIterations)) (path zero at' n)

section Path
variable {zero : BitVec 32} {at' n : ℕ} {tuning : ℕ → Option (BitVec 32 × BitVec 32)} {c : Channel}

theorem limitEight : limit 8 = 2 := by
  norm_num [limit, sleepTime, show (8 : Frequency).value = 8 from rfl]

theorem noiseCounted (at' n : ℕ) (c : Channel) :
    noisy 8 (readoutNoise ⟨fun _ => 0,fun _ => if n = at' then 3 else 1⟩ c) = decide (n = at') := by
  have three : noisy 8 3 = true := decide_eq_true (by rw [limitEight, show (3 : BitVec 32).toNat = 3 from rfl]; norm_num)
  have one : noisy 8 1 = false := decide_eq_false (by rw [limitEight, show (1 : BitVec 32).toNat = 1 from rfl]; norm_num)
  unfold readoutNoise
  by_cases same : n = at'
  · simp only [if_pos same, decide_eq_true same]
    exact three
  · simp only [if_neg same, decide_eq_false same]
    exact one

theorem pathStep {s : Search} {counts : Counts} (given : (oneNoise at' tuning).main s.iterations = some counts)
    (masked : Masked 1 (fun _ => 1) c) (here : s.iterations = n ∧ progressOf s c = path zero at' n) :
    progressOf (iteration 1 (fun _ => 1) 8 counts s) c = path zero at' (n+1) := by
  cases given
  rw [iterationChannel _ s masked, noiseCounted, here.1, here.2, path]

theorem pathReached {bench : Bench} {s : Search} (masked : Masked 1 (fun _ => 1) c)
    (reached : Reaches (mainTurn 1 (fun _ => 1) 8 (oneNoise at' tuning).main) (searchStart (fun _ => zero) bench) n s) :
    s.iterations = n ∧ progressOf s c = path zero at' n := by
  have start : progressOf (searchStart (fun _ => zero) bench) c = path zero at' 0 := by
    rw [path, ← slotStarted (fun _ => zero) c.2.2]
    rfl
  refine reachesInvariant (fun n s => s.iterations = n ∧ progressOf s c = path zero at' n) ⟨rfl, start⟩
    (fun n s t here turn => ?_) reached
  obtain ⟨counts, given, rfl, -⟩ := againIteration turn
  exact ⟨congrArg (· + 1) here.1, pathStep given masked here⟩

theorem pathSearched {bench : Bench} {s : Search} {vthr : BitVec 32}
    (ends : ∀ n, (path zero at' n).done = true ∨ (path zero at' n).error = true → (path zero at' n).vthr = vthr)
    (search : Ends (mainTurn 1 (fun _ => 1) 8 (oneNoise at' tuning).main) (searchStart (fun _ => zero) bench) (some s))
    (masked : Masked 1 (fun _ => 1) c) : (progressOf s c).vthr = vthr := by
  obtain ⟨n, t, reached, stop⟩ := endsReaches search
  have here := pathReached masked reached
  rcases stopIteration stop with failed | ⟨counts, u, exit, given, last, done⟩
  · exact absurd failed.1 (Option.some_ne_none s)
  · obtain rfl := Option.some.inj exit
    have step : progressOf s c = path zero at' (n+1) := by
      rw [last]
      exact pathStep given masked here
    have ended := (allDoneChannels s).mp done c masked
    rw [step] at ended ⊢
    exact ends _ ended

theorem oneNoisePosts (zero : BitVec 32) (at' : ℕ) (plusOne : Bool) :
    ∃ noiseless, Posts 1 (fun _ => 1) 8 (fun _ => zero) (oneNoise at' fun _ => some (0,1)) plusOne noiseless :=
  somePosts 1 (fun _ => 1) 8 (fun _ => zero) plusOne
    ⟨fun _ => Option.some_ne_none _, fun _ => Option.some_ne_none _, fun _ => Option.some_ne_none _⟩
    ⟨fun _ => 0,fun _ => 0,fun _ => 0⟩

end Path

theorem oneMasked : Masked 1 (fun _ => 1) (0,0,0) := by decide

theorem thresholdsExactZero : ∃ noiseless,
    Posts 1 (fun _ => 1) 8 (fun _ => 0) (oneNoise 0 fun _ => some (0,1)) true noiseless ∧ PostedRight 0 (noiseless (0,0,0)) := by
  obtain ⟨noiseless, posts⟩ := oneNoisePosts 0 0 true
  exact ⟨noiseless, posts, (thresholdsExact 1 (fun _ => 1) 8 (fun _ => 0) (oneNoise 0 fun _ => some (0,1)) true noiseless posts
    (0,0,0) oneMasked (by decide)).mpr (by decide)⟩

/- From 276 down to 253, and up again. -/

theorem hardLate (n : ℕ) : path 251 23 (25+n) = ⟨true,true,false,254⟩ := by
  induction n with
  | zero => decide
  | succ n ih =>
    rw [← Nat.add_assoc, path, ih, decide_eq_false (by omega : ¬ 25+n = 23)]
    rfl

theorem hardEnds (n : ℕ) (ended : (path 251 23 n).done = true ∨ (path 251 23 n).error = true) : (path 251 23 n).vthr = 254 := by
  have early : ∀ n < 25, ¬ ((path 251 23 n).done = true ∨ (path 251 23 n).error = true) := by decide
  have late : 25 ≤ n := Nat.le_of_not_lt fun less => early n less ended
  rw [← Nat.add_sub_cancel' late, hardLate]

/- 254 is less than six counts above 251, which makes it 256, and nothing lowers that. -/

theorem hardFirst (noise : BitVec 32) : tuneChannel 8 (fun _ => 251) (0,0,0) 254 noise 0 = .stop 256 := by
  unfold tuneChannel
  rw [if_neg (by decide), if_pos (by decide), if_pos rfl]
  rfl

theorem hardTurns : Turns (fun _ => false) (tuneChannel 8 fun _ => 251) (fun vthr => vthr = 254)
    (fun steps vthr => steps = 0 ∧ vthr = 254) (fun vthr => vthr = 256) (0,0,0) where
  first vthr same := ⟨rfl, same⟩
  skip _ _ _ spent := absurd spent Bool.false_ne_true
  again steps vthr noise vthr' now _ next := by
    rw [now.1, now.2, hardFirst] at next
    contradiction
  leave steps vthr noise vthr' now _ last := by
    rw [now.1, now.2, hardFirst] at last
    exact (Turn.stop.inj last).symm

theorem hardSkipped : Turns (fun vthr => vthr.toNat > 250) (fun _ => stepNoisy) (fun vthr => vthr = 256)
    (fun _ vthr => vthr = 256) (fun vthr => vthr = 256) (0,0,0) where
  first vthr same := same
  skip _ _ same _ := same
  again steps vthr noise vthr' now under _ := by
    rw [now] at under
    exact absurd under (by decide)
  leave steps vthr noise vthr' now under _ := by
    rw [now] at under
    exact absurd under (by decide)

theorem hardLimit : ∃ noiseless,
    Posts 1 (fun _ => 1) 8 (fun _ => 251) (oneNoise 23 fun _ => some (0,1)) true noiseless ∧
      noiseless (0,0,0) = 256 ∧ byteOf (some (ofNat (noiseless (0,0,0)).toNat)) = 0 ∧
      ¬ PostedRight 251 (noiseless (0,0,0)) := by
  obtain ⟨noiseless, posts⟩ := oneNoisePosts 251 23 true
  have value : noiseless (0,0,0) = 256 := by
    obtain ⟨bench, s, t, u, search, tuning, noisy, rfl⟩ := posts.ends
    have tuned := tunedEnds oneMasked hardTurns hardSkipped (pathSearched hardEnds search oneMasked) tuning noisy
    simp only [tuned]
    rfl
  refine ⟨noiseless, posts, value, ?_, fun right => ?_⟩
  · rw [value, byteOf, intOf, getNumberNat, toUIntNat]
    rfl
  · have most := right.most
    rw [value] at most
    exact absurd most (by decide)

end PennDaq.NoiseThresholds
