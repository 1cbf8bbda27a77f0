import Mathlib.Data.Rat.Floor
import PennDaq.GTValidScan
import PennDaq.Lib.Bisection
import PennDaq.Lib.Loop

/-! `MeasureGTValid`: the length of the window of one channel, by bisection. -/
namespace PennDaq.GTValidMeasure
open Lib.Bisection
open Lib.Loop
open Lib.Mask
open GTValidScan

def gtMin : ℚ := 250

/- The limits, and what `IsGTValidLonger` has reported so far, the last one at the end. -/
structure Search where
  limits : Bracket ℚ
  answers : List Bool

section Hardware
variable (crateNum : Fin 20) (slotNum : Fin 16)

def islonger (results : Results) : Bool :=
  isGTValidLonger (1#32 <<< crateNum.val) (fun _ => 1#32 <<< slotNum.val) results crateNum != 0

/- `hardware n time` is what call `n` reads for the window `time`. -/
def measureTurn (hardware : ℕ → ℚ → Results) (s : Search) : Turn Search Search :=
  let longer := islonger crateNum slotNum (hardware s.answers.length s.limits.middle)
  let next : Search := ⟨s.limits.halve longer,s.answers ++ [longer]⟩
  if next.limits.upper-next.limits.lower ≤ 1 then .stop next else .again next

def searchStart (maxGtvalid : ℚ) : Search := ⟨⟨gtMin,maxGtvalid⟩,[]⟩

def measured (final : ℚ → Results) (maxGtvalid : ℚ) (s : Search) : ℚ :=
  if s.limits.upper = maxGtvalid then -2
  else if islonger crateNum slotNum (final s.limits.upper) then s.limits.upper else -1

/- A run of `MeasureGTValid`: how its loop ends and what it returns. -/
def MeasureGTValid (hardware : ℕ → ℚ → Results) (final : ℚ → Results) (maxGtvalid : ℚ) (s : Search) (v : ℚ) : Prop :=
  Ends (measureTurn crateNum slotNum hardware) (searchStart maxGtvalid) s ∧
    v = measured crateNum slotNum final maxGtvalid s

def Monotone (hardware : ℕ → ℚ → Results) (g : ℚ) : Prop :=
  ∀ n time, Longer crateNum slotNum (hardware n time crateNum slotNum) ↔ time < g

def OnEdge (maxGtvalid g : ℚ) : Prop := g = gtMin ∧ ∃ k : ℕ, 1 ≤ k ∧ maxGtvalid = gtMin+2^k

structure Sound (final : ℚ → Results) (maxGtvalid g : ℚ) (s : Search) (v : ℚ) : Prop where
  found : v ≠ -2 → islonger crateNum slotNum (final s.limits.upper) = true →
    v = s.limits.upper ∧ g ≤ v ∧ v ≤ g+1 ∧ (v = g+1 ↔ OnEdge maxGtvalid g)
  failed : v = -2 ↔ ∀ a ∈ s.answers, a = true
  beyond : v = -2 → maxGtvalid-1 < g

end Hardware

section Run
variable {crateNum : Fin 20} {slotNum : Fin 16} {hardware : ℕ → ℚ → Results} {final : ℚ → Results}
  {maxGtvalid g : ℚ}

theorem islongerExact (results : Results) :
    islonger crateNum slotNum results = true ↔ Longer crateNum slotNum (results crateNum slotNum) := by
  have bit (i : Fin 16) : (isGTValidLonger (1#32 <<< crateNum.val) (fun _ => 1#32 <<< slotNum.val) results crateNum).getLsbD i
      = (decide (i = slotNum) && decide (Longer crateNum i (results crateNum i))) := by
    rw [longerBit, oneBit (by omega), oneBit (by omega), decide_eq_true rfl, Bool.true_and]
    simp only [Fin.val_inj]
  rw [islonger, bne_iff_ne]
  constructor
  · intro some'
    obtain ⟨k, set⟩ := someBit some'
    have low : k < 16 := by
      by_contra high
      rw [BitVec.getLsbD_of_ge _ k (Nat.le_of_not_lt high)] at set
      contradiction
    rw [show k = (⟨k, low⟩ : Fin 16).val from rfl, bit, Bool.and_eq_true, decide_eq_true_eq, decide_eq_true_eq] at set
    exact set.1 ▸ set.2
  · intro longer none'
    have set := bit slotNum
    rw [emptyBit none', decide_eq_true rfl, decide_eq_true longer] at set
    contradiction

structure Searched (g maxGtvalid : ℚ) (n : ℕ) (s : Search) : Prop where
  limits : s.limits = (searchStart maxGtvalid).limits.follow s.answers
  calls : s.answers.length = n
  agrees : Agrees g (searchStart maxGtvalid).limits s.answers

def nextSearch (crateNum : Fin 20) (slotNum : Fin 16) (hardware : ℕ → ℚ → Results) (s : Search) : Search :=
  let longer := islonger crateNum slotNum (hardware s.answers.length s.limits.middle)
  ⟨s.limits.halve longer,s.answers ++ [longer]⟩

theorem turnCases (s : Search) : (1 < (nextSearch crateNum slotNum hardware s).limits.width ∧
    measureTurn crateNum slotNum hardware s = .again (nextSearch crateNum slotNum hardware s)) ∨
    ((nextSearch crateNum slotNum hardware s).limits.width ≤ 1 ∧
      measureTurn crateNum slotNum hardware s = .stop (nextSearch crateNum slotNum hardware s)) := by
  by_cases narrow : (nextSearch crateNum slotNum hardware s).limits.width ≤ 1
  · exact .inr ⟨narrow, if_pos narrow⟩
  · exact .inl ⟨not_le.mp narrow, if_neg narrow⟩

theorem searchedNext (monotone : Monotone crateNum slotNum hardware g) {n : ℕ} {s : Search}
    (searched : Searched g maxGtvalid n s) :
    Searched g maxGtvalid (n+1) (nextSearch crateNum slotNum hardware s) := by
  obtain ⟨limits, calls, agrees⟩ := searched
  refine ⟨?_, ?_, agreesAgain agrees ?_⟩
  · change s.limits.halve _ = (searchStart maxGtvalid).limits.follow (s.answers ++ [_])
    rw [followAgain, ← limits]
  · change (s.answers ++ [_]).length = n+1
    rw [List.length_append, calls, List.length_singleton]
  · rw [islongerExact, monotone, limits]

theorem searchedWidth {n : ℕ} {s : Search} (searched : Searched g maxGtvalid n s) :
    s.limits.width = (maxGtvalid-gtMin)/2^n := by
  rw [searched.limits, followWidth, searched.calls]
  rfl

theorem reachedSearched (monotone : Monotone crateNum slotNum hardware g) {n : ℕ} {s : Search}
    (reached : Reaches (measureTurn crateNum slotNum hardware) (searchStart maxGtvalid) n s) :
    Searched g maxGtvalid n s ∧ (n = 0 ∨ 1 < s.limits.width) := by
  have start : Searched g maxGtvalid 0 (searchStart maxGtvalid) := ⟨rfl, rfl, trivial⟩
  refine reachesInvariant (fun n s => Searched g maxGtvalid n s ∧ (n = 0 ∨ 1 < s.limits.width))
    ⟨start, .inl rfl⟩ (fun n s u kept turn => ?_) reached
  rcases @turnCases crateNum slotNum hardware s with ⟨wide, again⟩ | ⟨-, stop⟩
  · cases again.symm.trans turn
    exact ⟨searchedNext monotone kept.1, .inr wide⟩
  · cases stop.symm.trans turn

theorem bisectionEnds (monotone : Monotone crateNum slotNum hardware g) :
    ∃ s, Ends (measureTurn crateNum slotNum hardware) (searchStart maxGtvalid) s := by
  have bounded (n : ℕ) (s : Search) (reached : Reaches (measureTurn crateNum slotNum hardware) (searchStart maxGtvalid) n s) :
      n ≤ ⌈maxGtvalid-gtMin⌉₊ := by
    obtain ⟨searched, zero | wide⟩ := reachedSearched monotone reached
    · rw [zero]
      exact Nat.zero_le _
    · rw [searchedWidth searched, lt_div_iff₀ (by positivity), one_mul] at wide
      have power : (n : ℚ) < 2^n := by exact_mod_cast Nat.lt_two_pow_self
      exact_mod_cast ((power.trans wide).trans_le (Nat.le_ceil _)).le
  exact endsBounded bounded

theorem endedSearched (monotone : Monotone crateNum slotNum hardware g) {s : Search}
    (ends : Ends (measureTurn crateNum slotNum hardware) (searchStart maxGtvalid) s) :
    ∃ n, Searched g maxGtvalid (n+1) s ∧ s.limits.width ≤ 1 ∧ (n = 0 ∨ 1 < 2*s.limits.width) := by
  obtain ⟨n, before, reached, stop⟩ := endsReaches ends
  obtain ⟨searched, wide⟩ := reachedSearched monotone reached
  rcases @turnCases crateNum slotNum hardware before with ⟨-, again⟩ | ⟨narrow, last⟩
  · cases again.symm.trans stop
  · cases last.symm.trans stop
    refine ⟨n, searchedNext monotone searched, narrow, wide.imp_right fun wide => ?_⟩
    change 1 < 2*(before.limits.halve _).width
    rw [halveWidth]
    linarith

theorem powerMet {k n : ℕ} (some' : 1 ≤ k) (narrow : (2 : ℚ)^k/2^(n+1) ≤ 1)
    (before : n = 0 ∨ 1 < 2*((2 : ℚ)^k/2^(n+1))) : k = n+1 := by
  rw [div_le_one (by positivity), pow_le_pow_iff_right₀ one_lt_two] at narrow
  rcases before with zero | wide
  · omega
  · rw [← mul_div_assoc, one_lt_div (by positivity), ← pow_succ', pow_lt_pow_iff_right₀ one_lt_two] at wide
    omega

theorem startWide (wide : gtMin < maxGtvalid) : 0 < (searchStart maxGtvalid).limits.width := sub_pos.mpr wide

section Ended
variable {n : ℕ} {s : Search} (searched : Searched g maxGtvalid (n+1) s)

include searched

theorem someAnswer : s.answers ≠ [] := by
  intro none'
  have calls := searched.calls
  rw [none', List.length_nil] at calls
  contradiction

theorem upperIff (wide : gtMin < maxGtvalid) : s.limits.upper = maxGtvalid ↔ ∀ a ∈ s.answers, a = true := by
  rw [searched.limits]
  exact (followEnds (startWide wide) s.answers).2.2

theorem lowerIff (wide : gtMin < maxGtvalid) :
    gtMin ≤ s.limits.lower ∧ (s.limits.lower = gtMin ↔ ∀ a ∈ s.answers, a = false) := by
  rw [searched.limits]
  exact (followEnds (startWide wide) s.answers).1

theorem upperAbove (wide : gtMin < maxGtvalid) : gtMin < s.limits.upper := by
  have width := searchedWidth searched
  have positive : 0 < s.limits.width := width ▸ div_pos (sub_pos.mpr wide) (by positivity)
  exact lt_of_le_of_lt (lowerIff searched wide).1 (sub_pos.mp positive)

theorem allLonger (wide : gtMin < maxGtvalid) (narrow : s.limits.width ≤ 1) (all : ∀ a ∈ s.answers, a = true) :
    maxGtvalid-1 < g := by
  obtain ⟨a, mem⟩ := List.exists_mem_of_ne_nil _ (someAnswer searched)
  have low := (agreesBracket searched.agrees).2.1 (.inr (all a mem ▸ mem))
  rw [← searched.limits] at low
  have high := (upperIff searched wide).mpr all
  unfold Bracket.width at narrow
  linarith

theorem edgeShort (wide : gtMin < maxGtvalid) (edge : g = gtMin) : s.limits.lower = gtMin := by
  obtain ⟨above, exact'⟩ := lowerIff searched wide
  refine exact'.mpr fun a mem => ?_
  cases a with
  | false => rfl
  | true =>
    have low := (agreesBracket searched.agrees).2.1 (.inr mem)
    rw [← searched.limits, edge] at low
    exact absurd above (not_le.mpr low)

theorem someShort (wide : gtMin < maxGtvalid) (least : gtMin ≤ g) (narrow : s.limits.width ≤ 1)
    (before : n = 0 ∨ 1 < 2*s.limits.width) (short : ¬ ∀ a ∈ s.answers, a = true) :
    g ≤ s.limits.upper ∧ s.limits.upper ≤ g+1 ∧ (s.limits.upper = g+1 ↔ OnEdge maxGtvalid g) := by
  have mem : false ∈ s.answers := by
    by_contra none'
    exact short fun a mem => Bool.eq_true_of_not_eq_false fun same => none' (same ▸ mem)
  obtain ⟨low, less, high⟩ := agreesBracket searched.agrees
  have low := low least
  have high := high (.inr mem)
  have size := searchedWidth searched
  rw [← searched.limits] at low high less
  have ends : s.limits.upper = s.limits.lower + s.limits.width := (add_sub_cancel _ _).symm
  refine ⟨high, by linarith, fun last => ?_, fun edge => ?_⟩
  · have none' : true ∉ s.answers := fun mem => by linarith [less (.inr mem)]
    have lower := (lowerIff searched wide).2.mpr fun a mem => Bool.eq_false_of_not_eq_true fun same => none' (same ▸ mem)
    have unit : s.limits.width = 1 := by linarith
    rw [unit, eq_comm, div_eq_one_iff_eq (by positivity)] at size
    exact ⟨by linarith, n+1, Nat.le_add_left 1 n, by linarith⟩
  · obtain ⟨least', k, some', max⟩ := edge
    rw [show maxGtvalid-gtMin = 2^k by linarith] at size
    rw [size] at narrow before
    rw [powerMet some' narrow before, div_self (by positivity)] at size
    rw [ends, size, edgeShort searched wide least', least']

end Ended

theorem measuredSound (wide : gtMin < maxGtvalid) (least : gtMin ≤ g) (monotone : Monotone crateNum slotNum hardware g)
    {s : Search} {v : ℚ} (run : MeasureGTValid crateNum slotNum hardware final maxGtvalid s v) :
    Sound crateNum slotNum final maxGtvalid g s v := by
  obtain ⟨n, searched, narrow, before⟩ := endedSearched monotone run.1
  have upper := upperIff searched wide
  have above := upperAbove searched wide
  have value := run.2
  unfold measured at value
  have failed : v = -2 ↔ s.limits.upper = maxGtvalid := by
    refine ⟨fun same => by_contra fun other => ?_, fun same => value.trans (if_pos same)⟩
    rw [if_neg other] at value
    unfold gtMin at above
    split at value
    · linarith
    · linarith
  refine ⟨fun passed longer => ?_, failed.trans upper, fun same => allLonger searched wide narrow (upper.mp (failed.mp same))⟩
  rw [if_neg (failed.not.mp passed), if_pos longer] at value
  exact ⟨value, value ▸ someShort searched wide least narrow before (upper.not.mp (failed.not.mp passed))⟩

/- A window of any length that is not below `GTMIN` is found to one count. -/
theorem measureExact (wide : gtMin < maxGtvalid) (least : gtMin ≤ g) (monotone : Monotone crateNum slotNum hardware g) :
    (∃ s v, MeasureGTValid crateNum slotNum hardware final maxGtvalid s v) ∧
      ∀ s v, MeasureGTValid crateNum slotNum hardware final maxGtvalid s v →
        Sound crateNum slotNum final maxGtvalid g s v := by
  obtain ⟨s, ends⟩ := bisectionEnds monotone
  exact ⟨⟨s, _, ends, rfl⟩, fun s v run => measuredSound wide least monotone run⟩

end Run

def windowOf (g : ℚ) (_ : ℕ) (time : ℚ) : Results := fun _ _ => if time < g then 60 else 0

theorem windowMonotone (g : ℚ) : Monotone 0 0 (windowOf g) g := by
  intro n time
  unfold windowOf
  split
  · rename_i below
    exact iff_of_true (by decide) below
  · rename_i above
    exact iff_of_false (by decide) above

theorem measureExactDefault :
    (∃ s v, MeasureGTValid 0 0 (windowOf 400) (fun _ => fun _ _ => 60) 1000 s v) ∧
      ∀ s v, MeasureGTValid 0 0 (windowOf 400) (fun _ => fun _ _ => 60) 1000 s v →
        Sound 0 0 (fun _ => fun _ _ => 60) 1000 400 s v :=
  measureExact (by decide) (by decide) (windowMonotone 400)

/- A window of exactly `GTMIN`, with the limits two apart: the only probe is not longer. -/
theorem edgeReturned : Monotone 0 0 (windowOf 250) 250 ∧
    MeasureGTValid 0 0 (windowOf 250) (fun _ => fun _ _ => 60) 252 ⟨⟨250,251⟩,[false]⟩ 251 ∧ ¬ (251 : ℚ) < 250+1 := by
  have middle : (searchStart 252).limits.middle = 251 := by
    change ((252 : ℚ)-250)/2+250 = 251
    norm_num
  have short : windowOf 250 0 251 = fun _ _ => 0 := by
    unfold windowOf
    rw [if_neg (by norm_num)]
  have next : nextSearch 0 0 (windowOf 250) (searchStart 252) = ⟨⟨250,251⟩,[false]⟩ := by
    change (⟨(searchStart 252).limits.halve (islonger 0 0 (windowOf 250 0 (searchStart 252).limits.middle)),
      [islonger 0 0 (windowOf 250 0 (searchStart 252).limits.middle)]⟩ : Search) = _
    rw [middle, short, show islonger 0 0 (fun _ _ => 0) = false by decide, Bracket.halve, if_neg Bool.false_ne_true, middle]
    rfl
  refine ⟨windowMonotone 250, ⟨?_, ?_⟩, by norm_num⟩
  · rcases @turnCases 0 0 (windowOf 250) (searchStart 252) with ⟨wide, -⟩ | ⟨-, stop⟩
    · rw [next] at wide
      change (1 : ℚ) < 251-250 at wide
      norm_num at wide
    · rw [next] at stop
      exact (endsStop stop _).mpr rfl
  · rw [measured, if_neg (by norm_num), if_pos (by decide)]

end PennDaq.GTValidMeasure
