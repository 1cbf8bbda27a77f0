import PennDaq.PedestalMeans

/-! The squares of the RMS values that the four functions compute, beside the sample
variance. -/
namespace PennDaq.PedestalRms
open Lib.Sample
open Bundles
open Pedestals
open PedestalMeans

def Same (xs : List ℚ) : Prop := ∀ x ∈ xs, ∀ y ∈ xs, x = y

def hitsOf (crateNum : ℤ) (bundles : List Bundle) : List Hit :=
  (bundles.filter fun a => ((unpkCrateID a).toNat : ℤ) = crateNum).map unpackedHit

/- The sample variance, whatever the order of the bundles. -/
def RmsRight {β : Type} (bundles : β → List Bundle) (rms : β → ℚ) (given : β) (xs : List ℚ) : Prop :=
  rms given = sampleVariance xs ∧ ∀ other, (bundles given).Perm (bundles other) → rms other = rms given

/- The counters of the channel and of the cell have 16 bits; `m` is what is left of the
number of values. -/
def RmsFits (inChannel : ℕ) (xs : List ℚ) : Prop :=
  let n := xs.length
  let m := n % 2^16
  if inChannel % 2^16 = 0 then ∀ x ∈ xs, x = 0
  else if m ≤ 1 then Same xs
  else if n < 2^16 then n = 2 ∨ Same xs
  else ((m/(m-1) : ℕ) : ℚ)*n*(n-1)*(m*squares xs - xs.sum^2) = m^2*(n*squares xs - xs.sum^2)

section Factor
variable {xs : List ℚ} (some' : 1 < xs.length)

include some'

theorem someValue : xs ≠ [] := by
  rintro rfl
  contradiction

theorem sameSpread : spread xs = 0 ↔ Same xs := spreadZero (someValue some')

theorem lengthLess : (1 : ℚ) < xs.length := by exact_mod_cast some'

theorem plainFactor : ((xs.length/(xs.length-1) : ℕ) : ℚ)*spread xs = sampleVariance xs ↔ xs.length = 2 ∨ Same xs := by
  have less := lengthLess some'
  rw [sampleVariance, ← sameSpread some']
  by_cases two : xs.length = 2
  · rw [two]
    norm_num
  · have one : xs.length/(xs.length-1) = 1 := Nat.div_eq_of_lt_le (by omega) (by omega)
    have apart : (1 : ℚ) ≠ xs.length/(xs.length-1) := by
      rw [ne_eq, eq_div_iff (by linarith)]
      linarith
    rw [one, Nat.cast_one, mul_eq_mul_right_iff, or_iff_right apart, or_iff_right two]

theorem noFactor : 0 = sampleVariance xs ↔ Same xs := by
  have less := lengthLess some'
  have positive : (xs.length : ℚ)/(xs.length-1) ≠ 0 := div_ne_zero (by linarith) (by linarith)
  rw [sampleVariance, eq_comm, mul_eq_zero, or_iff_right positive, sameSpread some']

theorem rawSquares (nonneg : ∀ x ∈ xs, 0 ≤ x) : squares xs = sampleVariance xs ↔ ∀ x ∈ xs, x = 0 := by
  have two : (2 : ℚ) ≤ xs.length := by exact_mod_cast some'
  have length : (xs.length : ℚ) ≠ 0 := by linarith
  have before : (xs.length : ℚ)-1 ≠ 0 := by linarith
  have parts : squares xs = sampleVariance xs ↔ squares xs*(xs.length*(xs.length-2)) + xs.sum^2 = 0 := by
    rw [sampleVariance, spread, meanSquare, mean, ← sub_eq_zero]
    field_simp
    constructor
    · intro zero
      linear_combination zero
    · intro zero
      linear_combination zero
  have least : 0 ≤ squares xs*(xs.length*(xs.length-2)) :=
    mul_nonneg (squaresNonneg xs) (mul_nonneg (by linarith) (by linarith))
  rw [parts, add_eq_zero_iff_of_nonneg least (sq_nonneg _), sq_eq_zero_iff, sumZero nonneg]
  refine ⟨And.right, fun zero => ⟨?_, zero⟩⟩
  rw [(squaresAllZero xs).mpr zero, zero_mul]

theorem otherFactor (d m : ℚ) (nonzero : m ≠ 0) : d*(squares xs/m - (xs.sum/m)^2) = sampleVariance xs ↔
    d*xs.length*(xs.length-1)*(m*squares xs - xs.sum^2) = m^2*(xs.length*squares xs - xs.sum^2) := by
  have less := lengthLess some'
  have length : (xs.length : ℚ) ≠ 0 := by linarith
  have before : (xs.length : ℚ)-1 ≠ 0 := by linarith
  rw [sampleVariance, spread, meanSquare, mean]
  field_simp

end Factor

theorem processedHits (crateNum : ℤ) (bundles : List Bundle) (ped : Ped) :
    bundles.foldl (processBundle crateNum) ped = (hitsOf crateNum bundles).foldl addHit ped := by
  induction bundles generalizing ped with
  | nil => rfl
  | cons a later ih =>
    rw [List.foldl_cons, ih, hitsOf, hitsOf, processBundle, List.filter_cons]
    by_cases right : ((unpkCrateID a).toNat : ℤ) = crateNum
    · rw [if_neg (not_not_intro right), if_pos (decide_eq_true right)]
      rfl
    · rw [if_pos right, if_neg fun here => right (of_decide_eq_true here)]

theorem ownChannel {ped ped' : Ped} {i : Fin 32} (same : ped i = ped' i) (hits : List Hit) :
    hits.foldl addHit ped i = hits.foldl addHit ped' i := by
  induction hits generalizing ped ped' with
  | nil => exact same
  | cons h later ih =>
    refine ih ?_
    rw [addHit, addHit, Function.update_apply, Function.update_apply]
    by_cases here : i = h.channel
    · subst here
      rw [if_pos rfl, if_pos rfl, same]
    · rw [if_neg here, if_neg here, same]

theorem pedRunFinal (crateNum : ℤ) (bundles : List Bundle) (i : Fin 32) :
    pedRun crateNum bundles i = finalStep (sums (hitsOf crateNum bundles) i) := by
  rw [pedRun, processedHits, sums]

theorem byChannelFinal (crateNum : ℤ) (heap : Ped) (bundles : List Bundle) (i : Fin 32) :
    pedRunByChannel crateNum i heap bundles = finalStep (sums (hitsOf crateNum bundles) i) := by
  rw [pedRunByChannel, processedHits, sums]
  have own : Function.update heap i emptyPedestal i = emptyPedestal := Function.update_self ..
  exact congrArg finalStep (@ownChannel _ (fun _ => emptyPedestal) i own _)

theorem valuesPerm {hits hits' : List Hit} (perm : hits.Perm hits') (i : Fin 32) (j : Fin 16) (q : Quantity) :
    (values hits i j q).Perm (values hits' i j q) := (perm.filter _).map _

theorem hitsPerm {bundles bundles' : List Bundle} (perm : bundles.Perm bundles') (crateNum : ℤ) :
    (hitsOf crateNum bundles).Perm (hitsOf crateNum bundles') := (perm.filter _).map _

section Order
variable {hits hits' : List Hit} (perm : hits.Perm hits') (i : Fin 32)

include perm

theorem sumsPerm : sums hits i = sums hits' i := by
  have channel : (sums hits i).perChannel = (sums hits' i).perChannel := by
    rw [sums, sums, channelSum, channelSum, ofChannel, ofChannel, (perm.filter _).length_eq]
  have cell (j : Fin 16) : (sums hits i).thiscell j = (sums hits' i).thiscell j := by
    have count : ((sums hits i).thiscell j).perCell = ((sums hits' i).thiscell j).perCell := by
      rw [sums, sums, (cellSums _ hits i j).1, (cellSums _ hits' i j).1, ofCell, ofCell, (perm.filter _).length_eq]
    have bar : ((sums hits i).thiscell j).bar = ((sums hits' i).thiscell j).bar := by
      funext q
      rw [(cellSum hits i j q).1, (cellSum hits' i j q).1, sumPerm (valuesPerm perm i j q)]
    have rms : ((sums hits i).thiscell j).rms = ((sums hits' i).thiscell j).rms := by
      funext q
      rw [(cellSum hits i j q).2, (cellSum hits' i j q).2, squaresPerm (valuesPerm perm i j q)]
    exact Cell.mk.injEq .. |>.mpr ⟨count, bar, rms⟩
  exact Pedestal.mk.injEq .. |>.mpr ⟨channel, funext cell⟩

end Order

theorem unpackedNonneg (a : Bundle) (q : Quantity) : 0 ≤ (unpackedHit a).value q := by
  cases q with
  | qlx | qhl | qhs | tac => exact Nat.cast_nonneg _

theorem hitsNonneg (crateNum : ℤ) (bundles : List Bundle) (i : Fin 32) (j : Fin 16) (q : Quantity) :
    ∀ x ∈ values (hitsOf crateNum bundles) i j q, 0 ≤ x := by
  intro x mem
  obtain ⟨h, here, rfl⟩ := List.mem_map.mp mem
  obtain ⟨a, -, rfl⟩ := List.mem_map.mp (List.mem_filter.mp here).1
  exact unpackedNonneg a q

theorem finalRms (hits : List Hit) (i : Fin 32) (j : Fin 16) (q : Quantity) :
    ((finalStep (sums hits i)).thiscell j).rms q =
      let m := (values hits i j q).length % 2^16
      if (ofChannel hits i).length % 2^16 = 0 then squares (values hits i j q)
      else if m ≤ 1 then 0
      else ((m/(m-1) : ℕ) : ℚ)*(squares (values hits i j q)/m - ((values hits i j q).sum/m)^2) := by
  obtain ⟨bar, rms⟩ := cellSum hits i j q
  have channel := perChannelNat hits i
  have cell := perCellNat hits i j
  simp only [valuesLength]
  unfold finalStep
  by_cases none' : (ofChannel hits i).length % 2^16 = 0
  · rw [if_pos none', if_neg (by omega), rms]
  · rw [if_neg none', if_pos (by omega)]
    change (finishCell ((sums hits i).thiscell j)).rms q = _
    unfold finishCell
    rw [cell]
    by_cases few : (ofCell hits i j).length % 2^16 ≤ 1
    · rw [if_pos few, if_neg (by omega)]
    · rw [if_neg few, if_pos (by omega), meanSpreadRms, bar, rms]

theorem finalFits {hits : List Hit} {i : Fin 32} {j : Fin 16} {q : Quantity} (some' : 1 < (values hits i j q).length)
    (nonneg : ∀ x ∈ values hits i j q, 0 ≤ x) :
    ((finalStep (sums hits i)).thiscell j).rms q = sampleVariance (values hits i j q) ↔
      RmsFits (ofChannel hits i).length (values hits i j q) := by
  rw [finalRms]
  unfold RmsFits
  simp only
  generalize values hits i j q = xs at *
  split
  · exact rawSquares some' nonneg
  · split
    · exact noFactor some'
    · rename_i more
      split
      · rename_i unwrapped
        rw [Nat.mod_eq_of_lt unwrapped]
        exact plainFactor some'
      · exact otherFactor some' _ _ (by exact_mod_cast (by omega : xs.length % 2^16 ≠ 0))

theorem crateRms {crateNum : ℤ} {rms : List Bundle → ℚ} {i : Fin 32} {j : Fin 16} {q : Quantity}
    (stored : ∀ bundles, rms bundles = ((finalStep (sums (hitsOf crateNum bundles) i)).thiscell j).rms q)
    (bundles : List Bundle) (some' : 1 < (values (hitsOf crateNum bundles) i j q).length) :
    RmsRight id rms bundles (values (hitsOf crateNum bundles) i j q) ↔
      RmsFits (ofChannel (hitsOf crateNum bundles) i).length (values (hitsOf crateNum bundles) i j q) := by
  rw [← finalFits some' (hitsNonneg crateNum bundles i j q), ← stored]
  refine and_iff_left fun other perm => ?_
  have order : bundles.Perm other := perm
  rw [stored, stored, sumsPerm (hitsPerm order crateNum) i]

theorem getPedestalRms (channelMask result : BitVec 32) (pmtBuf : ℕ → BitVec 32) (testStatus : Fin 32 → BitVec 16)
    {i : Fin 32} {j : Fin 16} (q : Quantity) (accepted : Accepted (ofCell (readHits result pmtBuf) i j).length) :
    RmsRight (bundlesIn (wordsInMem result))
        (fun pmtBuf => (((getPedestal channelMask result pmtBuf testStatus).pedestals i).thiscell j).rms q) pmtBuf
        (values (readHits result pmtBuf) i j q) ↔
      Same (values (readHits result pmtBuf) i j q) := by
  have pedestals (pmtBuf : ℕ → BitVec 32) := (getPedestalReturns channelMask result pmtBuf testStatus).2
  have many := acceptedMany accepted
  have length := valuesLength (readHits result pmtBuf) i j q
  obtain ⟨bar, rms⟩ := cellSum (readHits result pmtBuf) i j q
  have stored : (((getPedestal channelMask result pmtBuf testStatus).pedestals i).thiscell j).rms q =
      ((((values (readHits result pmtBuf) i j q).length/((values (readHits result pmtBuf) i j q).length-1) : ℕ)) : ℚ)*
        spread (values (readHits result pmtBuf) i j q) := by
    rw [pedestals, acceptedCell (readSmall result pmtBuf) i j accepted, meanSpreadRms, bar, rms, ← length]
    rfl
  have exact' := @plainFactor (values (readHits result pmtBuf) i j q) (by omega)
  rw [← stored, or_iff_right (by omega)] at exact'
  refine Iff.trans (and_iff_left fun other perm => ?_) exact'
  have order : (readHits result pmtBuf).Perm (readHits result other) := perm.map _
  simp only [pedestals]
  rw [sumsPerm order i]

theorem rmsExact (crateNum : ℤ) (heap : Ped) (bundles : List Bundle) (channelMask result : BitVec 32)
    (pmtBuf : ℕ → BitVec 32) (testStatus : Fin 32 → BitVec 16) (i : Fin 32) (j : Fin 16) (q : Quantity) :
    (1 < (values (hitsOf crateNum bundles) i j q).length →
      (RmsRight id (fun bundles => ((pedRun crateNum bundles i).thiscell j).rms q) bundles
          (values (hitsOf crateNum bundles) i j q) ↔
        RmsFits (ofChannel (hitsOf crateNum bundles) i).length (values (hitsOf crateNum bundles) i j q)) ∧
      (RmsRight id (fun bundles => ((chinjScan crateNum bundles i).thiscell j).rms q) bundles
          (values (hitsOf crateNum bundles) i j q) ↔
        RmsFits (ofChannel (hitsOf crateNum bundles) i).length (values (hitsOf crateNum bundles) i j q)) ∧
      (RmsRight id (fun bundles => ((pedRunByChannel crateNum i heap bundles).thiscell j).rms q) bundles
          (values (hitsOf crateNum bundles) i j q) ↔
        RmsFits (ofChannel (hitsOf crateNum bundles) i).length (values (hitsOf crateNum bundles) i j q))) ∧
    (Accepted (ofCell (readHits result pmtBuf) i j).length →
      (RmsRight (bundlesIn (wordsInMem result))
          (fun pmtBuf => (((getPedestal channelMask result pmtBuf testStatus).pedestals i).thiscell j).rms q) pmtBuf
          (values (readHits result pmtBuf) i j q) ↔
        Same (values (readHits result pmtBuf) i j q))) := by
  have plain (bundles : List Bundle) : ((pedRun crateNum bundles i).thiscell j).rms q =
      ((finalStep (sums (hitsOf crateNum bundles) i)).thiscell j).rms q := by rw [pedRunFinal]
  have byChannel (bundles : List Bundle) : ((pedRunByChannel crateNum i heap bundles).thiscell j).rms q =
      ((finalStep (sums (hitsOf crateNum bundles) i)).thiscell j).rms q := by rw [byChannelFinal]
  refine ⟨fun some' => ⟨crateRms plain bundles some', crateRms plain bundles some', crateRms byChannel bundles some'⟩,
    fun accepted => getPedestalRms channelMask result pmtBuf testStatus q accepted⟩

def otherBundle : Bundle
  | 0 | 1 => 0
  | 2 => 0x00010000

def twoBundles : List Bundle := [fun _ => 0,otherBundle]

def equalBuf (k : ℕ) : BitVec 32 := if k % 3 = 2 then 0x00010000 else 0

theorem equalRead : bundlesIn (wordsInMem 75) equalBuf = List.replicate 25 otherBundle := by
  have words : wordsInMem 75/3 = 25 := by decide
  have each (i : ℕ) : (fun k : Fin 3 => equalBuf (3*i+k)) = otherBundle := by
    funext k
    unfold equalBuf
    rw [Nat.mul_add_mod]
    revert k
    decide
  rw [bundlesIn, words, List.map_congr_left fun i _ => each i]
  exact List.map_const' ..

theorem rmsExactTwice :
    1 < (values (hitsOf 0 twoBundles) 0 0 .tac).length ∧ ¬ Same (values (hitsOf 0 twoBundles) 0 0 .tac) ∧
      RmsRight id (fun bundles => ((pedRun 0 bundles 0).thiscell 0).rms .tac) twoBundles
        (values (hitsOf 0 twoBundles) 0 0 .tac) ∧
    Accepted (ofCell (readHits 75 equalBuf) 0 0).length ∧ (2049 : ℚ) ∈ values (readHits 75 equalBuf) 0 0 .tac ∧
      RmsRight (bundlesIn (wordsInMem 75))
        (fun pmtBuf => (((getPedestal 1 75 pmtBuf fun _ => 0).pedestals 0).thiscell 0).rms .tac) equalBuf
        (values (readHits 75 equalBuf) 0 0 .tac) := by
  obtain ⟨crate, read⟩ := rmsExact 0 (fun _ => emptyPedestal) twoBundles 1 75 equalBuf (fun _ => 0) 0 0 .tac
  have tacs : values (hitsOf 0 twoBundles) 0 0 .tac =
      [((unpkTAC fun _ => 0).toNat : ℚ),((unpkTAC otherBundle).toNat : ℚ)] := rfl
  have two : (values (hitsOf 0 twoBundles) 0 0 .tac).length = 2 := (valuesLength ..).trans rfl
  have some' : 1 < (values (hitsOf 0 twoBundles) 0 0 .tac).length := by rw [two]; exact Nat.one_lt_two
  have apart : ¬ Same (values (hitsOf 0 twoBundles) 0 0 .tac) := by
    intro same
    rw [tacs] at same
    have equal := same _ (.head _) _ (.tail _ (.head _))
    have counts : (unpkTAC fun _ => 0).toNat = (unpkTAC otherBundle).toNat := by exact_mod_cast equal
    exact absurd counts (by decide)
  have fits : RmsFits (ofChannel (hitsOf 0 twoBundles) 0).length (values (hitsOf 0 twoBundles) 0 0 .tac) := by
    rw [show (ofChannel (hitsOf 0 twoBundles) 0).length = 2 from rfl]
    unfold RmsFits
    rw [two]
    norm_num
  have tac : (parsedHit otherBundle).value .tac = 2049 := rfl
  have hits : readHits 75 equalBuf = List.replicate 25 (parsedHit otherBundle) := by
    rw [readHits, equalRead, List.map_replicate]
  have cell : ofCell (readHits 75 equalBuf) 0 0 = List.replicate 25 (parsedHit otherBundle) := by
    rw [hits]
    exact List.filter_replicate_of_pos rfl
  have all : values (readHits 75 equalBuf) 0 0 .tac = List.replicate 25 2049 := by
    rw [values, cell, List.map_replicate, tac]
  have accepted : Accepted (ofCell (readHits 75 equalBuf) 0 0).length := by
    rw [cell, List.length_replicate, Accepted]
    norm_num [numPulses]
  have same : Same (values (readHits 75 equalBuf) 0 0 .tac) := by
    rw [all]
    exact fun x mem y mem' => (List.eq_of_mem_replicate mem).trans (List.eq_of_mem_replicate mem').symm
  refine ⟨some', apart, (crate some').1.mpr fits, accepted, ?_, (read accepted).mpr same⟩
  rw [all]
  exact List.mem_replicate.mpr ⟨by decide, rfl⟩

def threeBundles : List Bundle := [fun _ => 0,fun _ => 0,otherBundle]

theorem integerFactor : 1 < (values (hitsOf 0 threeBundles) 0 0 .tac).length ∧
    ¬ RmsRight id (fun bundles => ((pedRun 0 bundles 0).thiscell 0).rms .tac) threeBundles
      (values (hitsOf 0 threeBundles) 0 0 .tac) := by
  have three : (values (hitsOf 0 threeBundles) 0 0 .tac).length = 3 := (valuesLength ..).trans rfl
  have some' : 1 < (values (hitsOf 0 threeBundles) 0 0 .tac).length := by rw [three]; exact Nat.le_succ 2
  have plain (bundles : List Bundle) : ((pedRun 0 bundles 0).thiscell 0).rms .tac =
      ((finalStep (sums (hitsOf 0 bundles) 0)).thiscell 0).rms .tac := by rw [pedRunFinal]
  refine ⟨some', fun right => ?_⟩
  have fits := (crateRms plain threeBundles some').mp right
  rw [show (ofChannel (hitsOf 0 threeBundles) 0).length = 3 from rfl] at fits
  unfold RmsFits at fits
  rw [three] at fits
  have same : Same (values (hitsOf 0 threeBundles) 0 0 .tac) := by simpa using fits
  have mem (a : Bundle) (here : a ∈ threeBundles) (crate : unpkCrateID a = 0)
      (cell : (unpackedHit a).channel = 0 ∧ (unpackedHit a).cell = 0) :
      ((unpkTAC a).toNat : ℚ) ∈ values (hitsOf 0 threeBundles) 0 0 .tac := by
    have kept : a ∈ threeBundles.filter fun a => ((unpkCrateID a).toNat : ℤ) = 0 := by
      refine List.mem_filter.mpr ⟨here, ?_⟩
      rw [crate]
      rfl
    have hit : unpackedHit a ∈ hitsOf 0 threeBundles := List.mem_map.mpr ⟨a, kept, rfl⟩
    exact List.mem_map.mpr ⟨unpackedHit a, List.mem_filter.mpr ⟨hit, decide_eq_true cell⟩, rfl⟩
  have equal := same _ (mem (fun _ => 0) (.head _) rfl ⟨rfl, rfl⟩) _
    (mem otherBundle (.tail _ (.tail _ (.head _))) rfl ⟨rfl, rfl⟩)
  have counts : (unpkTAC fun _ => 0).toNat = (unpkTAC otherBundle).toNat := by exact_mod_cast equal
  exact absurd counts (by decide)

end PennDaq.PedestalRms
