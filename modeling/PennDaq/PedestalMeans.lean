import PennDaq.Pedestals

/-! The means that `GetPedestal` hands to `CrateCBal`. -/
namespace PennDaq.PedestalMeans
open Lib.Sample
open Bundles
open Pedestals

theorem wordsSmall (result : BitVec 32) : wordsInMem result ≤ 38400 := by
  unfold wordsInMem numPulses
  simp only
  split
  · split
    · omega
    · omega
  · decide

theorem bundlesSmall (result : BitVec 32) (pmtBuf : ℕ → BitVec 32) :
    (bundlesIn (wordsInMem result) pmtBuf).length ≤ 12800 := by
  rw [bundlesIn, List.length_map, List.length_range]
  exact Nat.div_le_of_le_mul (wordsSmall result)

theorem ofCellSmall (hits : List Hit) (i : Fin 32) (j : Fin 16) : (ofCell hits i j).length ≤ (ofChannel hits i).length := by
  refine List.Sublist.length_le (List.monotone_filter_right hits fun h here => ?_)
  exact decide_eq_true (of_decide_eq_true here).1

theorem channelsSmall (hits : List Hit) (i : Fin 32) : (ofChannel hits i).length ≤ hits.length := List.length_filter_le _ _

section Cell
variable (hits : List Hit) (i : Fin 32) (j : Fin 16)

def sums : Ped := hits.foldl addHit fun _ => emptyPedestal

theorem perChannelNat : (sums hits i).perChannel.toNat = (ofChannel hits i).length % 2^16 := by
  rw [sums, channelSum]
  change (0#16 + BitVec.ofNat 16 (ofChannel hits i).length).toNat = _
  rw [BitVec.zero_add, BitVec.toNat_ofNat]

theorem perCellNat : ((sums hits i).thiscell j).perCell.toNat = (ofCell hits i j).length % 2^16 := by
  rw [sums, (cellSums _ hits i j).1]
  change (0#16 + BitVec.ofNat 16 (ofCell hits i j).length).toNat = _
  rw [BitVec.zero_add, BitVec.toNat_ofNat]

theorem cellSum (q : Quantity) : ((sums hits i).thiscell j).bar q = (values hits i j q).sum ∧
    ((sums hits i).thiscell j).rms q = squares (values hits i j q) := by
  obtain ⟨bar, rms⟩ := (cellSums (fun _ => emptyPedestal) hits i j).2 q
  exact ⟨bar.trans (zero_add _), rms.trans (zero_add _)⟩

theorem valuesLength (q : Quantity) : (values hits i j q).length = (ofCell hits i j).length := List.length_map _

end Cell

def readHits (result : BitVec 32) (pmtBuf : ℕ → BitVec 32) : List Hit :=
  (bundlesIn (wordsInMem result) pmtBuf).map parsedHit

def MeansRight (ped : Ped) (hits : List Hit) : Prop :=
  ∀ i j q, ((ped i).thiscell j).bar q = if Accepted (ofCell hits i j).length then mean (values hits i j q) else 0

theorem readSums (result : BitVec 32) (pmtBuf : ℕ → BitVec 32) :
    parsedSums (bundlesIn (wordsInMem result) pmtBuf) = sums (readHits result pmtBuf) := by
  rw [parsedSums, sums, readHits, List.foldl_map]

theorem readSmall (result : BitVec 32) (pmtBuf : ℕ → BitVec 32) : (readHits result pmtBuf).length < 2^16 := by
  rw [readHits, List.length_map]
  exact Nat.lt_of_le_of_lt (bundlesSmall result pmtBuf) (by decide)

theorem getPedestalReturns (channelMask result : BitVec 32) (pmtBuf : ℕ → BitVec 32) (testStatus : Fin 32 → BitVec 16) :
    (getPedestal channelMask result pmtBuf testStatus).code = 0 ∧
      (getPedestal channelMask result pmtBuf testStatus).pedestals = fun i => acceptChannel (sums (readHits result pmtBuf) i) := by
  have none' : minNumWords channelMask = 0 := by
    unfold minNumWords
    simp
  unfold getPedestal
  rw [none', if_neg (Nat.not_lt_zero _), readSums]
  exact ⟨rfl, rfl⟩

theorem acceptedMany {n : ℕ} (accepted : Accepted n) : 22 < n := by
  by_contra few
  refine accepted (.inr ?_)
  have most : (n : ℚ) ≤ 22 := by exact_mod_cast Nat.le_of_not_lt few
  rw [show (numPulses : ℚ) = 400 by norm_num [numPulses], div_lt_iff₀ (by norm_num)]
  linarith

section Accept
variable {hits : List Hit} (small : hits.length < 2^16) (i : Fin 32) (j : Fin 16)

include small

theorem perCellExact : ((sums hits i).thiscell j).perCell.toNat = (ofCell hits i j).length := by
  rw [perCellNat, Nat.mod_eq_of_lt]
  exact ((ofCellSmall hits i j).trans (channelsSmall hits i)).trans_lt small

theorem perChannelExact : (sums hits i).perChannel.toNat = (ofChannel hits i).length := by
  rw [perChannelNat, Nat.mod_eq_of_lt]
  exact (channelsSmall hits i).trans_lt small

theorem acceptedCell (accepted : Accepted (ofCell hits i j).length) :
    (acceptChannel (sums hits i)).thiscell j = meanSpread (ofCell hits i j).length ((sums hits i).thiscell j) := by
  have many := acceptedMany accepted
  have channel : (sums hits i).perChannel.toNat > 0 := by
    rw [perChannelExact small]
    exact Nat.lt_of_lt_of_le (Nat.zero_lt_of_lt many) (ofCellSmall hits i j)
  rw [acceptChannel, if_pos channel]
  change acceptCell ((sums hits i).thiscell j) = _
  rw [acceptCell, perCellExact small, if_pos accepted, if_pos (by omega)]

theorem rejectedCell (rejected : ¬ Accepted (ofCell hits i j).length) :
    (acceptChannel (sums hits i)).thiscell j = (sums hits i).thiscell j := by
  unfold acceptChannel
  split
  · change acceptCell ((sums hits i).thiscell j) = _
    rw [acceptCell, perCellExact small, if_neg rejected]
  · rfl

theorem acceptedBar (q : Quantity) : ((acceptChannel (sums hits i)).thiscell j).bar q =
    if Accepted (ofCell hits i j).length then mean (values hits i j q) else (values hits i j q).sum := by
  obtain ⟨bar, -⟩ := cellSum hits i j q
  by_cases accepted : Accepted (ofCell hits i j).length
  · rw [acceptedCell small i j accepted, if_pos accepted, meanSpreadBar, bar, mean, valuesLength]
  · rw [rejectedCell small i j accepted, if_neg accepted, bar]

end Accept

theorem parsedNonneg (a : Bundle) (q : Quantity) : 0 ≤ (parsedHit a).value q := by
  cases q with
  | qlx | qhl | qhs | tac => exact Nat.cast_nonneg _

theorem valuesNonneg (result : BitVec 32) (pmtBuf : ℕ → BitVec 32) (i : Fin 32) (j : Fin 16) (q : Quantity) :
    ∀ x ∈ values (readHits result pmtBuf) i j q, 0 ≤ x := by
  intro x mem
  obtain ⟨h, here, rfl⟩ := List.mem_map.mp mem
  obtain ⟨a, -, rfl⟩ := List.mem_map.mp (List.mem_filter.mp here).1
  exact parsedNonneg a q

theorem meansIff (result : BitVec 32) (pmtBuf : ℕ → BitVec 32) :
    MeansRight (fun i => acceptChannel (sums (readHits result pmtBuf) i)) (readHits result pmtBuf) ↔
      ∀ i j, ¬ Accepted (ofCell (readHits result pmtBuf) i j).length →
        ∀ q, ∀ x ∈ values (readHits result pmtBuf) i j q, x = 0 := by
  refine forall₂_congr fun i j => ?_
  by_cases accepted : Accepted (ofCell (readHits result pmtBuf) i j).length
  · refine iff_of_true (fun q => ?_) (absurd accepted)
    rw [acceptedBar (readSmall result pmtBuf), if_pos accepted, if_pos accepted]
  · refine Iff.trans (forall_congr' fun q => ?_) ⟨fun all _ => all, fun all => all accepted⟩
    rw [acceptedBar (readSmall result pmtBuf), if_neg accepted, if_neg accepted]
    exact sumZero (valuesNonneg result pmtBuf i j q)

theorem meansExact (channelMask result : BitVec 32) (pmtBuf : ℕ → BitVec 32) (testStatus : Fin 32 → BitVec 16) :
    (getPedestal channelMask result pmtBuf testStatus).code = 0 ∧
      (MeansRight (getPedestal channelMask result pmtBuf testStatus).pedestals (readHits result pmtBuf) ↔
        ∀ i j, ¬ Accepted (ofCell (readHits result pmtBuf) i j).length →
          ∀ q, ∀ x ∈ values (readHits result pmtBuf) i j q, x = 0) := by
  obtain ⟨code, pedestals⟩ := getPedestalReturns channelMask result pmtBuf testStatus
  rw [pedestals]
  exact ⟨code, meansIff result pmtBuf⟩

/- Two bundles of zeros are too few for their cell, and leave 2048 twice. -/
theorem rawSum : (getPedestal 1 6 (fun _ => 0) fun _ => 0).code = 0 ∧
    ¬ MeansRight (getPedestal 1 6 (fun _ => 0) fun _ => 0).pedestals (readHits 6 fun _ => 0) := by
  obtain ⟨code, pedestals⟩ := getPedestalReturns 1 6 (fun _ => 0) fun _ => 0
  refine ⟨code, ?_⟩
  rw [pedestals, meansIff]
  intro all
  have hits : readHits 6 (fun _ => 0) = [parsedHit fun _ => 0,parsedHit fun _ => 0] := rfl
  have here : ofCell [parsedHit fun _ => 0,parsedHit fun _ => 0] 0 0 = [parsedHit fun _ => 0,parsedHit fun _ => 0] :=
    List.filter_eq_self.mpr fun h mem => by
      obtain rfl : h = parsedHit fun _ => 0 := by simpa using mem
      decide
  have few : ¬ Accepted 2 := fun accepted => by
    refine accepted (.inr ?_)
    norm_num [numPulses]
  have zero := all 0 0 (by rw [hits, here]; exact few) .qlx _ (by rw [hits, values, here]; exact List.mem_cons_self)
  exact absurd zero (by norm_num [parsedHit, parsedValue, show (parseBundle fun _ => 0).adcQlx.toNat = 2048 from rfl])

end PennDaq.PedestalMeans
