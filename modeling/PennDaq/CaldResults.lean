import Mathlib.Data.List.FinRange
import PennDaq.Lib.Filing
import PennDaq.XL3Commands

/-! The results of the ADC calibration: the points that `XL3Model::GetCaldTestResults`
sorts into the buffers of `CaldTest` while the crate goes on answering. -/
namespace PennDaq.CaldResults
open Lib.Block
open Lib.Filing
open Lib.Stores
open FECSettings (swapShort)
open XL3Packets
open XL3Commands

/- `CaldResponsePacket`, whose shorts lie one behind the other. -/
structure Response where
  slot : BitVec 16
  point : Fin 100 → BitVec 16
  adc : Fin 4 → Fin 100 → BitVec 16

def responseShorts : Nat := 501

def swapShortBlock (needToSwap : Bool) (words : Fin 720 → BitVec 16) : Fin 720 → BitVec 16 :=
  fun i => if i.val < responseShorts then swapShort needToSwap (words i) else words i

def responseOf (needToSwap : Bool) (payload : Payload) : Response :=
  let words := swapShortBlock needToSwap (shorts payload)
  { slot := words 0
    point := fun j => words ⟨1 + j, by omega⟩
    adc := fun i j => words ⟨1 + 100*(i+1) + j, by omega⟩ }

structure Results where
  pointCount : Nat
  currentSlot : Nat
  currentPoint : Nat
  pointBuf : Nat → BitVec 16
  adcBuf : Nat → BitVec 16

/- One pass of the loop over the points. The first cell is written every time. -/
def storePoint (response : Response) (r : Results) (j : Fin 100) : Results :=
  if response.point j ≠ 0 then
    let pointBuf := Function.update r.pointBuf (r.currentSlot*10000 + r.currentPoint) (response.point j)
    let pointBuf := Function.update pointBuf 0 (response.point j)
    let cell := r.currentSlot*4*10000 + r.currentPoint*4
    { r with
      pointBuf := pointBuf
      adcBuf := (List.finRange 4).foldl
        (fun adcBuf (i : Fin 4) => Function.update adcBuf (cell + i) (response.adc i j)) r.adcBuf
      currentPoint := r.currentPoint + 1
      pointCount := r.pointCount + 1 }
  else r

def storeResponse (response : Response) (r : Results) : Results :=
  let r := if response.slot.toNat ≠ r.currentSlot then
    { r with currentSlot := response.slot.toNat, currentPoint := 0 } else r
  (List.finRange 100).foldl (storePoint response) r

inductive CaldFailure where
  | timedOut
  | tooHigh
  deriving DecidableEq, Repr

def CaldFailure.text : CaldFailure → String
  | .timedOut => "GetCaldTestResults: GetNextPacket timed out"
  | .tooHigh => "GetCaldTestResults: Packet num too high"

instance (fCommandNum : Int) (packetNum : UInt16) : Decidable (XL3Model.caldRejects fCommandNum packetNum) :=
  inferInstanceAs (Decidable (_ > _))

def collect (needToSwap : Bool) (fCommandNum : Int) (r : Results) :
    List (Option XL3Packet) → Except CaldFailure Nat × Results × List (Option XL3Packet)
  | [] => (.error .timedOut, r, [])
  | none::later => (.error .timedOut, r, later)
  | some packet::later =>
    if XL3Model.caldRejects fCommandNum packet.header.packetNum then (.error .tooHigh, r, later)
    else if packet.header.packetType = caldResponseId then
      collect needToSwap fCommandNum (storeResponse (responseOf needToSwap packet.payload) r) later
    else if packet.header.packetType = caldTestId then (.ok r.pointCount, r, later)
    else collect needToSwap fCommandNum r later

def getCaldTestResults (needToSwap : Bool) (x : XL3) (pointBuf adcBuf : Nat → BitVec 16) :
    Except CaldFailure Nat × Results × List (Option XL3Packet) :=
  collect needToSwap x.fCommandNum.val ⟨0,0,0,pointBuf,adcBuf⟩ x.packets

structure Point where
  point : BitVec 16
  adc : Fin 4 → BitVec 16

def pointAt (response : Response) (j : Fin 100) : Point := ⟨response.point j, fun i => response.adc i j⟩

def pointsAmong (response : Response) (js : List (Fin 100)) : List Point :=
  (js.filter fun j => response.point j ≠ 0).map (pointAt response)

def pointsOf (response : Response) : List Point := pointsAmong response (List.finRange 100)

def batchOf (needToSwap : Bool) (packet : XL3Packet) : Batch Nat Point :=
  let response := responseOf needToSwap packet.payload
  ⟨response.slot.toNat, pointsOf response⟩

def batchesOf (needToSwap : Bool) (responses : List XL3Packet) : List (Batch Nat Point) :=
  responses.map (batchOf needToSwap)

def CaldExact (needToSwap : Bool) (x : XL3) (responses : List XL3Packet) : Prop :=
  let batches := batchesOf needToSwap responses
  ∀ pointBuf adcBuf, let results := getCaldTestResults needToSwap x pointBuf adcBuf
    results.1 = .ok (batches.flatMap Batch.items).length ∧
    ∀ s p point, (itemsOf s batches)[p]? = some point →
      results.2.1.pointBuf (s*10000 + p) = point.point ∧
      ∀ i : Fin 4, results.2.1.adcBuf (s*40000 + 4*p + i) = point.adc i

/- The first point of slot 0 is the last one of all. -/
def FirstIsLast (batches : List (Batch Nat Point)) : Prop :=
  ∀ first, (itemsOf 0 batches).head? = some first →
    ((batches.flatMap Batch.items).getLast?).map Point.point = some first.point

def pointStores (entry : Entry Nat Point) : List (Store (BitVec 16)) :=
  [⟨entry.key*10000 + entry.index, entry.item.point⟩, ⟨0,entry.item.point⟩]

def adcStores (entry : Entry Nat Point) : List (Store (BitVec 16)) :=
  let cell := entry.key*40000 + 4*entry.index
  (List.finRange 4).map fun (i : Fin 4) => ⟨cell + i, entry.item.adc i⟩

theorem adcFour (slot index : Nat) (adc : Fin 4 → BitVec 16) (point : BitVec 16) (adcBuf : Nat → BitVec 16) :
    (List.finRange 4).foldl
      (fun adcBuf (i : Fin 4) => Function.update adcBuf (slot*4*10000 + index*4 + i) (adc i)) adcBuf =
    written adcBuf (adcStores ⟨slot,index,point,adc⟩) := by
  have cell : slot*4*10000 + index*4 = slot*40000 + 4*index := by omega
  rw [cell, written, adcStores, List.foldl_map]

def stored (r : Results) (entries : List (Entry Nat Point)) : Results :=
  { r with
    pointCount := r.pointCount + entries.length
    pointBuf := written r.pointBuf (entries.flatMap pointStores)
    adcBuf := written r.adcBuf (entries.flatMap adcStores) }

def Results.goOn (r : Results) (slot point : Nat) : Results :=
  { r with currentSlot := slot, currentPoint := point }

theorem storedAppend (r : Results) (a b : List (Entry Nat Point)) : stored (stored r a) b = stored r (a ++ b) := by
  simp only [stored, List.flatMap_append, writtenAppend, List.length_append, Nat.add_assoc]

theorem storedGoOn (r : Results) (slot point : Nat) (entries : List (Entry Nat Point)) :
    stored (r.goOn slot point) entries = (stored r entries).goOn slot point := rfl

theorem pointStored (response : Response) (r : Results) {j : Fin 100} (some' : response.point j ≠ 0) :
    storePoint response r j =
      (stored r [⟨r.currentSlot,r.currentPoint,pointAt response j⟩]).goOn r.currentSlot (r.currentPoint+1) := by
  rw [storePoint, if_pos some']
  simp only [adcFour _ _ (fun i => response.adc i j) (response.point j)]
  rfl

theorem rowStored (response : Response) (js : List (Fin 100)) (r : Results) :
    js.foldl (storePoint response) r =
      (stored r (fileRow r.currentSlot r.currentPoint (pointsAmong response js))).goOn r.currentSlot
        (r.currentPoint + (pointsAmong response js).length) := by
  induction js generalizing r with
  | nil => rfl
  | cons j js ih =>
    rw [List.foldl_cons, ih]
    by_cases zero : response.point j = 0
    · have skipped : pointsAmong response (j::js) = pointsAmong response js := by
        rw [pointsAmong, List.filter_cons, if_neg (by simpa using zero)]
        rfl
      rw [skipped, storePoint, if_neg (by simpa using zero)]
    · have taken : pointsAmong response (j::js) = pointAt response j::pointsAmong response js := by
        rw [pointsAmong, List.filter_cons, if_pos (by simpa using zero)]
        rfl
      have stores := storedAppend r [⟨r.currentSlot,r.currentPoint,pointAt response j⟩]
        (fileRow r.currentSlot (r.currentPoint+1) (pointsAmong response js))
      have count : r.currentPoint + 1 + (pointsAmong response js).length =
        r.currentPoint + ((pointsAmong response js).length + 1) := by omega
      rw [taken, pointStored response r zero, storedGoOn]
      change ((stored (stored r _) _).goOn _ (r.currentPoint + 1 + (pointsAmong response js).length)) = _
      rw [List.length_cons, count]
      change ((stored (stored r _) (fileRow r.currentSlot (r.currentPoint+1) _)).goOn _ _) = _
      rw [stores]
      rfl

def InRun (r : Results) (before : List (Batch Nat Point)) : Prop :=
  ∀ slot, running slot before = if slot = r.currentSlot then r.currentPoint else 0

theorem responseStored (response : Response) {r : Results} {before : List (Batch Nat Point)}
    (run : InRun r before) :
    storeResponse response r =
      (stored r (fileRow response.slot.toNat (running response.slot.toNat before) (pointsOf response))).goOn
        response.slot.toNat (running response.slot.toNat before + (pointsOf response).length) := by
  have start : (if response.slot.toNat ≠ r.currentSlot then
      { r with currentSlot := response.slot.toNat, currentPoint := 0 } else r) =
      r.goOn response.slot.toNat (running response.slot.toNat before) := by
    rw [run]
    by_cases same : response.slot.toNat = r.currentSlot
    · rw [if_neg (not_not.mpr same), if_pos same, same]
      rfl
    · rw [if_pos same, if_neg same]
      rfl
  rw [storeResponse, start, rowStored]
  rfl

theorem nextRun (r : Results) (before : List (Batch Nat Point)) (entries : List (Entry Nat Point))
    (batch : Batch Nat Point) :
    InRun ((stored r entries).goOn batch.key (running batch.key before + batch.items.length))
      (batch::before) := by
  intro slot
  rw [running]
  by_cases same : batch.key = slot
  · subst same
    rw [if_pos rfl]
    exact (Nat.add_comm _ _).trans (if_pos rfl).symm
  · rw [if_neg same]
    exact (if_neg (Ne.symm same)).symm

structure Arriving (needToSwap : Bool) (x : XL3) (responses : List XL3Packet) (test : XL3Packet)
    (later : List (Option XL3Packet)) : Prop where
  packets : x.packets = responses.map some ++ some test::later
  kinds : ∀ packet ∈ responses, packet.header.packetType = caldResponseId
  last : test.header.packetType = caldTestId
  room : ∀ slot, (itemsOf slot (batchesOf needToSwap responses)).length ≤ 10000

def NoneRejected (fCommandNum : Int) (packets : List XL3Packet) : Prop :=
  ∀ packet ∈ packets, ¬ XL3Model.caldRejects fCommandNum packet.header.packetNum

theorem collected (needToSwap : Bool) {fCommandNum : Int} {responses : List XL3Packet} {test : XL3Packet}
    (kinds : ∀ packet ∈ responses, packet.header.packetType = caldResponseId)
    (last : test.header.packetType = caldTestId) (later : List (Option XL3Packet)) {r : Results}
    {before : List (Batch Nat Point)} (run : InRun r before)
    (fine : NoneRejected fCommandNum (responses ++ [test])) :
    ∃ slot point, collect needToSwap fCommandNum r (responses.map some ++ some test::later) =
      (.ok (r.pointCount + (filed before (batchesOf needToSwap responses)).length),
        (stored r (filed before (batchesOf needToSwap responses))).goOn slot point, later) := by
  -- Over the responses: `before` are the batches that came, `r` what they stored.
  induction responses generalizing r before with
  | nil =>
    refine ⟨r.currentSlot, r.currentPoint, ?_⟩
    rw [List.map_nil, List.nil_append, collect, if_neg (fine test List.mem_cons_self), if_neg (by rw [last]; decide),
      if_pos last]
    rfl
  | cons packet responses ih =>
    have kind := kinds packet List.mem_cons_self
    have next := nextRun r before (fileRow (batchOf needToSwap packet).key
      (running (batchOf needToSwap packet).key before) (batchOf needToSwap packet).items)
      (batchOf needToSwap packet)
    obtain ⟨slot, point, rest⟩ := ih (fun p mem => kinds p (List.mem_cons_of_mem _ mem)) next
      (fun p mem => fine p (List.mem_cons_of_mem _ mem))
    refine ⟨slot, point, ?_⟩
    rw [List.map_cons, List.cons_append, collect, if_neg (fine packet List.mem_cons_self), if_pos kind,
      responseStored _ run]
    refine rest.trans ?_
    rw [storedGoOn, storedAppend]
    refine Prod.ext ?_ rfl
    simp only [stored, Results.goOn, batchesOf, List.map_cons, filed, List.length_append, Nat.add_assoc]

theorem noneRejected (needToSwap : Bool) {fCommandNum : Int} {responses : List XL3Packet} {test : XL3Packet}
    (kinds : ∀ packet ∈ responses, packet.header.packetType = caldResponseId)
    {later : List (Option XL3Packet)} {r : Results} {count : Nat}
    (ok : (collect needToSwap fCommandNum r (responses.map some ++ some test::later)).1 = .ok count) :
    NoneRejected fCommandNum (responses ++ [test]) := by
  induction responses generalizing r with
  | nil =>
    intro packet mem rejected
    obtain rfl := List.mem_singleton.mp mem
    rw [List.map_nil, List.nil_append, collect, if_pos rejected] at ok
    cases ok
  | cons packet responses ih =>
    rw [List.map_cons, List.cons_append, collect] at ok
    split at ok
    · cases ok
    · rename_i fine
      rw [if_pos (kinds packet List.mem_cons_self)] at ok
      exact List.forall_mem_cons.mpr ⟨fine, ih (fun p mem => kinds p (List.mem_cons_of_mem _ mem)) ok⟩

theorem pointPlace {entries : List (Entry Nat Point)} {store : Store (BitVec 16)}
    (mem : store ∈ entries.flatMap pointStores) :
    ∃ entry ∈ entries, store.value = entry.item.point ∧
      (store.place = entry.key*10000 + entry.index ∨ store.place = 0) := by
  obtain ⟨entry, inside, mem⟩ := List.mem_flatMap.mp mem
  simp only [pointStores, List.mem_cons, List.not_mem_nil, or_false] at mem
  rcases mem with rfl | rfl
  · exact ⟨entry, inside, rfl, Or.inl rfl⟩
  · exact ⟨entry, inside, rfl, Or.inr rfl⟩

theorem adcPlace {entries : List (Entry Nat Point)} {store : Store (BitVec 16)}
    (mem : store ∈ entries.flatMap adcStores) :
    ∃ entry ∈ entries, ∃ i : Fin 4, store.place = entry.key*40000 + 4*entry.index + i ∧
      store.value = entry.item.adc i := by
  obtain ⟨entry, inside, mem⟩ := List.mem_flatMap.mp mem
  obtain ⟨i, -, rfl⟩ := List.mem_map.mp mem
  exact ⟨entry, inside, i, rfl, rfl⟩

theorem adcStored (entry : Entry Nat Point) (i : Fin 4) :
    (⟨entry.key*40000 + 4*entry.index + i, entry.item.adc i⟩ : Store (BitVec 16)) ∈ adcStores entry :=
  List.mem_map_of_mem (List.mem_finRange i)

theorem firstCell (pointBuf : Nat → BitVec 16) {entries : List (Entry Nat Point)} {last : Point}
    (found : (entries.map Entry.item).getLast? = some last) :
    written pointBuf (entries.flatMap pointStores) 0 = last.point := by
  rw [List.getLast?_map, Option.map_eq_some_iff] at found
  obtain ⟨entry, end', rfl⟩ := found
  obtain ⟨front, rfl⟩ := List.getLast?_eq_some_iff.mp end'
  rw [List.flatMap_append, List.flatMap_singleton, pointStores, List.append_cons]
  exact writtenLast _ _ _

section
variable {batches : List (Batch Nat Point)} (room : ∀ slot, (itemsOf slot batches).length ≤ 10000)
include room

theorem indexBelow {entry : Entry Nat Point} (mem : entry ∈ filed [] batches) : entry.index < 10000 := by
  have below := filedBelow mem
  rw [count, Nat.zero_add] at below
  exact Nat.lt_of_lt_of_le below (room entry.key)

theorem pointHeld (grouped : Grouped [] batches) {s p : Nat} {point : Point}
    (found : (itemsOf s batches)[p]? = some point) (pointBuf : Nat → BitVec 16) (other : s*10000 + p ≠ 0) :
    written pointBuf ((filed [] batches).flatMap pointStores) (s*10000 + p) = point.point := by
  obtain ⟨mem, only⟩ := groupedPlace grouped found
  have low : p < 10000 := indexBelow room mem
  refine writtenAgreed pointBuf ⟨⟨s*10000 + p,point.point⟩, ?_, rfl⟩ fun store inside place => ?_
  · exact List.mem_flatMap.mpr ⟨_, mem, List.mem_cons_self⟩
  · obtain ⟨entry, filed', value, cell⟩ := pointPlace inside
    have below := indexBelow room filed'
    rw [value, only entry filed' (by omega) (by omega)]

theorem adcHeld (grouped : Grouped [] batches) {s p : Nat} {point : Point}
    (found : (itemsOf s batches)[p]? = some point) (adcBuf : Nat → BitVec 16) (i : Fin 4) :
    written adcBuf ((filed [] batches).flatMap adcStores) (s*40000 + 4*p + i) = point.adc i := by
  obtain ⟨mem, only⟩ := groupedPlace grouped found
  have low : p < 10000 := indexBelow room mem
  refine writtenAgreed adcBuf ⟨⟨s*40000 + 4*p + i,point.adc i⟩, ?_, rfl⟩ fun store inside place => ?_
  · exact List.mem_flatMap.mpr ⟨_, mem, adcStored ⟨s,p,point⟩ i⟩
  · obtain ⟨entry, filed', j, cell, value⟩ := adcPlace inside
    have below := indexBelow room filed'
    have same : j = i := by omega
    rw [value, only entry filed' (by omega) (by omega), same]

theorem cellMissed (apart : ¬ Grouped [] batches) :
    ∃ s p point, (itemsOf s batches)[p]? = some point ∧
      ∀ pointBuf, written pointBuf ((filed [] batches).flatMap pointStores) (s*10000 + p) =
        pointBuf (s*10000 + p) := by
  obtain ⟨s, -, two, missed⟩ := ungroupedMiss apart
  rw [count, Nat.zero_add] at two missed
  have few := room s
  refine ⟨s, (itemsOf s batches).length - 1, _, List.getElem?_eq_getElem (by omega), fun pointBuf => ?_⟩
  refine writtenElsewhere pointBuf fun store inside place => ?_
  obtain ⟨entry, mem, -, cell⟩ := pointPlace inside
  have below := indexBelow room mem
  have miss := missed entry mem
  omega

end

theorem resultsStored {needToSwap : Bool} {x : XL3} {responses : List XL3Packet} {test : XL3Packet}
    {later : List (Option XL3Packet)} (arriving : Arriving needToSwap x responses test later)
    (fine : NoneRejected x.fCommandNum.val (responses ++ [test])) (pointBuf adcBuf : Nat → BitVec 16) :
    let batches := batchesOf needToSwap responses
    let results := getCaldTestResults needToSwap x pointBuf adcBuf
    results.1 = .ok (batches.flatMap Batch.items).length ∧
      results.2.1.pointBuf = written pointBuf ((filed [] batches).flatMap pointStores) ∧
      results.2.1.adcBuf = written adcBuf ((filed [] batches).flatMap adcStores) := by
  intro batches results
  have start : InRun ⟨0,0,0,pointBuf,adcBuf⟩ [] := fun slot => (ite_self 0).symm
  obtain ⟨slot, point, run⟩ := collected needToSwap arriving.kinds arriving.last later start fine
  have length := congrArg List.length (filedItems [] batches)
  rw [List.length_map] at length
  have whole : results = (.ok (0 + (filed [] batches).length),
      (stored ⟨0,0,0,pointBuf,adcBuf⟩ (filed [] batches)).goOn slot point, later) := by
    rw [← run, ← arriving.packets]
    rfl
  rw [whole, ← length, Nat.zero_add]
  exact ⟨rfl,rfl,rfl⟩

theorem firstHeld (first : FirstIsLast (batchesOf needToSwap responses)) {point : Point}
    (found : (itemsOf 0 (batchesOf needToSwap responses))[0]? = some point) (pointBuf : Nat → BitVec 16) :
    written pointBuf ((filed [] (batchesOf needToSwap responses)).flatMap pointStores) 0 = point.point := by
  rw [← List.head?_eq_getElem?] at found
  obtain ⟨last, end', same⟩ := Option.map_eq_some_iff.mp (first point found)
  rw [← filedItems []] at end'
  exact (firstCell pointBuf end').trans same

section
variable {needToSwap : Bool} {x : XL3} {responses : List XL3Packet} {test : XL3Packet}
  {later : List (Option XL3Packet)} (arriving : Arriving needToSwap x responses test later)

include arriving

theorem exactFine (exact' : CaldExact needToSwap x responses) :
    NoneRejected x.fCommandNum.val (responses ++ [test]) := by
  have ok := (exact' (fun _ => 0) fun _ => 0).1
  rw [getCaldTestResults, arriving.packets] at ok
  exact noneRejected needToSwap arriving.kinds ok

theorem exactGrouped (exact' : CaldExact needToSwap x responses) :
    Grouped [] (batchesOf needToSwap responses) := by
  by_contra apart
  obtain ⟨s, p, point, found, kept⟩ := cellMissed arriving.room apart
  obtain ⟨-, points, -⟩ := resultsStored arriving (exactFine arriving exact') (fun _ => ~~~point.point) fun _ => 0
  have held := ((exact' (fun _ => ~~~point.point) fun _ => 0).2 s p point found).1
  rw [points, kept] at held
  exact absurd held (BitVec.not_self_ne (by decide))

theorem exactFirst (exact' : CaldExact needToSwap x responses) :
    FirstIsLast (batchesOf needToSwap responses) := by
  intro first found
  obtain ⟨-, points, -⟩ := resultsStored arriving (exactFine arriving exact') (fun _ => 0) fun _ => 0
  have head : (itemsOf 0 (batchesOf needToSwap responses))[0]? = some first := by
    rw [← List.head?_eq_getElem?, found]
  have held := ((exact' (fun _ => 0) fun _ => 0).2 0 0 first head).1
  rw [points] at held
  have some' : (batchesOf needToSwap responses).flatMap Batch.items ≠ [] :=
    List.ne_nil_of_mem (itemsAmong (List.mem_of_head? found))
  obtain ⟨last, end'⟩ : ∃ last, ((batchesOf needToSwap responses).flatMap Batch.items).getLast? = some last :=
    ⟨_, List.getLast?_eq_some_getLast some'⟩
  rw [end', Option.map_some, ← held]
  rw [← filedItems []] at end'
  exact congrArg some (firstCell _ end').symm

theorem exactWhen (fine : NoneRejected x.fCommandNum.val (responses ++ [test]))
    (grouped : Grouped [] (batchesOf needToSwap responses)) (first : FirstIsLast (batchesOf needToSwap responses)) :
    CaldExact needToSwap x responses := by
  intro pointBuf adcBuf
  obtain ⟨ok, points, adcs⟩ := resultsStored arriving fine pointBuf adcBuf
  refine ⟨ok, fun s p point found => ⟨?_, fun i => ?_⟩⟩
  · rw [points]
    by_cases other : s*10000 + p = 0
    · obtain rfl : s = 0 := by omega
      obtain rfl : p = 0 := by omega
      exact firstHeld first found pointBuf
    · exact pointHeld arriving.room grouped found pointBuf other
  · rw [adcs]
    exact adcHeld arriving.room grouped found adcBuf i

end

/- The results are exact for packets that are not rejected, with the points of a slot
together, when the one cell that every point overwrites ends with its own. -/
theorem caldExact {needToSwap : Bool} {x : XL3} {responses : List XL3Packet} {test : XL3Packet}
    {later : List (Option XL3Packet)} (arriving : Arriving needToSwap x responses test later) :
    CaldExact needToSwap x responses ↔
      NoneRejected x.fCommandNum.val (responses ++ [test]) ∧ Grouped [] (batchesOf needToSwap responses) ∧
      FirstIsLast (batchesOf needToSwap responses) := by
  constructor
  · intro exact'
    exact ⟨exactFine arriving exact', exactGrouped arriving exact', exactFirst arriving exact'⟩
  · rintro ⟨fine, grouped, first⟩
    exact exactWhen arriving fine grouped first

def shortResponse (first second : BitVec 32) : XL3Packet :=
  ⟨⟨0,caldResponseId⟩, fun i => if i.val = 0 then first else if i.val = 1 then second else 0⟩

def testAnswer : XL3Packet := ⟨⟨0,caldTestId⟩, fun _ => 0⟩

def oneResponse (response : XL3Packet) : XL3 := ⟨1, [some response,some testAnswer], [], []⟩

def responding (responses : List XL3Packet) : XL3 := ⟨1, responses.map some ++ [some testAnswer], [], []⟩

/- Slot 1 with the points 5, 6 and 8 in two packets, slot 2 with 9, and slot 0 with 7. -/
def fourResponses : List XL3Packet :=
  [shortResponse 0x00050001 6,shortResponse 0x00080001 0,shortResponse 0x00090002 0,shortResponse 0x00070000 0]

theorem fourGrouped : Grouped [] (batchesOf false fourResponses) := by
  have keys : (batchesOf false fourResponses).map Batch.key = [1,1,2,0] := by decide +kernel
  obtain ⟨a, later, all, first, keys⟩ := List.map_eq_cons_iff.mp keys
  obtain ⟨b, later, rfl, second, keys⟩ := List.map_eq_cons_iff.mp keys
  obtain ⟨c, later, rfl, third, keys⟩ := List.map_eq_cons_iff.mp keys
  obtain ⟨d, later, rfl, fourth, keys⟩ := List.map_eq_cons_iff.mp keys
  obtain rfl := List.map_eq_nil_iff.mp keys
  rw [all]
  simp [Grouped, List.dropWhile, first, second, third, fourth]

theorem fourFirst : FirstIsLast (batchesOf false fourResponses) := by
  intro first found
  have head : ((itemsOf 0 (batchesOf false fourResponses)).head?).map Point.point = some 7 := by decide +kernel
  have last : (((batchesOf false fourResponses).flatMap Batch.items).getLast?).map Point.point = some 7 := by
    decide +kernel
  rw [last, ← head, found]
  rfl

theorem threeSlotsExact : CaldExact false (responding fourResponses) fourResponses ∧
    let results := getCaldTestResults false (responding fourResponses) (fun _ => 0) fun _ => 0
    results.1 = .ok 5 ∧ results.2.1.pointBuf 0 = 7 ∧ results.2.1.pointBuf 10002 = 8 := by
  have total : ((batchesOf false fourResponses).flatMap Batch.items).length = 5 := by decide +kernel
  have arriving : Arriving false (responding fourResponses) fourResponses testAnswer [] := by
    refine ⟨rfl, fun packet mem => ?_, rfl, fun slot => ?_⟩
    · revert packet
      decide
    · exact Nat.le_trans (itemsFew slot _) (Nat.le_trans (Nat.le_of_eq total) (by decide))
  have numbers : ∀ packet ∈ fourResponses ++ [testAnswer], packet.header.packetNum = 0 := by decide
  have fine : NoneRejected 1 (fourResponses ++ [testAnswer]) := by
    intro packet mem
    rw [numbers packet mem]
    decide
  have exact' := (caldExact arriving).mpr ⟨fine, fourGrouped, fourFirst⟩
  obtain ⟨ok, held⟩ := exact' (fun _ => 0) fun _ => 0
  have first : ((itemsOf 0 (batchesOf false fourResponses))[0]?).map Point.point = some 7 := by decide +kernel
  have third : ((itemsOf 1 (batchesOf false fourResponses))[2]?).map Point.point = some 8 := by decide +kernel
  obtain ⟨point, found, seven⟩ := Option.map_eq_some_iff.mp first
  obtain ⟨point', found', eight⟩ := Option.map_eq_some_iff.mp third
  exact ⟨exact', by rw [← total]; exact ok, by rw [← seven]; exact (held 0 0 point found).1,
    by rw [← eight]; exact (held 1 2 point' found').1⟩

/- With the points 5 and 6 in slot 0 the first cell ends with 6. -/
theorem firstPointLost :
    (getCaldTestResults false (oneResponse (shortResponse 0x00050000 6)) (fun _ => 0) fun _ => 0).2.1.pointBuf 0 = 6 ∧
    ¬ CaldExact false (oneResponse (shortResponse 0x00050000 6)) [shortResponse 0x00050000 6] := by
  have last : (getCaldTestResults false (oneResponse (shortResponse 0x00050000 6)) (fun _ => 0)
      fun _ => 0).2.1.pointBuf 0 = 6 := by decide +kernel
  refine ⟨last, fun exact' => ?_⟩
  have first : ((itemsOf 0 (batchesOf false [shortResponse 0x00050000 6]))[0]?).map Point.point = some 5 := by
    decide +kernel
  obtain ⟨point, found, five⟩ := Option.map_eq_some_iff.mp first
  have held := ((exact' (fun _ => 0) fun _ => 0).2 0 0 point found).1
  rw [Nat.zero_mul, last, five] at held
  exact absurd held (by decide)

end PennDaq.CaldResults
