import PennDaq.XL3Packets

/-! The acknowledged commands of a packet: what `XL3Link::ProcessPacket` pushes into
the queue of acks. -/
namespace PennDaq.CommandAcks
open Lib.Block
open FECSettings (swapShort swapLong)
open XL3Packets

def swapLowShort (needToSwap : Bool) (word : BitVec 32) : BitVec 32 :=
  word.extractLsb' 16 16 ++ swapShort needToSwap (word.extractLsb' 0 16)

def swapLowBlock (needToSwap : Bool) (first : Nat) (payload : Payload) : Option Payload :=
  if needToSwap then mapCells (swapLowShort needToSwap) first 1 payload else some payload

def swapRecord (needToSwap : Bool) (first : Nat) (payload : Payload) : Option Payload := do
  let payload ← swapLongBlock needToSwap first 1 payload
  let payload ← swapLowBlock needToSwap (first+1) payload
  swapLongBlock needToSwap (first+3) 1 payload

def pushAcks (needToSwap : Bool) : Nat → Nat → Payload → List Command → Option (Payload × List Command)
  | 0, _, payload, queue => some (payload,queue)
  | left+1, i, payload, queue => do
    let payload ← swapRecord needToSwap (recordWord i) payload
    let ack ← recordAt payload (recordWord i)
    pushAcks needToSwap left (i+1) payload (queue ++ [ack])

/- `i<commands->howMany` compares as unsigned. -/
def processCmdAck (needToSwap : Bool) (payload : Payload) (queue : List Command) :
    Option (Payload × List Command) := do
  let payload ← swapLongBlock needToSwap 0 1 payload
  let howMany ← cell payload 0
  pushAcks needToSwap howMany.toNat 0 payload queue

def howMany (needToSwap : Bool) (payload : Payload) : Nat :=
  (swapLong needToSwap (payload ⟨0,somePayload⟩)).toNat

def inHostOrder (needToSwap : Bool) (ack : Command) : Command :=
  { ack with
    cmdNum := swapLong needToSwap ack.cmdNum
    packetNum := swapShort needToSwap ack.packetNum
    data := swapLong needToSwap ack.data }

def wireRecord (needToSwap : Bool) (payload : Payload) (i : Nat) : Option Command :=
  (recordAt payload (recordWord i)).map (inHostOrder needToSwap)

def AcksInside (needToSwap : Bool) (payload : Payload) (queue : List Command) : Prop :=
  ∃ after pushed, processCmdAck needToSwap payload queue = some (after, queue ++ pushed) ∧
    (∀ ack ∈ pushed, ∃ i, recordWord i + 4 ≤ payloadWords ∧ wireRecord needToSwap payload i = some ack) ∧
    (howMany needToSwap payload ≤ maxAcksPerPacket → pushed.length = howMany needToSwap payload)

theorem recordInside (payload : Payload) {first : Nat} (inside : first + 4 ≤ payloadWords) :
    ∃ ack, recordAt payload first = some ack := by
  simp only [recordAt, cellInside payload (show first < payloadWords by omega),
    cellInside payload (show first + 1 < payloadWords by omega),
    cellInside payload (show first + 2 < payloadWords by omega),
    cellInside payload (show first + 3 < payloadWords by omega)]
  exact ⟨_,rfl⟩

theorem recordNeeds {payload : Payload} {first : Nat} {ack : Command}
    (found : recordAt payload first = some ack) : first + 4 ≤ payloadWords := by
  simp only [recordAt, bind, Option.bind_eq_some_iff] at found
  obtain ⟨_, _, _, _, _, _, _, last, _⟩ := found
  have := cellSome last
  omega

theorem sameRecord {a b : Payload} {first : Nat} (same : ∀ j, first ≤ j → cell a j = cell b j) :
    recordAt a first = recordAt b first := by
  simp only [recordAt, same first (by omega), same (first+1) (by omega), same (first+2) (by omega),
    same (first+3) (by omega)]

theorem lowShort (needToSwap : Bool) (word : BitVec 32) :
    (swapLowShort needToSwap word).extractLsb' 0 16 = swapShort needToSwap (word.extractLsb' 0 16) :=
  BitVec.extractLsb'_append_eq_right

theorem highShort (needToSwap : Bool) (word : BitVec 32) :
    (swapLowShort needToSwap word).extractLsb' 16 16 = word.extractLsb' 16 16 :=
  BitVec.extractLsb'_append_eq_left

theorem lowUnswapped (word : BitVec 32) : swapLowShort false word = word := by
  have joined : word.extractLsb' 16 16 ++ word.extractLsb' 0 16 = word.extractLsb' 0 32 :=
    BitVec.extractLsb'_append_extractLsb'_eq_extractLsb' rfl
  exact joined.trans BitVec.extractLsb'_eq_self

theorem cellLowShort {needToSwap : Bool} {first : Nat} {payload after : Payload}
    (swapped : swapLowBlock needToSwap first payload = some after) (i : Nat) :
    cell after i = if i = first then (cell payload i).map (swapLowShort needToSwap)
      else cell payload i := by
  unfold swapLowBlock at swapped
  cases needToSwap with
  | false =>
    cases Option.some.inj swapped
    have same : swapLowShort false = id := funext lowUnswapped
    simp only [same, Option.map_id, id, ite_self]
  | true =>
    rw [cellMapped swapped i]
    congr 1
    simp only [eq_iff_iff]
    omega

theorem cellLong {needToSwap : Bool} {first : Nat} {payload after : Payload}
    (swapped : swapLongBlock needToSwap first 1 payload = some after) (i : Nat) :
    cell after i = if i = first then (cell payload i).map (swapLong needToSwap)
      else cell payload i := by
  rw [cellSwapped swapped i]
  congr 1
  simp only [eq_iff_iff]
  omega

theorem recordSwapped {needToSwap : Bool} {first : Nat} {payload after : Payload}
    (swapped : swapRecord needToSwap first payload = some after) :
    recordAt after first = (recordAt payload first).map (inHostOrder needToSwap) ∧
      ∀ j, first + 4 ≤ j → cell after j = cell payload j := by
  simp only [swapRecord, bind, Option.bind_eq_some_iff] at swapped
  obtain ⟨numbered, cmdNum, labelled, packetNum, data⟩ := swapped
  have front : cell after first = (cell payload first).map (swapLong needToSwap) := by
    rw [cellLong data, if_neg (by omega), cellLowShort packetNum, if_neg (by omega), cellLong cmdNum, if_pos rfl]
  have second : cell after (first+1) = (cell payload (first+1)).map (swapLowShort needToSwap) := by
    rw [cellLong data, if_neg (by omega), cellLowShort packetNum, if_pos rfl, cellLong cmdNum, if_neg (by omega)]
  have third : cell after (first+2) = cell payload (first+2) := by
    rw [cellLong data, if_neg (by omega), cellLowShort packetNum, if_neg (by omega), cellLong cmdNum, if_neg (by omega)]
  have last : cell after (first+3) = (cell payload (first+3)).map (swapLong needToSwap) := by
    rw [cellLong data, if_pos rfl, cellLowShort packetNum, if_neg (by omega), cellLong cmdNum, if_neg (by omega)]
  refine ⟨?_, fun j behind => ?_⟩
  · simp only [recordAt, front, second, third, last]
    by_cases inside : first + 3 < payloadWords
    · simp only [cellInside payload (show first < payloadWords by omega),
        cellInside payload (show first + 1 < payloadWords by omega),
        cellInside payload (show first + 2 < payloadWords by omega),
        cellInside payload inside, Option.map_some, bind, Option.bind_some, lowShort, highShort]
      rfl
    · simp [cellOutside payload (show payloadWords ≤ first + 3 by omega)]
  · rw [cellLong data, if_neg (by omega), cellLowShort packetNum, if_neg (by omega), cellLong cmdNum, if_neg (by omega)]

theorem swapsInside (needToSwap : Bool) {first : Nat} (payload : Payload)
    (inside : first + 4 ≤ payloadWords) : ∃ after, swapRecord needToSwap first payload = some after := by
  have long : ∀ (k : Nat) (p : Payload), k + 1 ≤ payloadWords →
      ∃ after, swapLongBlock needToSwap k 1 p = some after := fun k p fits =>
    (swapLongBlockInside needToSwap k 1 p).mpr fun _ => fits
  obtain ⟨numbered, cmdNum⟩ := long first payload (by omega)
  have low : ∃ labelled, swapLowBlock needToSwap (first+1) numbered = some labelled := by
    unfold swapLowBlock
    cases needToSwap with
    | false => exact ⟨_,rfl⟩
    | true => exact (mapCellsInside _ numbered).mpr (by omega)
  obtain ⟨labelled, packetNum⟩ := low
  obtain ⟨after, data⟩ := long (first+3) labelled (by omega)
  exact ⟨after, by simp only [swapRecord, cmdNum, packetNum, bind, Option.bind_some, data]⟩

theorem pushedRecords {needToSwap : Bool} {left i : Nat} {payload after : Payload}
    {queue queueAfter : List Command}
    (run : pushAcks needToSwap left i payload queue = some (after,queueAfter)) :
    ∃ pushed, queueAfter = queue ++ pushed ∧
      pushed.map some = (List.range' i left).map (wireRecord needToSwap payload) := by
  induction left generalizing i payload queue with
  | zero =>
    cases Option.some.inj run
    exact ⟨[], by simp, rfl⟩
  | succ left ih =>
    simp only [pushAcks, bind, Option.bind_eq_some_iff] at run
    obtain ⟨next, swapped, ack, found, later⟩ := run
    obtain ⟨same, behind⟩ := recordSwapped swapped
    obtain ⟨pushed, queued, records⟩ := ih later
    refine ⟨ack::pushed, by rw [queued, List.append_assoc]; rfl, ?_⟩
    rw [List.map_cons, records, List.range'_succ, List.map_cons, wireRecord, ← same, found]
    congr 1
    refine List.map_congr_left fun j mem => ?_
    have further : i + 1 ≤ j := (List.mem_range'_1.mp mem).1
    rw [wireRecord, wireRecord, sameRecord fun k front => behind k (by unfold recordWord at front ⊢; omega)]

theorem pushesInside (needToSwap : Bool) {left i : Nat} (payload : Payload) (queue : List Command)
    (inside : recordWord (i+left) ≤ payloadWords) :
    ∃ after queueAfter, pushAcks needToSwap left i payload queue = some (after,queueAfter) := by
  unfold recordWord at inside
  induction left generalizing i payload queue with
  | zero => exact ⟨payload,queue,rfl⟩
  | succ left ih =>
    have fits : recordWord i + 4 ≤ payloadWords := by unfold recordWord; omega
    obtain ⟨next, swapped⟩ := swapsInside needToSwap payload fits
    obtain ⟨ack, found⟩ := recordInside next fits
    simp only [pushAcks, swapped, found, bind, Option.bind_some]
    exact ih next (queue ++ [ack]) (by omega)

theorem headSwapped (needToSwap : Bool) (payload : Payload) (queue : List Command) :
    ∃ headed, processCmdAck needToSwap payload queue =
        pushAcks needToSwap (howMany needToSwap payload) 0 headed queue ∧
      ∀ i, wireRecord needToSwap headed i = wireRecord needToSwap payload i := by
  obtain ⟨headed, swapped⟩ :=
    (swapLongBlockInside needToSwap 0 1 payload).mpr fun _ => by decide
  have count : cell headed 0 = some (swapLong needToSwap (payload ⟨0,by decide⟩)) := by
    rw [cellLong swapped, if_pos rfl, cellInside payload (by decide), Option.map_some]
  refine ⟨headed, by simp only [processCmdAck, swapped, count, bind, Option.bind_some]; rfl, fun i => ?_⟩
  have same : ∀ j, recordWord i ≤ j → cell headed j = cell payload j := by
    intro j behind
    rw [cellLong swapped, if_neg (by unfold recordWord at behind; omega)]
  rw [wireRecord, wireRecord, sameRecord same]

theorem wireNeeds {needToSwap : Bool} {payload : Payload} {i : Nat} {ack : Command}
    (found : wireRecord needToSwap payload i = some ack) : recordWord i + 4 ≤ payloadWords := by
  obtain ⟨record, there, -⟩ := Option.map_eq_some_iff.mp found
  exact recordNeeds there

/- The records stay inside as long as 89 of them are announced. -/
theorem acksInside (needToSwap : Bool) (payload : Payload) (queue : List Command) :
    AcksInside needToSwap payload queue ↔ howMany needToSwap payload ≤ 89 := by
  obtain ⟨headed, run, wire⟩ := headSwapped needToSwap payload queue
  constructor
  · rintro ⟨after, pushed, done, -⟩
    rw [run] at done
    obtain ⟨acks, -, records⟩ := pushedRecords done
    by_contra many
    have lengths := congrArg List.length records
    rw [List.length_map, List.length_map, List.length_range'] at lengths
    have last : (acks.map some)[89]? = some (some acks[89]) := by
      rw [List.getElem?_map, List.getElem?_eq_getElem (by omega), Option.map_some]
    rw [records, List.getElem?_map, List.getElem?_range' (by omega), Option.map_some] at last
    have := wireNeeds (Option.some.inj last)
    unfold recordWord payloadWords at this
    omega
  · intro few
    have fits : recordWord (0 + howMany needToSwap payload) ≤ payloadWords := by
      unfold recordWord payloadWords; omega
    obtain ⟨after, queueAfter, done⟩ := pushesInside needToSwap headed queue fits
    obtain ⟨pushed, rfl, records⟩ := pushedRecords done
    refine ⟨after, pushed, run.trans done, fun ack mem => ?_, fun _ => ?_⟩
    · have listed : some ack ∈ pushed.map some := List.mem_map_of_mem mem
      rw [records] at listed
      obtain ⟨i, -, found⟩ := List.mem_map.mp listed
      rw [wire] at found
      exact ⟨i, wireNeeds found, found⟩
    · have lengths := congrArg List.length records
      rw [List.length_map, List.length_map, List.length_range'] at lengths
      exact lengths

/- With 90 records announced the last one starts in the last three words. -/
theorem ninetyAcks : ¬ AcksInside true (fun i => if i.val = 0 then 0x5A000000 else 0) [] := by
  rintro ⟨after, pushed, done, -⟩
  obtain ⟨headed, run, wire⟩ := headSwapped true (fun i => if i.val = 0 then 0x5A000000 else 0) []
  have announced : howMany true (fun i => if i.val = 0 then 0x5A000000 else 0) = 90 := by decide
  rw [run, announced] at done
  obtain ⟨acks, -, records⟩ := pushedRecords done
  have listed : wireRecord true headed 89 ∈ acks.map some := by
    rw [records]
    exact List.mem_map_of_mem (List.mem_range'_1.mpr ⟨by decide, by decide⟩)
  obtain ⟨ack, -, found⟩ := List.mem_map.mp listed
  exact absurd (wireNeeds found.symm) (by decide)

end PennDaq.CommandAcks
