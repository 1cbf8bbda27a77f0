import PennDaq.XL3Commands

/-! Loading many DACs at once: the packet that `XL3Model::MultiLoadsDac` hands to
`SendCommand`. -/
namespace PennDaq.MultiLoads
open Lib.Block
open FECSettings (swapLong)
open XL3Packets
open XL3Commands

structure LoadsDacArgs where
  slotNum : BitVec 32
  dacNum : BitVec 32
  dacValue : BitVec 32
  deriving DecidableEq, Repr

def maxDacs : Nat := 50

def dacWord (j : Nat) : Nat := 1 + 3*j

def storeDac (payload : Payload) (j : Nat) (args : LoadsDacArgs) : Option Payload := do
  let payload ← setCell payload (dacWord j) args.slotNum
  let payload ← setCell payload (dacWord j + 1) args.dacNum
  setCell payload (dacWord j + 2) args.dacValue

def fillDacs : Nat → List LoadsDacArgs → Payload → Option Payload
  | _, [], payload => some payload
  | j, given::later, payload =>
    if j ≥ maxDacs then some payload
    else do
      let dacValue := if given.dacValue < 256 then given.dacValue else 255
      let payload ← storeDac payload j ⟨given.slotNum,given.dacNum,dacValue⟩
      fillDacs (j+1) later payload

def multiLoadsDacArgs (needToSwap : Bool) (payload : Payload) (loads : List LoadsDacArgs) :
    Option Payload := do
  let payload ← setCell payload 0 (BitVec.ofNat 32 loads.length)
  let payload ← fillDacs 0 loads payload
  swapLongBlock needToSwap 0 (loads.length*3+1) payload

def multiLoadsDac (needToSwap : Bool) (x : XL3) (packet : XL3Packet) (loads : List LoadsDacArgs) :
    Option (Except Failure Int × XL3) := do
  let payload ← multiLoadsDacArgs needToSwap packet.payload loads
  let packet : XL3Packet := ⟨{ packet.header with packetType := multiLoadsDacId }, payload⟩
  match sendCommand needToSwap x packet true with
  | (.error what,x) => return (.error what,x)
  | (.ok reply,x) =>
    let results ← swapLongBlock needToSwap 0 1 reply.payload
    let errorFlags ← cell results 0
    return (.ok errorFlags.toInt,x)

def dacAt (needToSwap : Bool) (payload : Payload) (j : Nat) : Option LoadsDacArgs := do
  let slotNum ← cell payload (dacWord j)
  let dacNum ← cell payload (dacWord j + 1)
  let dacValue ← cell payload (dacWord j + 2)
  return ⟨swapLong needToSwap slotNum, swapLong needToSwap dacNum, swapLong needToSwap dacValue⟩

def readDacs (needToSwap : Bool) (payload : Payload) : Nat → Nat → Option (List LoadsDacArgs)
  | _, 0 => some []
  | j, count+1 => do
    let dac ← dacAt needToSwap payload j
    let later ← readDacs needToSwap payload (j+1) count
    return dac::later

def announced (needToSwap : Bool) (payload : Payload) : Nat :=
  (swapLong needToSwap (payload ⟨0,somePayload⟩)).toNat

def decode (needToSwap : Bool) (payload : Payload) : Option (List LoadsDacArgs) :=
  if announced needToSwap payload ≤ maxDacs then
    readDacs needToSwap payload 0 (announced needToSwap payload)
  else none

def capped (given : LoadsDacArgs) : LoadsDacArgs :=
  { given with dacValue := BitVec.ofNat 32 (min given.dacValue.toNat 255) }

def LoadsAll (needToSwap : Bool) (payload : Payload) (loads : List LoadsDacArgs) : Prop :=
  ∃ packet, multiLoadsDacArgs needToSwap payload loads = some packet ∧
    decode needToSwap packet = some (loads.map capped)

theorem cappedValue (value : BitVec 32) :
    (if value < 256 then value else 255) = BitVec.ofNat 32 (min value.toNat 255) := by
  apply BitVec.eq_of_toNat_eq
  rw [BitVec.toNat_ofNat]
  split
  · rename_i low
    have below : value.toNat < 256 := low
    omega
  · rename_i high
    have above : ¬ value.toNat < 256 := high
    rw [Nat.min_eq_right (by omega)]
    rfl

theorem dacsLength {needToSwap : Bool} {payload : Payload} {j count : Nat} {loads : List LoadsDacArgs}
    (read : readDacs needToSwap payload j count = some loads) : loads.length = count := by
  induction count generalizing j loads with
  | zero =>
    cases Option.some.inj read
    rfl
  | succ count ih =>
    simp only [readDacs, bind, Option.bind_eq_some_iff] at read
    obtain ⟨dac, -, later, rest, last⟩ := read
    cases Option.some.inj last
    rw [List.length_cons, ih rest]

theorem sameDac {a b : Payload} {j : Nat}
    (same : ∀ i, dacWord j ≤ i → i < dacWord j + 3 → cell a i = cell b i) :
    dacAt false a j = dacAt false b j := by
  simp only [dacAt, same (dacWord j) (by omega) (by omega), same (dacWord j + 1) (by omega) (by omega),
    same (dacWord j + 2) (by omega) (by omega)]

theorem dacStored (payload : Payload) {j : Nat} (args : LoadsDacArgs) (inside : dacWord j + 3 ≤ payloadWords) :
    ∃ after, storeDac payload j args = some after ∧ dacAt false after j = some args ∧
      ∀ i < dacWord j, cell after i = cell payload i := by
  obtain ⟨slotted, slotNum⟩ := setInside payload (i := dacWord j) args.slotNum (by omega)
  obtain ⟨numbered, dacNum⟩ := setInside slotted (i := dacWord j + 1) args.dacNum (by omega)
  obtain ⟨after, dacValue⟩ := setInside numbered (i := dacWord j + 2) args.dacValue (by omega)
  have slot : cell after (dacWord j) = some args.slotNum := by
    rw [cellSet dacValue, if_neg (by omega), cellSet dacNum, if_neg (by omega), cellSet slotNum, if_pos rfl]
  have dac : cell after (dacWord j + 1) = some args.dacNum := by
    rw [cellSet dacValue, if_neg (by omega), cellSet dacNum, if_pos rfl]
  have value : cell after (dacWord j + 2) = some args.dacValue := by
    rw [cellSet dacValue, if_pos rfl]
  refine ⟨after, ?_, ?_, fun i before => ?_⟩
  · simp only [storeDac, slotNum, dacNum, dacValue, bind, Option.bind_some]
  · simp only [dacAt, slot, dac, value, bind, Option.bind_some]
    rfl
  · rw [cellSet dacValue, if_neg (by omega), cellSet dacNum, if_neg (by omega), cellSet slotNum,
      if_neg (by omega)]

theorem dacsFilled {j : Nat} (payload : Payload) (loads : List LoadsDacArgs)
    (few : j + loads.length ≤ maxDacs) :
    ∃ after, fillDacs j loads payload = some after ∧ (∀ i < dacWord j, cell after i = cell payload i) ∧
      readDacs false after j loads.length = some (loads.map capped) := by
  induction loads generalizing j payload with
  | nil => exact ⟨payload, rfl, fun i _ => rfl, rfl⟩
  | cons given later ih =>
    rw [List.length_cons] at few
    have inside : dacWord j + 3 ≤ payloadWords := by
      unfold dacWord payloadWords
      unfold maxDacs at few
      omega
    obtain ⟨stored, store, here, before⟩ := dacStored payload (capped given) inside
    obtain ⟨after, fill, kept, rest⟩ := ih (j := j+1) stored (by omega)
    have front : ∀ i < dacWord j + 3, cell after i = cell stored i :=
      fun i low => kept i (by unfold dacWord at low ⊢; omega)
    refine ⟨after, ?_, fun i low => ?_, ?_⟩
    · rw [fillDacs, if_neg (by omega)]
      simp only [cappedValue, bind, Option.bind_eq_some_iff]
      exact ⟨stored, store, fill⟩
    · rw [front i (by omega), before i low]
    · have head : dacAt false after j = some (capped given) :=
        (sameDac fun i _ high => front i high).trans here
      simp only [List.length_cons, readDacs, head, rest, bind, Option.bind_some, List.map_cons]
      rfl

theorem dacsSwapped {needToSwap : Bool} {n : Nat} {filled packet : Payload}
    (swapped : swapLongBlock needToSwap 0 (n*3+1) filled = some packet) {j count : Nat} (few : j + count ≤ n) :
    readDacs needToSwap packet j count = readDacs false filled j count := by
  have word : ∀ i ≤ n*3, (cell packet i).map (swapLong needToSwap) = cell filled i := by
    intro i low
    have twice : swapLong needToSwap ∘ swapLong needToSwap = id := funext (swapLongTwice needToSwap)
    rw [cellSwapped swapped, if_pos (by omega), Option.map_map, twice, Option.map_id, id]
  induction count generalizing j with
  | zero => rfl
  | succ count ih =>
    have dac : dacAt needToSwap packet j = dacAt false filled j := by
      simp only [dacAt, ← word (dacWord j) (by unfold dacWord; omega),
        ← word (dacWord j + 1) (by unfold dacWord; omega), ← word (dacWord j + 2) (by unfold dacWord; omega)]
      simp only [bind, Option.bind_map]
      rfl
    rw [readDacs, readDacs, dac, ih (by omega)]

/- All triples arrive as long as there are 50 of them at most. -/
theorem loadsAll (needToSwap : Bool) (payload : Payload) (loads : List LoadsDacArgs) :
    LoadsAll needToSwap payload loads ↔ loads.length ≤ 50 := by
  constructor
  · rintro ⟨packet, -, decoded⟩
    unfold decode at decoded
    split at decoded
    · rename_i few
      have length := dacsLength decoded
      rw [List.length_map] at length
      exact length ▸ few
    · contradiction
  · intro few
    obtain ⟨headed, head⟩ := setInside payload (i := 0) (BitVec.ofNat 32 loads.length) (by decide)
    obtain ⟨filled, fill, kept, read⟩ := dacsFilled (j := 0) headed loads (by unfold maxDacs; omega)
    obtain ⟨packet, swapped⟩ := (swapLongBlockInside needToSwap 0 (loads.length*3+1) filled).mpr fun _ => by unfold payloadWords; omega
    refine ⟨packet, by simp only [multiLoadsDacArgs, head, fill, bind, Option.bind_some, swapped], ?_⟩
    have count : cell filled 0 = some (BitVec.ofNat 32 loads.length) := by
      rw [kept 0 (by decide), cellSet head, if_pos rfl]
    have number : announced needToSwap packet = loads.length := by
      have first := cellSwapped swapped 0
      rw [if_pos (by omega), count, cellInside packet (by decide), Option.map_some] at first
      rw [announced, Option.some.inj first, swapLongTwice, BitVec.toNat_ofNat]
      omega
    have room : loads.length ≤ maxDacs := few
    rw [decode, number, if_pos room, dacsSwapped swapped (by omega), read]

/- The packet with 51 triples announces one more than it has room for. -/
theorem lastLoadDropped : ¬ LoadsAll true (fun _ => 0) (List.replicate 51 ⟨0,0,0⟩) := by
  rintro ⟨packet, -, decoded⟩
  unfold decode at decoded
  split at decoded
  · rename_i few
    have length := dacsLength decoded
    rw [← length, List.length_map, List.length_replicate] at few
    exact absurd few (by decide)
  · contradiction

end PennDaq.MultiLoads
