import PennDaq.XL3Commands

/-! Reading out the memory of a FEC: `XL3Model::ReadOutBundles`, whose bundles come in
chunks that the XL3 chooses, and the copy of its loop in `GetPedestal`. -/
namespace PennDaq.ReadOut
open Lib.Stores
open FECSettings (swapShort swapLong)
open XL3Packets
open XL3Commands
open XL3Model (num)

def fecSel : BitVec 32 := 0x00100000
def readReg : BitVec 32 := 0x10000000
def fifoDiffPtrR : BitVec 32 := 0x9e
def maxFecCommands : Int := 60000

def withType (packetType : UInt8) (packet : XL3Packet) : XL3Packet :=
  { packet with header := { packet.header with packetType := packetType } }

def setWord (i : Fin payloadWords) (value : BitVec 32) (packet : XL3Packet) : XL3Packet :=
  { packet with payload := Function.update packet.payload i value }

def RW (needToSwap : Bool) (x : XL3) (packet : XL3Packet) (address data : BitVec 32) :
    Except Failure (BitVec 32 × Nat) × XL3 :=
  let packet := withType fastCmdId packet
  let packet := setWord ⟨2,by decide⟩ (swapLong needToSwap address) packet
  let packet := setWord ⟨3,by decide⟩ (swapLong needToSwap data) packet
  match sendCommand needToSwap x packet true with
  | (.error what,x) => (.error what,x)
  | (.ok reply,x) =>
    let result := swapLong needToSwap (reply.payload ⟨3,by decide⟩)
    let flags := swapShort needToSwap ((reply.payload ⟨1,by decide⟩).extractLsb' 16 16)
    (.ok (result,flags.toNat),x)

def deselectFECs (needToSwap : Bool) (x : XL3) (packet : XL3Packet) : Except Failure Unit × XL3 :=
  match sendCommand needToSwap x (withType deselectFECsId packet) true with
  | (.error what,x) => (.error what,x)
  | (.ok _,x) => (.ok (),x)

structure Chunk where
  requested : Int
  queued : Int
  deriving DecidableEq, Repr

structure Pass where
  outcome : Except Failure Int
  packet : XL3Packet
  xl3 : XL3
  stores : List (Store (BitVec 32))
  chunk : Option Chunk

/- `pmtBuffer+(diff-readsLeft)`, an unsigned difference. -/
def writeOffset (diff : Nat) (readsLeft : Int) : Nat := (((diff : Int) - readsLeft) % 4294967296).toNat

def moved (offset : Nat) (stores : List (Store (BitVec 32))) : List (Store (BitVec 32)) :=
  stores.map fun store => { store with place := offset + store.place }

def requestOf (readsLeft : Int) : Int :=
  if readsLeft > maxFecCommands - 1000 then maxFecCommands - 1000 else readsLeft

def requestPacket (needToSwap : Bool) (slotNum : BitVec 32) (thisRead : Int) (packet : XL3Packet) : XL3Packet :=
  let packet := withType readPedestalsId packet
  let packet := setWord ⟨0,somePayload⟩ (swapLong needToSwap slotNum) packet
  setWord ⟨1,by decide⟩ (swapLong needToSwap (BitVec.ofInt 32 thisRead)) packet

/- What follows the reply. The number of the command whose acks are taken is what the caller
makes of the XL3 and of the reply. A pass that is well leaves a number of reads. -/
def takeChunk (needToSwap : Bool) (numberOf : XL3 → XL3Packet → Int) (diff : Nat) (readsLeft : Int)
    (reply : XL3Packet) (x : XL3) : Pass :=
  let readsQueued := swapLong needToSwap (reply.payload ⟨0,somePayload⟩)
  let packet := setWord ⟨0,somePayload⟩ readsQueued reply
  let chunk : Chunk := ⟨requestOf readsLeft, readsQueued.toInt⟩
  if readsQueued.toInt > 0 then
    let fetched := getMultiFCResults x.acks readsQueued.toInt (numberOf x reply)
    let stores := moved (writeOffset diff readsLeft) fetched.stores
    let x : XL3 := { x with acks := fetched.acks }
    match fetched.outcome with
    | .error what => ⟨.error what, packet, x, stores, some chunk⟩
    | .ok _ => ⟨.ok (readsLeft - readsQueued.toInt), packet, x, stores, some chunk⟩
  else ⟨.ok readsLeft, packet, x, [], some chunk⟩

def readPass (needToSwap : Bool) (numberOf : XL3 → XL3Packet → Int) (slotNum : BitVec 32) (diff : Nat)
    (readsLeft : Int) (packet : XL3Packet) (x : XL3) : Pass :=
  let packet := requestPacket needToSwap slotNum (requestOf readsLeft) packet
  match sendCommand needToSwap x packet true with
  | (.error what,x) => ⟨.error what, packet, x, [], none⟩
  | (.ok reply,x) => takeChunk needToSwap numberOf diff readsLeft reply x

structure Read where
  outcome : Except Failure Unit
  xl3 : XL3
  stores : List (Store (BitVec 32))
  chunks : List Chunk

theorem sentShorter {needToSwap : Bool} {x after : XL3} {packet reply : XL3Packet}
    (sent : sendCommand needToSwap x packet true = (.ok reply,after)) :
    after.packets.length < x.packets.length := by
  unfold sendCommand at sent
  simp only [if_true, Prod.mk.injEq] at sent
  obtain ⟨ok, rfl⟩ := sent
  obtain ⟨taken, split, -, own⟩ := awaitTakes _ _ 0 (by decide) x.packets
  have more := List.length_pos_of_mem (own reply ok).1
  have lengths := congrArg List.length split
  rw [List.length_append] at lengths
  simp only
  omega

theorem chunkPackets (needToSwap : Bool) (numberOf : XL3 → XL3Packet → Int) (diff : Nat) (readsLeft : Int)
    (reply : XL3Packet) (x : XL3) :
    (takeChunk needToSwap numberOf diff readsLeft reply x).xl3.packets = x.packets := by
  simp only [takeChunk]
  split
  · split
    · rfl
    · rfl
  · rfl

theorem passShorter {needToSwap : Bool} {numberOf : XL3 → XL3Packet → Int} {slotNum : BitVec 32} {diff : Nat}
    {readsLeft left : Int} {packet : XL3Packet} {x : XL3}
    (ok : (readPass needToSwap numberOf slotNum diff readsLeft packet x).outcome = .ok left) :
    (readPass needToSwap numberOf slotNum diff readsLeft packet x).xl3.packets.length < x.packets.length := by
  unfold readPass at ok ⊢
  cases sent : sendCommand needToSwap x (requestPacket needToSwap slotNum (requestOf readsLeft) packet) true with
  | mk outcome after =>
    cases outcome with
    | error what =>
      simp only [sent] at ok
      cases ok
    | ok reply =>
      simp only [sent, chunkPackets]
      exact sentShorter sent

def readLoop (needToSwap : Bool) (numberOf : XL3 → XL3Packet → Int) (slotNum : BitVec 32) (diff : Nat)
    (readsLeft : Int) (packet : XL3Packet) (x : XL3) : Read :=
  if readsLeft = 0 then ⟨.ok (), x, [], []⟩
  else
    let pass := readPass needToSwap numberOf slotNum diff readsLeft packet x
    match _ended : pass.outcome with
    | .error what => ⟨.error what, pass.xl3, pass.stores, pass.chunk.toList⟩
    | .ok left =>
      let rest := readLoop needToSwap numberOf slotNum diff left pass.packet pass.xl3
      { rest with stores := pass.stores ++ rest.stores, chunks := pass.chunk.toList ++ rest.chunks }
termination_by x.packets.length
decreasing_by exact passShorter _ended

theorem loopStops {needToSwap : Bool} {numberOf : XL3 → XL3Packet → Int} {slotNum : BitVec 32} {diff : Nat}
    {readsLeft : Int} {packet : XL3Packet} {x : XL3} {what : Failure} (again : readsLeft ≠ 0)
    (failed : (readPass needToSwap numberOf slotNum diff readsLeft packet x).outcome = .error what) :
    let pass := readPass needToSwap numberOf slotNum diff readsLeft packet x
    readLoop needToSwap numberOf slotNum diff readsLeft packet x =
      ⟨.error what, pass.xl3, pass.stores, pass.chunk.toList⟩ := by
  rw [readLoop, if_neg again]
  simp only
  split
  · rename_i other same
    cases failed.symm.trans same
    rfl
  · rename_i left same
    cases failed.symm.trans same

theorem loopGoesOn {needToSwap : Bool} {numberOf : XL3 → XL3Packet → Int} {slotNum : BitVec 32} {diff : Nat}
    {readsLeft left : Int} {packet : XL3Packet} {x : XL3} (again : readsLeft ≠ 0)
    (ok : (readPass needToSwap numberOf slotNum diff readsLeft packet x).outcome = .ok left) :
    let pass := readPass needToSwap numberOf slotNum diff readsLeft packet x
    let rest := readLoop needToSwap numberOf slotNum diff left pass.packet pass.xl3
    readLoop needToSwap numberOf slotNum diff readsLeft packet x =
      { rest with stores := pass.stores ++ rest.stores, chunks := pass.chunk.toList ++ rest.chunks } := by
  rw [readLoop, if_neg again]
  simp only
  split
  · rename_i what same
    cases ok.symm.trans same
  · rename_i other same
    cases ok.symm.trans same
    rfl

def lastNumber (x : XL3) (_ : XL3Packet) : Int := x.fCommandNum.val - 1

def replyNumber (_ : XL3) (reply : XL3Packet) : Int := num reply.header.packetNum

def pedestalLoop (needToSwap : Bool) (slotNum : BitVec 32) (wordsInMem : Nat) (packet : XL3Packet) (x : XL3) : Read :=
  readLoop needToSwap replyNumber slotNum wordsInMem wordsInMem packet x

def wholeBundles (level : BitVec 32) : Nat :=
  let diff := (level &&& 0xFFFFF).toNat
  diff - diff % 3

/- `3*limit` is compared as unsigned. -/
def limited (limit : Nat) (checkLimit : Bool) (diff : Nat) : Nat :=
  if checkLimit then if 3*limit % 4294967296 < diff then 3*limit % 4294967296 else diff else diff

structure Bundles where
  outcome : Except Failure Nat
  xl3 : XL3
  stores : List (Store (BitVec 32))
  chunks : List Chunk

def fifoAddress (slotNum : BitVec 32) : BitVec 32 := fifoDiffPtrR + fecSel*slotNum + readReg

def readOutBundles (needToSwap : Bool) (x : XL3) (packet : XL3Packet) (slotNum : BitVec 32) (limit : Nat)
    (checkLimit : Bool) : Bundles :=
  match RW needToSwap x packet (fifoAddress slotNum) 0 with
  | (.error what,x) => ⟨.error what, x, [], []⟩
  | (.ok (level,_),x) =>
    let diff := limited limit checkLimit (wholeBundles level)
    let loop := readLoop needToSwap lastNumber slotNum diff diff packet x
    match loop.outcome with
    | .error what => ⟨.error what, loop.xl3, loop.stores, loop.chunks⟩
    | .ok _ => match deselectFECs needToSwap loop.xl3 packet with
      | (.error what,x) => ⟨.error what, x, loop.stores, loop.chunks⟩
      | (.ok _,x) => ⟨.ok (diff/3), x, loop.stores, loop.chunks⟩

def Honest (chunks : List Chunk) : Prop := ∀ chunk ∈ chunks, 0 ≤ chunk.queued ∧ chunk.queued ≤ chunk.requested

theorem requestBound (readsLeft : Int) : requestOf readsLeft ≤ readsLeft := by
  unfold requestOf maxFecCommands
  split
  · omega
  · omega

theorem requestShort (readsLeft : Int) : requestOf readsLeft ≤ 59000 := by
  unfold requestOf maxFecCommands
  split
  · omega
  · omega

theorem offsetInside {diff : Nat} (small : diff < 4294967296) {readsLeft : Int} (some' : 0 ≤ readsLeft)
    (left : readsLeft ≤ diff) : (writeOffset diff readsLeft : Int) = diff - readsLeft := by
  unfold writeOffset
  omega

theorem chunkPlaces {needToSwap : Bool} {numberOf : XL3 → XL3Packet → Int} {diff : Nat} (small : diff < 4294967296)
    {readsLeft : Int} (more : 0 ≤ readsLeft) (left : readsLeft ≤ diff) {reply : XL3Packet} {x : XL3}
    (honest : Honest (takeChunk needToSwap numberOf diff readsLeft reply x).chunk.toList) :
    (∀ store ∈ (takeChunk needToSwap numberOf diff readsLeft reply x).stores, store.place < diff) ∧
      ∀ next, (takeChunk needToSwap numberOf diff readsLeft reply x).outcome = .ok next →
        0 ≤ next ∧ next ≤ diff := by
  have asked := requestBound readsLeft
  have offset := offsetInside small more left
  simp only [takeChunk] at honest ⊢
  by_cases queued : (swapLong needToSwap (reply.payload ⟨0,by decide⟩)).toInt > 0
  swap
  · rw [if_neg queued]
    refine ⟨fun store mem => absurd mem List.not_mem_nil, fun next ok => ?_⟩
    cases ok
    exact ⟨more,left⟩
  rw [if_pos queued] at honest ⊢
  have places : ∀ store ∈ moved (writeOffset diff readsLeft) (getMultiFCResults x.acks
      (swapLong needToSwap (reply.payload ⟨0,by decide⟩)).toInt (numberOf x reply)).stores,
      (store.place : Int) < diff - readsLeft + (swapLong needToSwap (reply.payload ⟨0,by decide⟩)).toInt := by
    intro store mem
    obtain ⟨own, inside, rfl⟩ := List.mem_map.mp mem
    have below := fetchPlaces inside
    push_cast
    omega
  cases fetched : (getMultiFCResults x.acks (swapLong needToSwap (reply.payload ⟨0,by decide⟩)).toInt
      (numberOf x reply)).outcome with
  | error what =>
    simp only [fetched, Option.toList_some, Honest, List.forall_mem_cons] at honest ⊢
    refine ⟨fun store mem => ?_, fun next ok => by cases ok⟩
    have below := places store mem
    omega
  | ok value =>
    simp only [fetched, Option.toList_some, Honest, List.forall_mem_cons] at honest ⊢
    refine ⟨fun store mem => ?_, fun next ok => ?_⟩
    · have below := places store mem
      omega
    · cases ok
      omega

theorem passPlaces {needToSwap : Bool} {numberOf : XL3 → XL3Packet → Int} {slotNum : BitVec 32} {diff : Nat}
    (small : diff < 4294967296) {readsLeft : Int} (more : 0 ≤ readsLeft) (left : readsLeft ≤ diff)
    {packet : XL3Packet} {x : XL3}
    (honest : Honest (readPass needToSwap numberOf slotNum diff readsLeft packet x).chunk.toList) :
    (∀ store ∈ (readPass needToSwap numberOf slotNum diff readsLeft packet x).stores, store.place < diff) ∧
      ∀ next, (readPass needToSwap numberOf slotNum diff readsLeft packet x).outcome = .ok next →
        0 ≤ next ∧ next ≤ diff := by
  unfold readPass at honest ⊢
  cases sent : sendCommand needToSwap x (requestPacket needToSwap slotNum (requestOf readsLeft) packet) true with
  | mk outcome after =>
    cases outcome with
    | error what =>
      simp only [sent]
      exact ⟨fun store mem => absurd mem List.not_mem_nil, fun next ok => by cases ok⟩
    | ok reply =>
      simp only [sent] at honest ⊢
      exact chunkPlaces small more left honest

theorem loopPlaces {needToSwap : Bool} {numberOf : XL3 → XL3Packet → Int} {slotNum : BitVec 32} {diff : Nat}
    (small : diff < 4294967296) {readsLeft : Int} (more : 0 ≤ readsLeft) (left : readsLeft ≤ diff)
    {packet : XL3Packet} {x : XL3}
    (honest : Honest (readLoop needToSwap numberOf slotNum diff readsLeft packet x).chunks) :
    ∀ store ∈ (readLoop needToSwap numberOf slotNum diff readsLeft packet x).stores, store.place < diff := by
  induction count : x.packets.length using Nat.strong_induction_on generalizing readsLeft packet x with
  | _ n ih =>
  by_cases again : readsLeft = 0
  · rw [readLoop, if_pos again]
    exact fun store mem => absurd mem List.not_mem_nil
  cases ended : (readPass needToSwap numberOf slotNum diff readsLeft packet x).outcome with
  | error what =>
    rw [loopStops again ended] at honest ⊢
    exact (passPlaces small more left honest).1
  | ok next =>
    rw [loopGoesOn again ended] at honest ⊢
    have first := passPlaces small more left fun chunk mem => honest chunk (List.mem_append_left _ mem)
    obtain ⟨low, high⟩ := first.2 next ended
    have later := ih _ (count ▸ passShorter ended) low high (fun chunk mem => honest chunk (List.mem_append_right _ mem)) rfl
    intro store mem
    rcases List.mem_append.mp mem with mem | mem
    · exact first.1 store mem
    · exact later store mem

def Answered (type : UInt8) (number : Nat) (taken : List (Option XL3Packet)) (reply : XL3Packet) : Prop :=
  ∀ later, awaitResponse type number 0 (taken ++ later) = (.ok reply,later)

structure ChunkAcks (number queued : Nat) (acks : List Command) : Prop where
  own : ∀ ack ∈ acks, ack.packetNum.toNat = number
  numbered : NumberedFrom 0 queued acks
  unflagged : Unflagged acks

/- The reads that are left come in chunks of any size, the acks of each under the number of
its command. -/
inductive Chunks (needToSwap : Bool) (last : Nat) :
    Nat → Nat → List (Option XL3Packet) → List Command → Prop where
  | done : Chunks needToSwap last last 0 [] []
  | chunk {number left queued : Nat} {taken reply packets acks own}
      (answer : Answered readPedestalsId number taken reply)
      (queues : (swapLong needToSwap (reply.payload ⟨0,by decide⟩)).toNat = queued)
      (more : 1 ≤ queued) (few : queued ≤ requestOf left)
      (acked : ChunkAcks number queued acks)
      (rest : Chunks needToSwap last (number+1) (left-queued) packets own) :
      Chunks needToSwap last number left (taken ++ packets) (acks ++ own)

theorem chunksCount {needToSwap : Bool} {last number left : Nat} {packets : List (Option XL3Packet)}
    {own : List Command} (chunks : Chunks needToSwap last number left packets own) :
    number ≤ last ∧ own.length = left := by
  induction chunks with
  | done => exact ⟨Nat.le_refl _, rfl⟩
  | @chunk number left queued taken reply packets acks own answer queues more few acked rest ih =>
    have length := numberedLength acked.numbered
    have asked := requestBound left
    rw [List.length_append]
    omega

theorem sentAnswered (needToSwap : Bool) {x : XL3} (packet : XL3Packet) {reply : XL3Packet} {taken later : List (Option XL3Packet)}
    (answer : Answered packet.header.packetType x.fCommandNum.val taken reply)
    (packets : x.packets = taken ++ later) :
    ∃ after, sendCommand needToSwap x packet true = (.ok reply,after) ∧
      after.fCommandNum.val = (x.fCommandNum.val + 1) % 65536 ∧ after.packets = later ∧ after.acks = x.acks := by
  have number : (x.fCommandNum.val : Int).tmod 65536 = x.fCommandNum.val :=
    XL3Model.looksForSmall x.fCommandNum.isLt
  have found := answer later
  rw [← packets] at found
  refine ⟨{ x with
    fCommandNum := ⟨(x.fCommandNum.val + 1) % 65536, Nat.mod_lt _ (by decide)⟩
    packets := later
    sent := onWire needToSwap (withNum (UInt16.ofNat x.fCommandNum) packet)::x.sent }, ?_, rfl, rfl, rfl⟩
  have kind : (onWire needToSwap (withNum (UInt16.ofNat x.fCommandNum) packet)).header.packetType =
      packet.header.packetType := rfl
  simp only [sendCommand, number, if_true, kind, found]

def FindsNumber (numberOf : XL3 → XL3Packet → Int) : Prop :=
  ∀ needToSwap x packet reply after, sendCommand needToSwap x packet true = (.ok reply,after) →
    x.fCommandNum.val + 1 < 65536 → XL3Model.looksFor (numberOf after reply) = x.fCommandNum.val

theorem lastFinds : FindsNumber lastNumber := by
  intro needToSwap x packet reply after sent low
  simp only [sendCommand, if_true, Prod.mk.injEq] at sent
  obtain ⟨-, rfl⟩ := sent
  have last : lastNumber (sendCommand needToSwap x packet true).2 reply = x.fCommandNum.val := by
    simp only [lastNumber, sendCommand, if_true]
    omega
  rw [← XL3Model.looksForSmall x.fCommandNum.isLt, ← last]
  rfl

theorem replyFinds : FindsNumber replyNumber := by
  intro needToSwap x packet reply after sent low
  have number : (x.fCommandNum.val : Int).tmod 65536 = x.fCommandNum.val :=
    XL3Model.looksForSmall x.fCommandNum.isLt
  simp only [sendCommand, if_true, number, Prod.mk.injEq] at sent
  obtain ⟨taken, -, -, own⟩ := awaitTakes packet.header.packetType x.fCommandNum.val 0 (by decide) x.packets
  rw [replyNumber, (own reply sent.1).2.2]
  exact XL3Model.looksForSmall x.fCommandNum.isLt

theorem movedRow (offset first : Nat) (values : List (BitVec 32)) :
    moved offset (row first values) = row (offset + first) values := by
  induction values generalizing first with
  | nil => rfl
  | cons value values ih =>
    have rest := ih (first+1)
    unfold moved at rest ⊢
    rw [row, List.map_cons, rest]
    rfl

theorem chunkRead {needToSwap : Bool} {numberOf : XL3 → XL3Packet → Int} {diff left number queued : Nat}
    (small : diff < 4294967296) (inside : left ≤ diff) {reply : XL3Packet} {x : XL3}
    (finds : XL3Model.looksFor (numberOf x reply) = number) (low : number < 65536)
    (queues : (swapLong needToSwap (reply.payload ⟨0,by decide⟩)).toNat = queued)
    (more : 1 ≤ queued) (few : queued ≤ requestOf left) {acks own : List Command}
    (acked : ChunkAcks number queued acks) (counted : Command → Bool)
    (covers : ∀ ack : Command, ack.packetNum.toNat = number → counted ack)
    (queue : x.acks.filter counted = acks ++ own) :
    let pass := takeChunk needToSwap numberOf diff left reply x
    pass.outcome = .ok (left - queued : Nat) ∧ pass.stores = row (diff-left) (acks.map Command.data) ∧
      Honest pass.chunk.toList ∧ pass.xl3.fCommandNum = x.fCommandNum ∧ pass.xl3.packets = x.packets ∧
      pass.xl3.acks.filter counted = own := by
  have short := requestShort left
  have asked := requestBound left
  have signed : (swapLong needToSwap (reply.payload ⟨0,by decide⟩)).toInt = queued := by
    rw [BitVec.toInt_eq_toNat_of_lt (by omega), queues]
  have start : writeOffset diff left = diff - left := by
    have offset := offsetInside small (Int.natCast_nonneg left) (by omega)
    omega
  have same : (BitVec.ofNat 16 number).toNat = number := by
    rw [BitVec.toNat_ofNat]
    omega
  have count : ((queued : Int) - (0 : Nat)).toNat = queued := by omega
  obtain ⟨errors, rest, run, remain⟩ := fetchTakes queued counted
    (fun ack (own : ack.packetNum = BitVec.ofNat 16 number) => covers ack (by rw [own, same])) 0 queue
    (fun ack mem => BitVec.eq_of_toNat_eq (by rw [acked.own ack mem, same])) (count.symm ▸ acked.numbered)
  rw [same] at run
  have fetched : getMultiFCResults x.acks queued (numberOf x reply) =
      ⟨.ok 0, errors, row 0 (acks.map Command.data), rest⟩ := by
    rw [getMultiFCResults, finds, run]
  have positive : (queued : Int) > 0 := by omega
  simp only [takeChunk, signed, if_pos positive, fetched, start, movedRow, Nat.add_zero]
  refine ⟨?_, trivial, ?_, trivial, trivial, remain⟩
  · congr 1
    omega
  · intro chunk mem
    obtain rfl := List.mem_singleton.mp mem
    exact ⟨by simp, few⟩

theorem chunksRead {needToSwap : Bool} {numberOf : XL3 → XL3Packet → Int} (finds : FindsNumber numberOf)
    (slotNum : BitVec 32) {diff last number left : Nat} (small : diff < 4294967296) (whole : last < 65536)
    {packets : List (Option XL3Packet)} {own : List Command}
    (chunks : Chunks needToSwap last number left packets own) (inside : left ≤ diff) (counted : Command → Bool)
    (covers : ∀ ack : Command, number ≤ ack.packetNum.toNat → ack.packetNum.toNat < last → counted ack)
    {x : XL3} {later : List (Option XL3Packet)} (numbered : x.fCommandNum.val = number)
    (arrive : x.packets = packets ++ later) (queue : x.acks.filter counted = own) (packet : XL3Packet) :
    let r := readLoop needToSwap numberOf slotNum diff left packet x
    r.outcome = .ok () ∧ r.stores = row (diff-left) (own.map Command.data) ∧ Honest r.chunks ∧
      r.xl3.fCommandNum.val = last ∧ r.xl3.packets = later := by
  -- Over the chunks: what has been stored lies in front of what is left.
  induction chunks generalizing x packet with
  | done =>
    have ended : readLoop needToSwap numberOf slotNum diff (0 : Nat) packet x = ⟨.ok (), x, [], []⟩ := by
      rw [readLoop, if_pos (by simp)]
    rw [ended]
    exact ⟨rfl, rfl, fun chunk mem => absurd mem List.not_mem_nil, numbered, arrive⟩
  | @chunk number left queued taken reply packets acks own answer queues more few acked rest ih =>
    have counts := (chunksCount rest).1
    have asked := requestBound left
    rw [List.append_assoc] at arrive
    obtain ⟨after, sent, counter, remaining, kept⟩ := sentAnswered needToSwap
      (requestPacket needToSwap slotNum (requestOf left) packet) (numbered ▸ answer) arrive
    have found := finds needToSwap x _ reply after sent (by omega)
    rw [numbered] at found
    have read := chunkRead small inside found (by omega) queues more few acked counted
      (fun ack same => covers ack (by omega) (by omega)) (kept ▸ queue)
    have pass : readPass needToSwap numberOf slotNum diff left packet x =
        takeChunk needToSwap numberOf diff left reply after := by
      simp only [readPass, sent]
    simp only at read
    rw [← pass] at read
    obtain ⟨ok, stores, honest, number', packets', acks'⟩ := read
    obtain ⟨ended, behind, others, counted', left'⟩ := ih (by omega)
      (fun ack low high => covers ack (by omega) high)
      (x := (readPass needToSwap numberOf slotNum diff left packet x).xl3) (by rw [number', counter]; omega)
      (packets'.trans remaining) acks' (readPass needToSwap numberOf slotNum diff left packet x).packet
    have again : (left : Int) ≠ 0 := by omega
    rw [loopGoesOn again ok]
    refine ⟨ended, ?_, fun chunk mem => ?_, counted', left'⟩
    · have length : (acks.map Command.data).length = queued := by
        rw [List.length_map, numberedLength acked.numbered]
      have place : diff - left + queued = diff - (left-queued) := by omega
      rw [stores, behind, List.map_append, rowAppend, length, place]
    · rcases List.mem_append.mp mem with mem | mem
      · exact honest chunk mem
      · exact others chunk mem

def promptReply (packetType : UInt8) (number : Nat) (word : BitVec 32) : XL3Packet :=
  ⟨⟨UInt16.ofNat number,packetType⟩, fun _ => word⟩

def promptAcks (number queued : Nat) : List Command :=
  (List.range' 0 queued).map fun k => ⟨BitVec.ofNat 32 k, BitVec.ofNat 16 number, 0, 0, 0⟩

theorem answeredPrompt (packetType : UInt8) {number : Nat} (low : number < 65536) (word : BitVec 32) :
    Answered packetType number [some (promptReply packetType number word)] (promptReply packetType number word) := by
  intro later
  have same : num (promptReply packetType number word).header.packetNum = number := by
    simp only [promptReply, num, UInt16.toNat_ofNat']
    omega
  have fine : ¬ XL3Model.tooHigh number (promptReply packetType number word).header := by
    rw [XL3Model.tooHigh, same]
    omega
  have own : ¬ ((promptReply packetType number word).header.packetType ≠ packetType ∨
      num (promptReply packetType number word).header.packetNum ≠ number) := by
    rw [same]
    simp [promptReply]
  rw [List.singleton_append, awaitResponse, if_neg (by decide), if_neg fine, if_neg own]

theorem ackedPrompt (number queued : Nat) (low : number < 65536) (few : queued < 4294967296) :
    ChunkAcks number queued (promptAcks number queued) := by
  refine ⟨fun ack mem => ?_, ?_, fun ack mem => ?_⟩
  · obtain ⟨k, -, rfl⟩ := List.mem_map.mp mem
    rw [BitVec.toNat_ofNat]
    omega
  · rw [NumberedFrom, promptAcks, List.map_map]
    refine (List.map_congr_left fun k mem => ?_).trans (List.map_id _)
    have below := (List.mem_range'_1.mp mem).2
    simp only [Function.comp_apply, BitVec.toNat_ofNat, id]
    omega
  · obtain ⟨k, -, rfl⟩ := List.mem_map.mp mem
    rfl

structure Replies (needToSwap : Bool) (x : XL3) (limit : Nat) (checkLimit : Bool) (level : BitVec 32)
    (own : List Command) (last : Nat) : Prop where
  arrive : ∃ first reply packets deselected answer later,
    x.packets = first ++ (packets ++ (deselected ++ later)) ∧
    Answered fastCmdId x.fCommandNum.val first reply ∧
    swapLong needToSwap (reply.payload ⟨3,by decide⟩) = level ∧
    Chunks needToSwap last (x.fCommandNum.val+1) (limited limit checkLimit (wholeBundles level)) packets own ∧
    Answered deselectFECsId last deselected answer
  whole : last < 65536
  queue : (x.acks.filter fun ack => x.fCommandNum.val < ack.packetNum.toNat ∧ ack.packetNum.toNat < last) = own

def afterRW (needToSwap : Bool) (x : XL3) (packet : XL3Packet) (slotNum : BitVec 32) : XL3 :=
  (RW needToSwap x packet (fifoAddress slotNum) 0).2

structure WholeRead (needToSwap : Bool) (x : XL3) (packet : XL3Packet) (slotNum : BitVec 32) (limit : Nat)
    (checkLimit : Bool) (diff : Nat) (own : List Command) : Prop where
  returned : (readOutBundles needToSwap x packet slotNum limit checkLimit).outcome = .ok (diff/3)
  count : own.length = diff
  stores : (readOutBundles needToSwap x packet slotNum limit checkLimit).stores = row 0 (own.map Command.data)
  held : ∀ pmtBuffer k word, (own.map Command.data)[k]? = some word →
    written pmtBuffer (readOutBundles needToSwap x packet slotNum limit checkLimit).stores k = word
  pedestal : ∀ stack, let r := pedestalLoop needToSwap slotNum diff stack (afterRW needToSwap x packet slotNum)
    r.outcome = .ok () ∧ r.stores = row 0 (own.map Command.data)

theorem limitedBound (limit : Nat) (checkLimit : Bool) (diff : Nat) : limited limit checkLimit diff ≤ diff := by
  unfold limited
  split
  · split
    · omega
    · exact Nat.le_refl _
  · exact Nat.le_refl _

theorem wholeSmall (level : BitVec 32) : wholeBundles level < 1048576 := by
  have low : (level &&& 0xFFFFF).toNat ≤ 0xFFFFF := by
    rw [BitVec.toNat_and]
    exact Nat.and_le_right
  unfold wholeBundles
  simp only
  omega

theorem repliesRead {needToSwap : Bool} {x : XL3} {limit : Nat} {checkLimit : Bool} {level : BitVec 32}
    {own : List Command} {last : Nat} (replies : Replies needToSwap x limit checkLimit level own last)
    (packet : XL3Packet) (slotNum : BitVec 32) :
    ∃ flags after, RW needToSwap x packet (fifoAddress slotNum) 0 = (.ok (level,flags),after) ∧
      own.length = limited limit checkLimit (wholeBundles level) ∧
      ∀ numberOf, FindsNumber numberOf → ∀ stack,
        let diff := limited limit checkLimit (wholeBundles level)
        let r := readLoop needToSwap numberOf slotNum diff diff stack after
        r.outcome = .ok () ∧ r.stores = row 0 (own.map Command.data) ∧ Honest r.chunks ∧
          ∃ final, deselectFECs needToSwap r.xl3 packet = (.ok (),final) := by
  obtain ⟨⟨first, reply, packets, deselected, answer, later, arrive, answered, rfl, chunks, deselect⟩, whole, queue⟩ :=
    replies
  have counts := chunksCount chunks
  have small := wholeSmall (swapLong needToSwap (reply.payload ⟨3,by decide⟩))
  have bound := limitedBound limit checkLimit (wholeBundles (swapLong needToSwap (reply.payload ⟨3,by decide⟩)))
  obtain ⟨after, sent, counter, remaining, kept⟩ := sentAnswered needToSwap
    (setWord ⟨3,by decide⟩ (swapLong needToSwap 0) (setWord ⟨2,by decide⟩
      (swapLong needToSwap (fifoAddress slotNum)) (withType fastCmdId packet))) answered arrive
  refine ⟨_, after, by simp only [RW, sent]; rfl, counts.2, fun numberOf finds stack => ?_⟩
  have read := chunksRead finds slotNum (by omega) whole chunks (Nat.le_refl _)
    (fun ack => x.fCommandNum.val < ack.packetNum.toNat ∧ ack.packetNum.toNat < last)
    (fun ack low high => by simp only [decide_eq_true_eq]; omega) (by rw [counter]; omega) remaining (kept ▸ queue) stack
  simp only at read ⊢
  obtain ⟨ended, stores, honest, number, rest⟩ := read
  obtain ⟨final, sent', -⟩ := sentAnswered needToSwap (withType deselectFECsId packet) (number.symm ▸ deselect) rest
  refine ⟨ended, by rw [stores, Nat.sub_self], honest, final, ?_⟩
  simp only [deselectFECs, sent']

theorem readWhole {needToSwap : Bool} {x : XL3} {limit : Nat} {checkLimit : Bool} {level : BitVec 32}
    {own : List Command} {last : Nat} (replies : Replies needToSwap x limit checkLimit level own last)
    (packet : XL3Packet) (slotNum : BitVec 32) :
    WholeRead needToSwap x packet slotNum limit checkLimit (limited limit checkLimit (wholeBundles level)) own := by
  obtain ⟨flags, after, level', count, loops⟩ := repliesRead replies packet slotNum
  obtain ⟨ended, stores, -, final, deselected⟩ := loops lastNumber lastFinds packet
  have whole : (readOutBundles needToSwap x packet slotNum limit checkLimit).outcome =
      .ok (limited limit checkLimit (wholeBundles level)/3) ∧
      (readOutBundles needToSwap x packet slotNum limit checkLimit).stores = row 0 (own.map Command.data) := by
    simp only [readOutBundles, level', ended, deselected, stores, true_and]
  refine ⟨whole.1, count, whole.2, fun pmtBuffer k word found => ?_, fun stack => ?_⟩
  · rw [whole.2, ← Nat.zero_add k]
    exact rowWritten pmtBuffer 0 found
  · rw [afterRW, level']
    obtain ⟨ended', stores', -⟩ := loops replyNumber replyFinds stack
    exact ⟨ended',stores'⟩

theorem chunkPrompt (left : Nat) {last number queued : Nat} {packets : List (Option XL3Packet)} {acks own : List Command}
    (low : number < 65536) (more : 1 ≤ queued) (few : queued ≤ requestOf left)
    (acked : ChunkAcks number queued acks) (rest : Chunks false last (number+1) (left-queued) packets own) :
    Chunks false last number left
      ([some (promptReply readPedestalsId number (BitVec.ofNat 32 queued))] ++ packets) (acks ++ own) := by
  have short := requestShort left
  have queues : (swapLong false ((promptReply readPedestalsId number (BitVec.ofNat 32 queued)).payload
      ⟨0,by decide⟩)).toNat = queued := by
    change (BitVec.ofNat 32 queued).toNat = _
    rw [BitVec.toNat_ofNat]
    omega
  exact .chunk (answeredPrompt readPedestalsId low _) queues more few acked rest

def interleaved : XL3 :=
  ⟨⟨0,by decide⟩, [some (promptReply fastCmdId 0 3), some (promptReply readPedestalsId 1 2),
      some (promptReply readPedestalsId 2 1), some (promptReply deselectFECsId 3 0)],
    [⟨0,1,0,0,7⟩, ⟨5,9,1,0,0⟩, ⟨1,1,0,0,8⟩, ⟨0,2,0,0,9⟩], []⟩

theorem interleavedReplies :
    Replies false interleaved 1 true 3 [⟨0,1,0,0,7⟩, ⟨1,1,0,0,8⟩, ⟨0,2,0,0,9⟩] 3 := by
  have diff : limited 1 true (wholeBundles 3) = 3 := by decide
  have first : ChunkAcks 1 2 [⟨0,1,0,0,7⟩, ⟨1,1,0,0,8⟩] := ⟨by decide, rfl, by unfold Unflagged; decide⟩
  have second : ChunkAcks 2 1 [⟨0,2,0,0,9⟩] := ⟨by decide, rfl, by unfold Unflagged; decide⟩
  have chunks := chunkPrompt 3 (by decide) (by decide) (by decide) first
    (chunkPrompt _ (by decide) (by decide) (by decide) second .done)
  refine ⟨⟨_, _, _, _, _, [], rfl, answeredPrompt fastCmdId (by decide) 3, rfl, diff.symm ▸ chunks,
    answeredPrompt deselectFECsId (by decide) 0⟩, by decide, by decide⟩

theorem interleavedWhole :
    WholeRead false interleaved (promptReply 0 0 0) 0 1 true (limited 1 true (wholeBundles 3))
      [⟨0,1,0,0,7⟩, ⟨1,1,0,0,8⟩, ⟨0,2,0,0,9⟩] := readWhole interleavedReplies (promptReply 0 0 0) 0

def LimitKept (level : BitVec 32) (limit : Nat) (checkLimit : Bool) : Prop :=
  ∀ needToSwap x packet slotNum flags,
    (RW needToSwap x packet (fifoAddress slotNum) 0).1 = .ok (level,flags) →
    let r := readOutBundles needToSwap x packet slotNum limit checkLimit
    Honest r.chunks → (∀ store ∈ r.stores, store.place < 3*limit) ∧ ∀ count, r.outcome = .ok count → count ≤ limit

theorem chunksPrompt (left number : Nat) (low : number + (left+58999)/59000 < 65536) :
    ∃ last packets own, last ≤ number + (left+58999)/59000 ∧ Chunks false last number left packets own ∧
      ∀ ack ∈ own, number ≤ ack.packetNum.toNat ∧ ack.packetNum.toNat < last := by
  induction left using Nat.strong_induction_on generalizing number with
  | _ left ih =>
  by_cases done : left = 0
  · subst done
    exact ⟨number, [], [], by omega, .done, fun ack mem => absurd mem List.not_mem_nil⟩
  obtain ⟨last, packets, own, bound, chunks, between⟩ := ih (left - min left 59000) (by omega) (number+1) (by omega)
  have counts := (chunksCount chunks).1
  have few : ((min left 59000 : Nat) : Int) ≤ requestOf left := by
    unfold requestOf maxFecCommands
    split
    · omega
    · omega
  have acked := ackedPrompt number (min left 59000) (by omega) (by omega)
  refine ⟨last, _, _, by omega, chunkPrompt left (by omega) (by omega) few acked chunks, fun ack mem => ?_⟩
  rcases List.mem_append.mp mem with mem | mem
  · have same := acked.own ack mem
    omega
  · have later := between ack mem
    omega

theorem overRead {level : BitVec 32} {limit : Nat} (above : 3*limit < wholeBundles level) :
    ¬ LimitKept level limit false := by
  intro kept
  have small := wholeSmall level
  obtain ⟨last, packets, own, bound, chunks, between⟩ := chunksPrompt (wholeBundles level) 1 (by omega)
  have replies : Replies false ⟨0, some (promptReply fastCmdId 0 level)::packets ++
      [some (promptReply deselectFECsId last 0)], own, []⟩ limit false level own last := by
    refine ⟨⟨_, _, packets, _, _, [], ?_, answeredPrompt fastCmdId (Fin.isLt _) level, rfl, chunks,
      answeredPrompt deselectFECsId (by omega) 0⟩, by omega, ?_⟩
    · simp
    · rw [List.filter_eq_self]
      intro ack mem
      have := between ack mem
      simp only [decide_eq_true_eq]
      omega
  obtain ⟨flags, after, read, -, loops⟩ := repliesRead replies (promptReply 0 0 0) 0
  obtain ⟨ended, -, honest, final, deselected⟩ := loops lastNumber lastFinds (promptReply 0 0 0)
  have kept := kept false _ (promptReply 0 0 0) 0 flags (congrArg Prod.fst read)
  simp only [readOutBundles, read, ended, deselected] at kept
  have few := (kept honest).2 _ rfl
  have whole : limited limit false (wholeBundles level) = wholeBundles level := rfl
  rw [whole] at few
  have thirds : wholeBundles level % 3 = 0 := by
    unfold wholeBundles
    simp only
    omega
  omega

theorem limitedBelow {limit : Nat} {checkLimit : Bool} {diff : Nat} (within : checkLimit = true ∨ diff ≤ 3*limit) :
    limited limit checkLimit diff ≤ 3*limit := by
  unfold limited
  split
  · split
    · omega
    · omega
  · rename_i off
    exact within.resolve_left off

theorem bundlesRead {needToSwap : Bool} {x after : XL3} {packet : XL3Packet} {slotNum level : BitVec 32} {flags : Nat}
    (read : RW needToSwap x packet (fifoAddress slotNum) 0 = (.ok (level,flags),after)) (limit : Nat)
    (checkLimit : Bool) :
    let diff := limited limit checkLimit (wholeBundles level)
    let loop := readLoop needToSwap lastNumber slotNum diff diff packet after
    let r := readOutBundles needToSwap x packet slotNum limit checkLimit
    r.stores = loop.stores ∧ r.chunks = loop.chunks ∧ ∀ count, r.outcome = .ok count → count = diff/3 := by
  simp only [readOutBundles, read]
  split
  · exact ⟨rfl, rfl, fun count ok => by cases ok⟩
  · split
    · exact ⟨rfl, rfl, fun count ok => by cases ok⟩
    · exact ⟨rfl, rfl, fun count ok => by cases ok; rfl⟩

/- The limit is kept where it is checked or where no more is in the FIFO. -/
theorem limitKept (level : BitVec 32) (limit : Nat) (checkLimit : Bool) :
    LimitKept level limit checkLimit ↔ checkLimit = true ∨ wholeBundles level ≤ 3*limit := by
  constructor
  · intro kept
    by_contra neither
    obtain ⟨off, above⟩ := not_or.mp neither
    rw [Bool.not_eq_true] at off
    subst off
    exact overRead (Nat.lt_of_not_le above) kept
  · intro within needToSwap x packet slotNum flags level'
    have small := wholeSmall level
    have bound := limitedBound limit checkLimit (wholeBundles level)
    have below := limitedBelow within
    obtain ⟨after, read⟩ : ∃ after, RW needToSwap x packet (fifoAddress slotNum) 0 = (.ok (level,flags),after) :=
      ⟨_, Prod.ext level' rfl⟩
    obtain ⟨stores, chunks, count⟩ := bundlesRead read limit checkLimit
    intro r honest
    rw [chunks] at honest
    have places := loopPlaces (by omega) (Int.natCast_nonneg _) (Int.le_refl _) honest
    refine ⟨fun store mem => ?_, fun n ok => ?_⟩
    · rw [stores] at mem
      exact Nat.lt_of_lt_of_le (places store mem) below
    · have third := count n ok
      omega

/- Six longwords are in the FIFO where the caller has room for one bundle. -/
theorem limitExceeded : ¬ LimitKept 6 1 false := overRead (by decide)

end PennDaq.ReadOut
