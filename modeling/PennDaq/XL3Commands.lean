import PennDaq.Lib.Stores
import PennDaq.XL3Packets

/-! Commands to an XL3 and what is taken for their answers: `XL3Model::SendCommand` and
`GetMultiFCResults` over the packets and the acks that the link hands out. -/
namespace PennDaq.XL3Commands
open Lib.Stores
open FECSettings (swapShort)
open XL3Packets
open XL3Model (Thrown tooHigh num maxTries)

/- The model of an XL3 with its link. The packets are those that `GetNextPacket` returns
in turn, or its time-outs, and behind the last one it times out; so does
`GetNextCmdAck` behind the last ack. What has been sent is newest first. -/
structure XL3 where
  fCommandNum : Fin 65536
  packets : List (Option XL3Packet)
  acks : List Command
  sent : List XL3Packet

inductive Failure where
  | sendCommand (what : Thrown)
  | ackTimedOut
  | wrongPacketNumber
  | wrongCommandNumber
  deriving DecidableEq, Repr

def Failure.text : Failure → String
  | .sendCommand what => what.text
  | .ackTimedOut => "GetMultiFCResults: GetNextCmdAck timed out"
  | .wrongPacketNumber => "GetMultiFCResults: Got wrong packet number"
  | .wrongCommandNumber => "GetMultiFCResults: Got wrong command number"

def withNum (packetNum : UInt16) (packet : XL3Packet) : XL3Packet :=
  { packet with header := { packet.header with packetNum := packetNum } }

/- `SwapShortBlock(&packet->header.packetNum,1)`, which stays in the caller's packet. -/
def onWire (needToSwap : Bool) (packet : XL3Packet) : XL3Packet :=
  withNum ⟨swapShort needToSwap packet.header.packetNum.toBitVec⟩ packet

def awaitResponse (type : UInt8) (recvCommandNum : Int) :
    Nat → List (Option XL3Packet) → Except Failure XL3Packet × List (Option XL3Packet)
  | _, [] => (.error (.sendCommand .timedOut), [])
  | _, none::later => (.error (.sendCommand .timedOut), later)
  | numPackets, some packet::later =>
    if numPackets + 1 > maxTries then (.error (.sendCommand .tooMany), later)
    else if tooHigh recvCommandNum packet.header then (.error (.sendCommand .tooHigh), later)
    else if packet.header.packetType ≠ type ∨ num packet.header.packetNum ≠ recvCommandNum then
      awaitResponse type recvCommandNum (numPackets+1) later
    else (.ok packet, later)

/- The packet that comes back is the caller's, with the reply copied over it. -/
def sendCommand (needToSwap : Bool) (x : XL3) (packet : XL3Packet) (withResponse : Bool) :
    Except Failure XL3Packet × XL3 :=
  let packet := withNum (UInt16.ofNat x.fCommandNum) packet
  let recvCommandNum : Int := (x.fCommandNum.val : Int).tmod 65536
  let packet := onWire needToSwap packet
  let x : XL3 := { x with
    fCommandNum := ⟨(x.fCommandNum.val + 1) % 65536, Nat.mod_lt _ (by decide)⟩
    sent := packet::x.sent }
  if withResponse then
    let (outcome,later) := awaitResponse packet.header.packetType recvCommandNum 0 x.packets
    (outcome, { x with packets := later })
  else (.ok packet, x)

structure Fetched where
  outcome : Except Failure Int
  busErrors : Nat
  stores : List (Store (BitVec 32))
  acks : List Command

/- The loop over the acks. Nothing ever sets `started`, and nothing reads the sum of
the flags. -/
def fetchLoop (started : Bool) (numCmds packetNum : Int) : Nat → Nat → List Command → Fetched
  | cmdNum, busErrors, [] =>
    if numCmds > cmdNum then ⟨.error .ackTimedOut, busErrors, [], []⟩ else ⟨.ok 0, busErrors, [], []⟩
  | cmdNum, busErrors, ack::later =>
    if numCmds > cmdNum then
      if (ack.packetNum.toNat : Int) ≠ packetNum then
        if started then ⟨.error .wrongPacketNumber, busErrors, [], later⟩
        else fetchLoop started numCmds packetNum cmdNum busErrors later
      else if ack.cmdNum.toNat ≠ cmdNum then ⟨.error .wrongCommandNumber, busErrors, [], later⟩
      else
        let rest := fetchLoop started numCmds packetNum (cmdNum+1) (busErrors + ack.flags.toNat) later
        { rest with stores := ⟨cmdNum,ack.data⟩::rest.stores }
    else ⟨.ok 0, busErrors, [], ack::later⟩

def getMultiFCResults (acks : List Command) (numCmds packetNum : Int) : Fetched :=
  fetchLoop false numCmds (XL3Model.looksFor packetNum) 0 0 acks

theorem awaitTakes (type : UInt8) (recvCommandNum : Int) (numPackets : Nat)
    (few : numPackets ≤ maxTries) (packets : List (Option XL3Packet)) :
    ∃ taken, packets = taken ++ (awaitResponse type recvCommandNum numPackets packets).2 ∧
      numPackets + taken.length ≤ maxTries + 1 ∧
      ∀ reply, (awaitResponse type recvCommandNum numPackets packets).1 = .ok reply →
        some reply ∈ taken ∧ reply.header.packetType = type ∧ num reply.header.packetNum = recvCommandNum := by
  induction packets generalizing numPackets with
  | nil => exact ⟨[], rfl, by simp; omega, fun reply ok => by cases ok⟩
  | cons packet later ih =>
    cases packet with
    | none => exact ⟨[none], rfl, by simp; omega, fun reply ok => by cases ok⟩
    | some packet =>
      have one : numPackets + [some packet].length ≤ maxTries + 1 := by simpa using few
      unfold awaitResponse
      split
      · exact ⟨[some packet], rfl, one, fun reply ok => by cases ok⟩
      split
      · exact ⟨[some packet], rfl, one, fun reply ok => by cases ok⟩
      split
      · rename_i more _ _
        obtain ⟨taken, split', most, own⟩ := ih (numPackets+1) (by omega)
        refine ⟨some packet::taken, by rw [List.cons_append, ← split'], by simp; omega, ?_⟩
        intro reply ok
        obtain ⟨mem, same⟩ := own reply ok
        exact ⟨List.mem_cons_of_mem _ mem, same⟩
      · rename_i wanted
        refine ⟨[some packet], rfl, one, fun reply ok => ?_⟩
        cases ok
        obtain ⟨kind, number⟩ := not_or.mp wanted
        exact ⟨List.mem_cons_self, not_not.mp kind, not_not.mp number⟩

structure OneCommand (x : XL3) (packet : XL3Packet) (withResponse : Bool)
    (outcome : Except Failure XL3Packet) (after : XL3) : Prop where
  counter : after.fCommandNum.val = (x.fCommandNum.val + 1) % 65536
  taken : ∃ taken, x.packets = taken ++ after.packets ∧ taken.length ≤ 101 ∧
    (withResponse = false → taken = []) ∧
    (withResponse = true → ∀ reply, outcome = .ok reply → some reply ∈ taken ∧
      reply.header.packetType = packet.header.packetType ∧
      num reply.header.packetNum = x.fCommandNum.val)

theorem oneCommand (needToSwap : Bool) (x : XL3) (packet : XL3Packet) (withResponse : Bool) :
    OneCommand x packet withResponse (sendCommand needToSwap x packet withResponse).1
      (sendCommand needToSwap x packet withResponse).2 := by
  have number : (x.fCommandNum.val : Int).tmod 65536 = x.fCommandNum.val :=
    XL3Model.looksForSmall x.fCommandNum.isLt
  cases withResponse with
  | false => exact ⟨rfl, [], rfl, by decide, fun _ => rfl, fun response => by contradiction⟩
  | true =>
    obtain ⟨taken, split, most, own⟩ := awaitTakes packet.header.packetType x.fCommandNum.val
      0 (by decide) x.packets
    unfold sendCommand
    simp only [number, if_true]
    refine ⟨rfl, taken, split, ?_, fun absent => by contradiction, fun _ => own⟩
    rw [Nat.zero_add] at most
    exact most

def headersOf : List (Option XL3Packet) → List XL3Model.Header
  | some packet::later => packet.header::headersOf later
  | _ => []

/- The packets that are taken are those of `XL3Model.awaitReply`. -/
theorem awaitHeaders (type : UInt8) (recvCommandNum : Int) (numPackets : Nat)
    (packets : List (Option XL3Packet)) :
    match XL3Model.awaitReply type recvCommandNum numPackets (headersOf packets) with
    | .accepted _ => ∃ reply, (awaitResponse type recvCommandNum numPackets packets).1 = .ok reply
    | .threw _ what => (awaitResponse type recvCommandNum numPackets packets).1 = .error (.sendCommand what) := by
  induction packets generalizing numPackets with
  | nil => rfl
  | cons packet later ih =>
    cases packet with
    | none => rfl
    | some packet =>
      unfold headersOf XL3Model.awaitReply awaitResponse
      by_cases many : numPackets + 1 > maxTries
      · rw [if_pos many, if_pos many]
      rw [if_neg many, if_neg many]
      by_cases high : tooHigh recvCommandNum packet.header
      · rw [if_pos high, if_pos high]
      rw [if_neg high, if_neg high]
      by_cases other : packet.header.packetType ≠ type ∨ num packet.header.packetNum ≠ recvCommandNum
      · rw [if_pos other, if_pos other]
        exact ih (numPackets+1)
      · rw [if_neg other, if_neg other]
        exact ⟨packet,rfl⟩

def ownAcks (acks : List Command) (packetNum : BitVec 16) : List Command :=
  acks.filter fun ack => ack.packetNum = packetNum

def firstAcks (acks : List Command) (packetNum : BitVec 16) (numCmds : Int) : List Command :=
  (ownAcks acks packetNum).take numCmds.toNat

def NumberedFrom (first count : Nat) (own : List Command) : Prop :=
  own.map (fun ack => ack.cmdNum.toNat) = List.range' first count

def Unflagged (own : List Command) : Prop := ∀ ack ∈ own, ack.flags = 0

def ResultsExact (acks : List Command) (packetNum : BitVec 16) (numCmds : Int) : Prop :=
  let fetched := getMultiFCResults acks numCmds packetNum.toNat
  let own := firstAcks acks packetNum numCmds
  (fetched.outcome = .ok 0 ↔ NumberedFrom 0 numCmds.toNat own ∧ Unflagged own) ∧
    (fetched.outcome = .ok 0 → ∀ memory k ack, own[k]? = some ack →
      written memory fetched.stores k = ack.data)

theorem numberedCons {first count : Nat} {ack : Command} {own : List Command} :
    NumberedFrom first (count+1) (ack::own) ↔ ack.cmdNum.toNat = first ∧ NumberedFrom (first+1) count own := by
  unfold NumberedFrom
  rw [List.map_cons, List.range'_succ, List.cons.injEq]

theorem numberedLength {first count : Nat} {own : List Command} (numbered : NumberedFrom first count own) :
    own.length = count := by
  have lengths := congrArg List.length numbered
  rw [List.length_map, List.length_range'] at lengths
  exact lengths

theorem fetchDone (started : Bool) {numCmds : Int} (packetNum : Int) {cmdNum : Nat} (busErrors : Nat)
    (acks : List Command) (all : numCmds ≤ cmdNum) :
    fetchLoop started numCmds packetNum cmdNum busErrors acks = ⟨.ok 0, busErrors, [], acks⟩ := by
  cases acks with
  | nil => rw [fetchLoop, if_neg (by omega)]
  | cons ack later => rw [fetchLoop, if_neg (by omega)]

theorem fetchTakes (numCmds : Int) {packetNum : BitVec 16} (counted : Command → Bool)
    (covers : ∀ ack : Command, ack.packetNum = packetNum → counted ack) {cmdNum : Nat} (busErrors : Nat)
    {acks own rest : List Command} (queue : acks.filter counted = own ++ rest)
    (mine : ∀ ack ∈ own, ack.packetNum = packetNum)
    (numbered : NumberedFrom cmdNum (numCmds - cmdNum).toNat own) :
    ∃ after left, fetchLoop false numCmds packetNum.toNat cmdNum busErrors acks =
        ⟨.ok 0, after, row cmdNum (own.map Command.data), left⟩ ∧ left.filter counted = rest := by
  induction acks generalizing cmdNum busErrors own with
  | nil =>
    obtain ⟨rfl, rfl⟩ := List.append_eq_nil_iff.mp queue.symm
    have count := numberedLength numbered
    rw [List.length_nil] at count
    exact ⟨busErrors, [], fetchDone _ _ _ _ (by omega), rfl⟩
  | cons ack later ih =>
    cases own with
    | nil =>
      have count := numberedLength numbered
      rw [List.length_nil] at count
      exact ⟨busErrors, ack::later, fetchDone _ _ _ _ (by omega), queue⟩
    | cons first own =>
      have count := numberedLength numbered
      rw [List.length_cons] at count
      have left : numCmds > cmdNum := by omega
      have next : (numCmds - cmdNum).toNat = (numCmds - (cmdNum+1 : Nat)).toNat + 1 := by omega
      rw [next, numberedCons] at numbered
      -- An ack of another number is taken only if it is not counted.
      by_cases same : ack.packetNum = packetNum
      · rw [List.filter_cons, if_pos (covers ack same), List.cons_append, List.cons.injEq] at queue
        obtain ⟨rfl, queue⟩ := queue
        obtain ⟨after, left', run, remain⟩ := ih (busErrors + ack.flags.toNat) queue
          (fun a mem => mine a (List.mem_cons_of_mem _ mem)) numbered.2
        refine ⟨after, left', ?_, remain⟩
        rw [fetchLoop, if_pos left, if_neg (by simp [same]), if_neg (by simp [numbered.1])]
        simp only [run]
        rfl
      · have other : (ack.packetNum.toNat : Int) ≠ packetNum.toNat := by
          intro equal
          exact same (BitVec.eq_of_toNat_eq (by exact_mod_cast equal))
        cases seen : counted ack with
        | true =>
          rw [List.filter_cons, if_pos seen, List.cons_append, List.cons.injEq] at queue
          exact absurd (queue.1 ▸ mine first List.mem_cons_self) same
        | false =>
          rw [List.filter_cons, if_neg (by simp [seen])] at queue
          obtain ⟨after, left', run, remain⟩ := ih busErrors queue mine (next ▸ numberedCons.mpr numbered)
          exact ⟨after, left', by rw [fetchLoop, if_pos left, if_pos other, if_neg (by simp), run], remain⟩

theorem fetchedNumbered {numCmds : Int} {packetNum : BitVec 16} {cmdNum busErrors : Nat}
    {acks : List Command}
    (ok : (fetchLoop false numCmds packetNum.toNat cmdNum busErrors acks).outcome = .ok 0) :
    NumberedFrom cmdNum (numCmds - cmdNum).toNat
      ((ownAcks acks packetNum).take (numCmds - cmdNum).toNat) := by
  induction acks generalizing cmdNum busErrors with
  | nil =>
    rw [fetchLoop] at ok
    split at ok
    · cases ok
    · have none' : (numCmds - cmdNum).toNat = 0 := by omega
      rw [none']
      rfl
  | cons ack later ih =>
    by_cases left : numCmds > cmdNum
    swap
    · have none' : (numCmds - cmdNum).toNat = 0 := by omega
      rw [none']
      rfl
    rw [fetchLoop, if_pos left] at ok
    by_cases same : ack.packetNum = packetNum
    · rw [if_neg (by simp [same])] at ok
      split at ok
      · cases ok
      · rename_i number
        have next : (numCmds - cmdNum).toNat = (numCmds - (cmdNum+1 : Nat)).toNat + 1 := by omega
        rw [next, ownAcks, List.filter_cons, if_pos (by simpa using same), List.take_succ_cons]
        exact numberedCons.mpr ⟨not_not.mp number, ih ok⟩
    · have other : (ack.packetNum.toNat : Int) ≠ packetNum.toNat := by
        intro equal
        exact same (BitVec.eq_of_toNat_eq (by exact_mod_cast equal))
      rw [if_pos other, if_neg (by simp)] at ok
      rw [ownAcks, List.filter_cons, if_neg (by simpa using same)]
      exact ih ok

theorem fetchPlaces {started : Bool} {numCmds packetNum : Int} {cmdNum busErrors : Nat} {acks : List Command}
    {store : Store (BitVec 32)}
    (mem : store ∈ (fetchLoop started numCmds packetNum cmdNum busErrors acks).stores) :
    (store.place : Int) < numCmds := by
  induction acks generalizing cmdNum busErrors with
  | nil =>
    rw [fetchLoop] at mem
    split at mem
    · contradiction
    · contradiction
  | cons ack later ih =>
    rw [fetchLoop] at mem
    split at mem
    · rename_i more
      split at mem
      · split at mem
        · contradiction
        · exact ih mem
      split at mem
      · contradiction
      · rcases List.mem_cons.mp mem with rfl | mem
        · exact more
        · exact ih mem
    · contradiction

/- The result is 0 for numbered acks, with flags or without. -/
theorem resultsExact (acks : List Command) (packetNum : BitVec 16) (numCmds : Int) :
    ResultsExact acks packetNum numCmds ↔
      (NumberedFrom 0 numCmds.toNat (firstAcks acks packetNum numCmds) →
        Unflagged (firstAcks acks packetNum numCmds)) := by
  have number : XL3Model.looksFor packetNum.toNat = packetNum.toNat :=
    XL3Model.looksForSmall packetNum.isLt
  have zero : (numCmds - (0 : Nat)).toNat = numCmds.toNat := by simp
  have fetches (numbered : NumberedFrom 0 numCmds.toNat (firstAcks acks packetNum numCmds)) :
      (getMultiFCResults acks numCmds packetNum.toNat).outcome = .ok 0 ∧
      (getMultiFCResults acks numCmds packetNum.toNat).stores =
        row 0 ((firstAcks acks packetNum numCmds).map Command.data) := by
    have queue : ownAcks acks packetNum = firstAcks acks packetNum numCmds ++
        (ownAcks acks packetNum).drop numCmds.toNat := (List.take_append_drop _ _).symm
    obtain ⟨after, left, run, -⟩ := fetchTakes numCmds
      (fun ack => decide (ack.packetNum = packetNum)) (fun ack same => by simpa using same) 0 queue
      (fun ack mem => by simpa using (List.mem_filter.mp (List.mem_of_mem_take mem)).2)
      (zero.symm ▸ numbered)
    rw [getMultiFCResults, number, run]
    exact ⟨rfl,rfl⟩
  have numberedOf (ok : (getMultiFCResults acks numCmds packetNum.toNat).outcome = .ok 0) :
      NumberedFrom 0 numCmds.toNat (firstAcks acks packetNum numCmds) := by
    rw [getMultiFCResults, number] at ok
    have numbered := fetchedNumbered ok
    rw [zero] at numbered
    exact numbered
  constructor
  · rintro ⟨exact', -⟩ numbered
    exact (exact'.mp (fetches numbered).1).2
  · intro clean
    refine ⟨⟨fun ok => ⟨numberedOf ok, clean (numberedOf ok)⟩, fun both => (fetches both.1).1⟩, ?_⟩
    intro ok memory k ack found
    rw [(fetches (numberedOf ok)).2]
    have data : ((firstAcks acks packetNum numCmds).map Command.data)[k]? = some ack.data := by
      rw [List.getElem?_map, found, Option.map_some]
    have held := rowWritten memory 0 data
    rwa [Nat.zero_add] at held

/- One ack with a bus error, and its data is handed out with result 0. -/
theorem flaggedFetched :
    getMultiFCResults [⟨0,7,1,0,5⟩] 1 (7#16).toNat = ⟨.ok 0, 1, [⟨0,5⟩], []⟩ ∧
    ¬ ResultsExact [⟨0,7,1,0,5⟩] 7#16 1 := by
  have fetched : getMultiFCResults [⟨0,7,1,0,5⟩] 1 (7#16).toNat = ⟨.ok 0, 1, [⟨0,5⟩], []⟩ := by rfl
  refine ⟨fetched, ?_⟩
  rintro ⟨exact', -⟩
  rw [fetched] at exact'
  have clean := (exact'.mp rfl).2 ⟨0,7,1,0,5⟩ (by decide)
  exact absurd clean (by decide)

end PennDaq.XL3Commands
