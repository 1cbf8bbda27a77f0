import Mathlib.Data.List.Basic

/-! Command numbers of an XL3: `XL3Model::SendCommand` and the functions that look
for the answers to the command it has just sent. The counter is an `int` and `%`
is C's remainder, which has the sign of its first argument. -/
namespace PennDaq.XL3Model

structure Header where
  packetNum : UInt16
  packetType : UInt8
  deriving DecidableEq, Repr

inductive Thrown where
  | timedOut
  | tooMany
  | tooHigh
  deriving DecidableEq, Repr

def Thrown.text : Thrown → String
  | .timedOut => "SendCommand: GetNextPacket timed out"
  | .tooMany => "SendCommand: Got too many wrong packet types"
  | .tooHigh => "SendCommand: Packet Num too high"

inductive Outcome where
  | accepted (position : Nat)
  | threw (position : Nat) (what : Thrown)
  deriving DecidableEq, Repr

def Outcome.position : Outcome → Nat
  | .accepted position => position
  | .threw position _ => position

def maxTries : Nat := 100

def num (packetNum : UInt16) : Int := packetNum.toNat

def tooHigh (recvCommandNum : Int) (reply : Header) : Prop :=
  num reply.packetNum > recvCommandNum ∧ (65536 - num reply.packetNum) + recvCommandNum < 5000

instance (recvCommandNum : Int) (reply : Header) : Decidable (tooHigh recvCommandNum reply) :=
  inferInstanceAs (Decidable (_ ∧ _))

/- The loop that looks for the response. The replies are those that `GetNextPacket`
returns in turn; behind the last one it times out. -/
def awaitReply (type : UInt8) (recvCommandNum : Int) : Nat → List Header → Outcome
  | numPackets, [] => .threw numPackets .timedOut
  | numPackets, reply::later =>
    if numPackets + 1 > maxTries then .threw numPackets .tooMany
    else if tooHigh recvCommandNum reply then .threw numPackets .tooHigh
    else if reply.packetType ≠ type ∨ num reply.packetNum ≠ recvCommandNum then
      awaitReply type recvCommandNum (numPackets+1) later
    else .accepted numPackets

structure Command where
  packetType : UInt8
  withResponse : Bool
  replies : List Header
  deriving DecidableEq, Repr

structure Sent where
  packetNum : UInt16
  fCommandNum : Int
  outcome : Option Outcome
  deriving DecidableEq, Repr

/- `fCommandNum` has moved on before the response is looked for, so that it does so
for a command that throws, too. -/
def sendCommand (fCommandNum : Int) (command : Command) : Sent where
  packetNum := UInt16.ofInt fCommandNum
  fCommandNum := (fCommandNum+1).tmod 65536
  outcome := if command.withResponse then
    some (awaitReply command.packetType (fCommandNum.tmod 65536) 0 command.replies) else none

/- How far a number lies below the current one, around the wrap. -/
def behind (current : Nat) (packetNum : UInt16) : Nat := (current + 65536 - packetNum.toNat) % 65536

def shifted (k : Nat) (reply : Header) : Header :=
  { reply with packetNum := reply.packetNum + UInt16.ofNat k }

def Own (type : UInt8) (current : Nat) (reply : Header) : Prop :=
  reply.packetType = type ∧ behind current reply.packetNum = 0

def SkipsStale (current numPackets : Nat) (replies : List Header) (outcome : Outcome) : Prop :=
  ∀ i reply, replies[i]? = some reply → numPackets + i < maxTries → numPackets + i ≤ outcome.position →
    (1 ≤ behind current reply.packetNum → behind current reply.packetNum ≤ 5000 →
      numPackets + i < outcome.position) ∧
    (5000 < behind current reply.packetNum → outcome = .threw (numPackets+i) .tooHigh)

/- A reply that the test treats as meant, before and after the shift: it has the
current number, or lies 5000 below it, or lies less than that below it without a
wrap in between. -/
def Unwrapped (current shiftedCurrent : Nat) (reply : Header) : Prop :=
  behind current reply.packetNum ≤ current ∧ behind current reply.packetNum ≤ shiftedCurrent ∧
    behind current reply.packetNum ≤ 5000 ∨
  behind current reply.packetNum = 5000

/- Every reply before the own one and in the first hundred is of that kind. -/
def NoWrap (type : UInt8) (current shiftedCurrent numPackets : Nat) (replies : List Header) : Prop :=
  ∀ i reply, replies[i]? = some reply → numPackets + i < maxTries →
    (∀ j < i, ∀ earlier, replies[j]? = some earlier → ¬ Own type current earlier) →
    Unwrapped current shiftedCurrent reply

theorem shiftedNum (k : Nat) (p : UInt16) : (p + UInt16.ofNat k).toNat = (p.toNat + k) % 65536 := by
  rw [UInt16.toNat_add, UInt16.toNat_ofNat']
  omega

theorem behindShifted {current : Nat} (k : Nat) (low : current < 65536) (p : UInt16) :
    behind ((current+k) % 65536) (p + UInt16.ofNat k) = behind current p := by
  have := p.toNat_lt
  simp only [behind, shiftedNum]
  omega

theorem tooHighBehind {current : Nat} (low : current < 65536) (reply : Header) :
    tooHigh current reply ↔
      current < behind current reply.packetNum ∧ behind current reply.packetNum < 5000 := by
  have := reply.packetNum.toNat_lt
  simp only [tooHigh, behind, num]
  omega

theorem numSame {current : Nat} (low : current < 65536) (p : UInt16) :
    num p = current ↔ behind current p = 0 := by
  have := p.toNat_lt
  simp only [behind, num]
  omega

theorem positionLater (type : UInt8) (recvCommandNum : Int) (numPackets : Nat)
    (replies : List Header) :
    numPackets ≤ (awaitReply type recvCommandNum numPackets replies).position := by
  induction replies generalizing numPackets with
  | nil => exact Nat.le_refl _
  | cons reply later ih =>
    simp only [awaitReply]
    split
    · exact Nat.le_refl _
    split
    · exact Nat.le_refl _
    split
    · exact Nat.le_trans (Nat.le_succ _) (ih _)
    · exact Nat.le_refl _

inductive Judged where
  | skip
  | accept
  | reject
  deriving DecidableEq, Repr

def judge (type : UInt8) (current : Nat) (reply : Header) : Judged :=
  if current < behind current reply.packetNum ∧ behind current reply.packetNum < 5000 then .reject
  else if reply.packetType = type ∧ behind current reply.packetNum = 0 then .accept
  else .skip

theorem awaitJudge {type : UInt8} {current : Nat} (low : current < 65536) {numPackets : Nat}
    (few : numPackets < maxTries) (reply : Header) (later : List Header) :
    awaitReply type current numPackets (reply::later) = match judge type current reply with
      | .skip => awaitReply type current (numPackets+1) later
      | .accept => .accepted numPackets
      | .reject => .threw numPackets .tooHigh := by
  rw [awaitReply, if_neg (by omega), judge]
  simp only [tooHighBehind low, numSame low, ne_eq, ← not_and_or, ite_not]
  split
  · rfl
  split <;> rfl

theorem judgeShifted {current : Nat} (type : UInt8) (low : current < 65536) (k : Nat) (reply : Header) :
    judge type ((current+k) % 65536) (shifted k reply) =
      if (current+k) % 65536 < behind current reply.packetNum ∧ behind current reply.packetNum < 5000
      then .reject
      else if reply.packetType = type ∧ behind current reply.packetNum = 0 then .accept
      else .skip := by
  simp only [judge, shifted, behindShifted k low]

theorem consStale {current numPackets : Nat} {reply : Header} {later : List Header} {outcome : Outcome} :
    SkipsStale current numPackets (reply::later) outcome ↔
      (numPackets < maxTries → numPackets ≤ outcome.position →
        (1 ≤ behind current reply.packetNum → behind current reply.packetNum ≤ 5000 →
          numPackets < outcome.position) ∧
        (5000 < behind current reply.packetNum → outcome = .threw numPackets .tooHigh)) ∧
      SkipsStale current (numPackets+1) later outcome := by
  rw [SkipsStale, ← Nat.and_forall_add_one]
  simp only [List.getElem?_cons_zero, Option.some.injEq, forall_eq', Nat.add_zero,
    List.getElem?_cons_succ, SkipsStale, Nat.add_right_comm numPackets 1, Nat.add_assoc]

theorem consNoWrap {type : UInt8} {current shiftedCurrent numPackets : Nat} {reply : Header}
    {later : List Header} :
    NoWrap type current shiftedCurrent numPackets (reply::later) ↔
      (numPackets < maxTries → Unwrapped current shiftedCurrent reply) ∧
      (¬ Own type current reply → NoWrap type current shiftedCurrent (numPackets+1) later) := by
  have split : ∀ i, (∀ j < i+1, ∀ earlier, (reply::later)[j]? = some earlier → ¬ Own type current earlier) ↔
      ¬ Own type current reply ∧ ∀ j < i, ∀ earlier, later[j]? = some earlier → ¬ Own type current earlier := by
    intro i
    constructor
    · intro all
      refine ⟨all 0 (by omega) reply rfl, fun j less earlier found => ?_⟩
      exact all (j+1) (by omega) earlier found
    · rintro ⟨first, others⟩ j less earlier found
      cases j with
      | zero =>
        obtain rfl : reply = earlier := by simpa using found
        exact first
      | succ j => exact others j (by omega) earlier found
  rw [NoWrap, ← Nat.and_forall_add_one]
  simp only [List.getElem?_cons_zero, Option.some.injEq, forall_eq', Nat.add_zero,
    List.getElem?_cons_succ, split, Nat.not_lt_zero, false_implies, forall_const]
  rw [NoWrap]
  refine and_congr Iff.rfl ⟨fun all other i r found few none => ?_, fun all i r found few both => ?_⟩
  · exact all i r found (by omega) ⟨other,none⟩
  · exact all both.1 i r found (by omega) both.2

theorem skipFar {type : UInt8} {current : Nat} {reply : Header}
    (far : 5000 ≤ behind current reply.packetNum) : judge type current reply = .skip := by
  rw [judge, if_neg (by omega), if_neg (by omega)]

theorem rejectWrapped {type : UInt8} {current : Nat} {reply : Header}
    (wrapped : current < behind current reply.packetNum) (near : behind current reply.packetNum < 5000) :
    judge type current reply = .reject := if_pos ⟨wrapped,near⟩

theorem judgeUnwrapped {type : UInt8} {current : Nat} {reply : Header}
    (fine : behind current reply.packetNum ≤ current ∨ 5000 ≤ behind current reply.packetNum) :
    judge type current reply = if reply.packetType = type ∧ behind current reply.packetNum = 0
      then .accept else .skip := by
  rw [judge, if_neg (by omega)]

theorem wrappedFails {current : Nat} (type : UInt8) (low : current < 65536) (k : Nat) {numPackets : Nat}
    (few : numPackets < maxTries) {reply : Header} {later : List Header}
    (odd : ¬ Unwrapped current ((current+k) % 65536) reply) :
    ¬ (awaitReply type ((current+k) % 65536 : Nat) numPackets ((reply::later).map (shifted k)) =
        awaitReply type current numPackets (reply::later) ∧
      SkipsStale current numPackets (reply::later) (awaitReply type current numPackets (reply::later))) := by
  have low' : (current+k) % 65536 < 65536 := Nat.mod_lt _ (by decide)
  have position := positionLater type current (numPackets+1) later
  rw [List.map_cons, awaitJudge low few, awaitJudge low' few, judgeShifted type low k, consStale]
  simp only [Unwrapped] at odd
  by_cases above : 5000 < behind current reply.packetNum
  · -- a reply from above is skipped
    rw [skipFar (by omega)]
    rintro ⟨-, stale, -⟩
    have rejected := (stale few (by simp only; omega)).2 above
    simp only at rejected
    rw [rejected] at position
    simp only [Outcome.position] at position
    omega
  by_cases wrapped : current < behind current reply.packetNum ∧ behind current reply.packetNum < 5000
  · -- a stale reply from before the wrap is rejected
    rw [rejectWrapped wrapped.1 wrapped.2]
    rintro ⟨-, stale, -⟩
    have skipped := (stale few (Nat.le_refl _)).1 (by omega) (by omega)
    exact absurd skipped (Nat.lt_irrefl _)
  -- it is rejected behind the shift only
  rw [judgeUnwrapped (by omega), if_pos (by omega), if_neg (by omega)]
  rintro ⟨same, -⟩
  simp only at same
  rw [← same] at position
  simp only [Outcome.position] at position
  omega

/- Both runs, from any number of replies on. -/
theorem awaitShifted {current : Nat} (type : UInt8) (low : current < 65536) (k numPackets : Nat)
    (replies : List Header) :
    (awaitReply type ((current+k) % 65536 : Nat) numPackets (replies.map (shifted k)) =
        awaitReply type current numPackets replies ∧
      SkipsStale current numPackets replies (awaitReply type current numPackets replies)) ↔
    NoWrap type current ((current+k) % 65536) numPackets replies := by
  induction replies generalizing numPackets with
  | nil => simp [awaitReply, SkipsStale, NoWrap]
  | cons reply later ih =>
    have low' : (current+k) % 65536 < 65536 := Nat.mod_lt _ (by decide)
    by_cases few : numPackets < maxTries
    swap
    · have many : ∀ c r l, awaitReply type c numPackets (r::l) = .threw numPackets .tooMany :=
        fun c r l => by rw [awaitReply, if_pos (by omega)]
      simp only [List.map_cons, many, SkipsStale, NoWrap, true_and]
      exact ⟨fun _ i r _ less => by omega, fun _ i r _ less => by omega⟩
    -- A reply of another kind sets the two runs apart at once.
    by_cases kind : Unwrapped current ((current+k) % 65536) reply
    swap
    · rw [consNoWrap]
      exact iff_of_false (wrappedFails type low k few kind) fun all => kind (all.1 few)
    have near := kind
    simp only [Unwrapped] at near
    rw [List.map_cons, awaitJudge low few, awaitJudge low' few, judgeShifted type low k, consStale,
      consNoWrap, judgeUnwrapped (by omega), if_neg (by omega)]
    by_cases own : reply.packetType = type ∧ behind current reply.packetNum = 0
    · rw [if_pos own]
      refine ⟨fun _ => ⟨fun _ => kind, fun other => absurd own other⟩, fun _ => ⟨rfl, fun _ _ => ?_, ?_⟩⟩
      · exact ⟨fun low => by omega, fun high => by omega⟩
      · intro i r _ _ reached
        simp only [Outcome.position] at reached
        omega
    · rw [if_neg own]
      simp only
      rw [← ih (numPackets+1)]
      have position := positionLater type current (numPackets+1) later
      constructor
      · rintro ⟨same, -, stale⟩
        exact ⟨fun _ => kind, fun _ => ⟨same,stale⟩⟩
      · rintro ⟨-, rest⟩
        obtain ⟨same, stale⟩ := rest own
        exact ⟨same, fun _ _ => ⟨fun _ _ => by omega, fun high => by omega⟩, stale⟩

def responseTo (fCommandNum : Int) (type : UInt8) (replies : List Header) : Option Outcome :=
  (sendCommand fCommandNum ⟨type,true,replies⟩).outcome

/- The outcome is the same behind a shift of all numbers, with stale replies skipped
and replies from above rejected, exactly when no reply that is come to is from
above or has a wrap below it. -/
theorem shiftInvariant {current : Nat} (type : UInt8) (low : current < 65536) (k : Nat)
    (replies : List Header) :
    (responseTo ((current+k) % 65536 : Nat) type (replies.map (shifted k)) =
        responseTo current type replies ∧
      ∃ outcome, responseTo current type replies = some outcome ∧
        SkipsStale current 0 replies outcome) ↔
    NoWrap type current ((current+k) % 65536) 0 replies := by
  have reduced : ∀ n : Nat, n < 65536 → (n : Int).tmod 65536 = n := by
    intro n less
    rw [Int.tmod_eq_emod_of_nonneg (by omega)]
    omega
  have low' : (current+k) % 65536 < 65536 := Nat.mod_lt _ (by decide)
  simp only [responseTo, sendCommand, if_true, reduced _ low, reduced _ low', Option.some.injEq,
    exists_eq_left']
  exact awaitShifted type low k 0 replies

theorem shiftInvariantStale :
    responseTo ((100+70) % 65536 : Nat) 7 ([⟨99,7⟩,⟨100,7⟩].map (shifted 70)) =
        responseTo (100 : Nat) 7 [⟨99,7⟩,⟨100,7⟩] ∧
      ∃ outcome, responseTo (100 : Nat) 7 [⟨99,7⟩,⟨100,7⟩] = some outcome ∧
        SkipsStale 100 0 [⟨99,7⟩,⟨100,7⟩] outcome := by
  refine (shiftInvariant 7 (by decide) 70 [⟨99,7⟩,⟨100,7⟩]).mpr ?_
  rintro (_ | _ | i) reply found few others
  · obtain rfl : (⟨99,7⟩ : Header) = reply := by simpa using found
    exact .inl (by decide)
  · obtain rfl : (⟨100,7⟩ : Header) = reply := by simpa using found
    exact .inl (by decide)
  · simp at found

/- At command 0 the late reply to command 65535 is rejected; one command later its
shift is skipped. -/
theorem wrapRejected :
    responseTo (0 : Nat) 7 [⟨65535,7⟩,⟨0,7⟩] = some (.threw 0 .tooHigh) ∧
    responseTo ((0+1) % 65536 : Nat) 7 ([⟨65535,7⟩,⟨0,7⟩].map (shifted 1)) = some (.accepted 1) ∧
    responseTo ((0+1) % 65536 : Nat) 7 ([⟨65535,7⟩,⟨0,7⟩].map (shifted 1)) ≠
      responseTo (0 : Nat) 7 [⟨65535,7⟩,⟨0,7⟩] := by
  refine ⟨by decide, by decide, by decide⟩

def construct : Int := 0

def counterAfter (commands : List Command) : Int :=
  commands.foldl (fun fCommandNum command => (sendCommand fCommandNum command).fCommandNum) construct

def getLastCommandNum (fCommandNum : Int) : Int := fCommandNum - 1

/- The number that `GetMultiFCResults` compares with the number of each ack. -/
def looksFor (packetNum : Int) : Int := packetNum.tmod 65536

def caldRejects (fCommandNum : Int) (packetNum : UInt16) : Prop :=
  num packetNum > getLastCommandNum fCommandNum

/- The number in the packet that `SendCommand` leaves when it has found a response:
the reply has been copied over the command. -/
def packetAfter (sent : Sent) (command : Command) : Option UInt16 :=
  match sent.outcome with
  | some (.accepted position) => (command.replies[position]?).map Header.packetNum
  | _ => none

structure FindsOwn (sent : Sent) (command : Command) : Prop where
  readOutBundles : looksFor (sent.fCommandNum - 1) = num sent.packetNum
  xl3QueueRW : looksFor (getLastCommandNum sent.fCommandNum) = num sent.packetNum
  getPedestal : ∀ packetNum, packetAfter sent command = some packetNum →
    looksFor (num packetNum) = num sent.packetNum
  getCaldTestResults : ¬ caldRejects sent.fCommandNum sent.packetNum

theorem counterCounts (commands : List Command) :
    counterAfter commands = (commands.length % 65536 : Nat) := by
  have count : ∀ (commands : List Command) (n : Nat),
      commands.foldl (fun fCommandNum command => (sendCommand fCommandNum command).fCommandNum)
        ((n % 65536 : Nat) : Int) = ((n + commands.length) % 65536 : Nat) := by
    intro commands
    induction commands with
    | nil => intro n; rfl
    | cons command later ih =>
      intro n
      have next : (sendCommand ((n % 65536 : Nat) : Int) command).fCommandNum =
          ((n+1) % 65536 : Nat) := by
        simp only [sendCommand]
        rw [Int.tmod_eq_emod_of_nonneg (by omega)]
        omega
      rw [List.foldl_cons, next, ih, List.length_cons]
      congr 2; omega
  have all := count commands 0
  rw [Nat.zero_add] at all
  exact all

theorem sentNum {n : Nat} (low : n < 65536) (command : Command) :
    num (sendCommand n command).packetNum = n := by
  simp only [sendCommand, num, UInt16.ofInt, UInt16.toNat_ofNat']
  omega

theorem sentCounter {n : Nat} (low : n < 65536) (command : Command) :
    (sendCommand n command).fCommandNum = if n = 65535 then 0 else (n : Int) + 1 := by
  simp only [sendCommand]
  rw [Int.tmod_eq_emod_of_nonneg (by omega)]
  split <;> omega

theorem looksForSmall {n : Nat} (low : n < 65536) : looksFor n = n := by
  rw [looksFor, Int.tmod_eq_emod_of_nonneg (by omega)]
  omega

theorem acceptedNum {type : UInt8} {recvCommandNum : Int} {numPackets position : Nat}
    {replies : List Header} (ok : awaitReply type recvCommandNum numPackets replies = .accepted position) :
    ∃ reply, numPackets ≤ position ∧ replies[position-numPackets]? = some reply ∧
      num reply.packetNum = recvCommandNum := by
  induction replies generalizing numPackets with
  | nil => cases ok
  | cons reply later ih =>
    rw [awaitReply] at ok
    split at ok
    · cases ok
    split at ok
    · cases ok
    split at ok
    · obtain ⟨own, less, found, same⟩ := ih ok
      refine ⟨own, by omega, ?_, same⟩
      rw [show position - numPackets = (position - (numPackets+1)) + 1 by omega]
      exact found
    · rename_i wanted
      cases ok
      exact ⟨reply, Nat.le_refl _, by simp, by
        by_contra other; exact wanted (Or.inr other)⟩

theorem packetAfterNum {n : Nat} (low : n < 65536) (command : Command) {packetNum : UInt16}
    (left : packetAfter (sendCommand n command) command = some packetNum) : num packetNum = n := by
  have reduced : (n : Int).tmod 65536 = n := looksForSmall low
  rw [packetAfter] at left
  cases outcome : (sendCommand n command).outcome with
  | none => simp [outcome] at left
  | some found =>
    cases found with
    | threw position what => simp [outcome] at left
    | accepted position =>
      simp only [outcome, Option.map_eq_some_iff] at left
      obtain ⟨reply, at', rfl⟩ := left
      simp only [sendCommand, reduced] at outcome
      split at outcome
      · obtain ⟨own, -, found, same⟩ := acceptedNum (Option.some.inj outcome)
        rw [Nat.sub_zero, at'] at found
        rw [Option.some.inj found]
        exact same
      · contradiction

theorem findsOwnIff {n : Nat} (low : n < 65536) (command : Command) :
    FindsOwn (sendCommand n command) command ↔ n ≠ 65535 := by
  have number := sentNum low command
  have counter := sentCounter low command
  constructor
  · rintro finds rfl
    have looked := finds.readOutBundles
    rw [counter, number, if_pos rfl] at looked
    exact absurd looked (by decide)
  · intro other
    rw [if_neg other] at counter
    have last : (sendCommand n command).fCommandNum - 1 = n := by omega
    refine ⟨?_, ?_, ?_, ?_⟩
    · rw [last, number, looksForSmall low]
    · rw [getLastCommandNum, last, number, looksForSmall low]
    · intro packetNum left
      rw [packetAfterNum low command left, number, looksForSmall low]
    · rw [caldRejects, getLastCommandNum, last, number]
      omega

/- The callers find the number of the command just sent unless it is 65535. -/
theorem commandsFindOwn (commands : List Command) (command : Command) :
    FindsOwn (sendCommand (counterAfter commands) command) command ↔
      commands.length % 65536 ≠ 65535 := by
  rw [counterCounts]
  exact findsOwnIff (Nat.mod_lt _ (by decide)) command

/- Behind number 65535 the counter is 0 and the number looked for is -1. -/
theorem lastNumberLost : counterAfter (List.replicate 65535 ⟨0x22,false,[]⟩) = 65535 ∧
    ¬ FindsOwn (sendCommand (counterAfter (List.replicate 65535 ⟨0x22,false,[]⟩)) ⟨0x22,false,[]⟩)
      ⟨0x22,false,[]⟩ := by
  have counter : counterAfter (List.replicate 65535 ⟨0x22,false,[]⟩) = (65535 : Nat) := by
    rw [counterCounts, List.length_replicate]
  refine ⟨counter, ?_⟩
  rw [counter]
  exact fun finds => (findsOwnIff (n := 65535) (by decide) _).mp finds rfl

end PennDaq.XL3Model
