import Mathlib.Algebra.Group.Nat.Defs
import Mathlib.Data.List.Basic

/-! Requests of the MTC model and their replies. `MTCModel::SendCommand` writes a
packet to the SBC and takes the front of the receive queue, whatever it answers;
`MTCLink::GetNextPacket` gives up after its timeout only with an empty queue. -/
namespace PennDaq.MTCModel

def mtcReadID : Nat := 0x2
def mtcWriteID : Nat := 0x3
def mtcRegAddressBase : BitVec 32 := 0x00007000
def mtcRegAddressMod : BitVec 32 := 0x29
def mtcRegAddressSpace : BitVec 32 := 0x01
def mtcSoftGTReg : BitVec 32 := 0xC

structure SBCRequest where
  destination : Nat
  cmdID : Nat
  numberBytesinPayload : Nat
  address : BitVec 32
  addressModifier : BitVec 32
  addressSpace : BitVec 32
  unitSize : BitVec 32
  numItems : BitVec 32
  data : Option (BitVec 32)
  deriving DecidableEq, Repr

def sizeofBlockStruct : Nat := 24
def sizeofWord : Nat := 4

inductive Call where
  | regRead (address : BitVec 32)
  | regWrite (address data : BitVec 32)
  | multiSoftGT (number : BitVec 32)
  deriving DecidableEq, Repr

def request : Call → SBCRequest
  | .regRead address => ⟨0x1,mtcReadID,sizeofBlockStruct+sizeofWord,address+mtcRegAddressBase,
      mtcRegAddressMod,mtcRegAddressSpace,4,1,none⟩
  | .regWrite address data => ⟨0x1,mtcWriteID,sizeofBlockStruct+sizeofWord,address+mtcRegAddressBase,
      mtcRegAddressMod,mtcRegAddressSpace,4,1,some data⟩
  | .multiSoftGT number => ⟨0x3,0x5,sizeofBlockStruct+sizeofWord,mtcSoftGTReg+mtcRegAddressBase,
      mtcRegAddressMod,mtcRegAddressSpace,4,number,some 0x0⟩

/- `serial` counts the requests and is not on the wire: the packets carry nothing
that tells which request they answer. -/
structure Reply where
  request : SBCRequest
  serial : Nat
  value : BitVec 32
  deriving DecidableEq, Repr

inductive Outcome where
  | returned (reply : Reply)
  | timedOut
  deriving DecidableEq, Repr

structure Finished where
  request : SBCRequest
  serial : Nat
  outcome : Outcome
  deriving DecidableEq, Repr

/- `sent` keeps all requests of the run, `pending` those on the way to the SBC. -/
structure State (σ : Type) where
  sbc : σ
  sent : List SBCRequest
  pending : List (SBCRequest × Nat)
  fRecvQueue : List Reply
  waiting : Bool
  finished : List Finished

inductive Event where
  | call (call : Call)
  | reply
  | takeFront
  | timeOut
  deriving DecidableEq, Repr

section Exchange
variable {σ : Type} (answer : σ → SBCRequest → σ × BitVec 32)

def start (sbc : σ) : State σ := ⟨sbc,[],[],[],false,[]⟩

def finish (s : State σ) (outcome : Outcome) : State σ :=
  match s.sent.getLast? with
  | none => s
  | some request => { s with
      waiting := false
      finished := s.finished ++ [⟨request,s.sent.length-1,outcome⟩] }

def step (s : State σ) : Event → Option (State σ)
  | .call call =>
    if s.waiting then none
    else some { s with
      sent := s.sent ++ [request call]
      pending := s.pending ++ [(request call,s.sent.length)]
      waiting := true }
  | .reply => match s.pending with
    | [] => none
    | (request,serial)::later =>
      let (sbc,value) := answer s.sbc request
      some { s with
        sbc := sbc
        pending := later
        fRecvQueue := s.fRecvQueue ++ [⟨request,serial,value⟩] }
  | .takeFront => match s.waiting, s.fRecvQueue with
    | true, front::later => some (finish { s with fRecvQueue := later } (.returned front))
    | _, _ => none
  | .timeOut => match s.waiting, s.fRecvQueue with
    | true, [] => some (finish s .timedOut)
    | _, _ => none

def run (s : State σ) : List Event → Option (State σ)
  | [] => some s
  | event::later => (step answer s event).bind fun next => run next later

/- A call that returned has taken the reply to its own request. -/
def OwnReply (f : Finished) : Prop :=
  ∀ reply, f.outcome = .returned reply → reply.serial = f.serial ∧ reply.request = f.request

/- No call returns once an earlier one has timed out. -/
def NoReturnAfterTimeOut (events : List Event) : Prop :=
  ∀ before after, events = before ++ .takeFront::after → .timeOut ∉ before

def returns (finished : List Finished) : Nat :=
  finished.countP fun f => f.outcome ≠ .timedOut

def timeOuts (finished : List Finished) : Nat :=
  finished.countP fun f => f.outcome = .timedOut

structure Paired (s : State σ) : Prop where
  order : s.fRecvQueue.map (fun r => (r.request,r.serial)) ++ s.pending =
    s.sent.zipIdx.drop (returns s.finished)
  calls : returns s.finished + timeOuts s.finished + (if s.waiting then 1 else 0) = s.sent.length

variable {answer}

theorem pairedStart (sbc : σ) : Paired (start sbc) := ⟨rfl,rfl⟩

theorem sentLast {s : State σ} (p : Paired s) (waits : s.waiting = true) :
    ∃ earlier request, s.sent = earlier ++ [request] := by
  have calls := p.calls
  rw [if_pos waits] at calls
  have full : s.sent ≠ [] := by
    intro empty
    rw [empty, List.length_nil] at calls
    omega
  exact ⟨_, _, (List.dropLast_append_getLast full).symm⟩

theorem finishLast {s : State σ} {earlier : List SBCRequest} {request : SBCRequest}
    (sent : s.sent = earlier ++ [request]) (outcome : Outcome) :
    finish s outcome = { s with
      waiting := false, finished := s.finished ++ [⟨request,earlier.length,outcome⟩] } := by
  have last : s.sent.getLast? = some request := by rw [sent, List.getLast?_append]; rfl
  have length : s.sent.length - 1 = earlier.length := by rw [sent, List.length_append]; rfl
  simp only [finish, last, length]

theorem callPaired {s next : State σ} {call : Call} (p : Paired s)
    (ok : step answer s (.call call) = some next) :
    Paired next ∧ next.finished = s.finished := by
  simp only [step] at ok
  split at ok
  · contradiction
  · rename_i idle
    cases ok
    have calls := p.calls
    rw [if_neg idle] at calls
    refine ⟨⟨?_, ?_⟩, rfl⟩
    · simp only
      rw [← List.append_assoc, p.order, List.zipIdx_append, List.drop_append_of_le_length
        (by rw [List.length_zipIdx]; omega)]
      simp
    · simp only [if_true, List.length_append, List.length_singleton]
      omega

theorem replyPaired {s next : State σ} (p : Paired s) (ok : step answer s .reply = some next) :
    Paired next ∧ next.finished = s.finished := by
  simp only [step] at ok
  split at ok
  · contradiction
  · rename_i request serial later waits
    cases ok
    have order := p.order
    rw [waits] at order
    exact ⟨⟨by simpa using order, p.calls⟩, rfl⟩

theorem frontSent {s : State σ} (p : Paired s) {front : Reply} {later : List Reply}
    (queue : s.fRecvQueue = front::later) :
    s.sent[returns s.finished]? = some front.request ∧ front.serial = returns s.finished ∧
      later.map (fun r => (r.request,r.serial)) ++ s.pending = s.sent.zipIdx.drop (returns s.finished + 1) := by
  have order := p.order
  rw [queue, List.map_cons, List.cons_append] at order
  have head := congrArg List.head? order
  have tail := congrArg List.tail order
  rw [List.head?_cons, List.head?_drop, List.getElem?_zipIdx] at head
  rw [List.tail_cons, List.tail_drop] at tail
  cases found : s.sent[returns s.finished]? with
  | none => simp [found] at head
  | some r =>
    have same : front.request = r ∧ front.serial = returns s.finished := by simpa [found] using head
    exact ⟨congrArg some same.1.symm, same.2, tail⟩

theorem takePaired {s next : State σ} (p : Paired s) (ok : step answer s .takeFront = some next) :
    Paired next ∧ ∃ f, next.finished = s.finished ++ [f] ∧ f.outcome ≠ .timedOut ∧
      (OwnReply f ↔ timeOuts s.finished = 0) := by
  simp only [step] at ok
  split at ok
  · rename_i front later waits queue
    cases ok
    have calls := p.calls
    rw [if_pos waits] at calls
    obtain ⟨found, serial, order⟩ := frontSent p queue
    obtain ⟨earlier, request, sent⟩ := sentLast p waits
    have same := finishLast (s := { s with fRecvQueue := later }) sent (.returned front)
    have count : returns (s.finished ++ [⟨request,earlier.length,.returned front⟩]) =
        returns s.finished + 1 := by
      simp [returns, List.countP_append]
    have late : timeOuts (s.finished ++ [⟨request,earlier.length,.returned front⟩]) =
        timeOuts s.finished := by
      simp [timeOuts, List.countP_append]
    rw [same]
    refine ⟨⟨?_, ?_⟩, _, rfl, by simp, ?_⟩
    · simp only [count]
      exact order
    · simp only [count, late]
      rw [if_neg (by decide)]
      omega
    · rw [sent, List.length_append, List.length_singleton] at calls
      constructor
      · intro own
        have := (own front rfl).1
        simp only [serial] at this
        omega
      · rintro onTime reply returned
        obtain rfl : front = reply := by simpa using returned
        have last : returns s.finished = earlier.length := by omega
        rw [last, sent, List.getElem?_append_right (Nat.le_refl _), Nat.sub_self] at found
        refine ⟨by simp only [serial, last], ?_⟩
        simpa using found.symm
  · contradiction

theorem timeOutPaired {s next : State σ} (p : Paired s) (ok : step answer s .timeOut = some next) :
    Paired next ∧ ∃ f, next.finished = s.finished ++ [f] ∧ f.outcome = .timedOut := by
  simp only [step] at ok
  split at ok
  · rename_i waits queue
    cases ok
    obtain ⟨earlier, request, sent⟩ := sentLast p waits
    have calls := p.calls
    rw [if_pos waits] at calls
    rw [finishLast sent]
    refine ⟨⟨?_, ?_⟩, _, rfl, rfl⟩
    · simpa [returns, List.countP_append] using p.order
    · simp only [returns, timeOuts, List.countP_append, List.countP_singleton] at calls ⊢
      simp only [ne_eq, decide_not, not_true_eq_false, decide_true, decide_false,
        Bool.false_eq_true, if_false, if_true] at calls ⊢
      omega
  · contradiction

theorem timeOutsAppend (finished : List Finished) (f : Finished) :
    timeOuts (finished ++ [f]) = 0 ↔ timeOuts finished = 0 ∧ f.outcome ≠ .timedOut := by
  simp only [timeOuts, List.countP_append, List.countP_singleton]
  split <;> simp_all

theorem ownAppend (finished : List Finished) (f : Finished) :
    (∀ g ∈ finished ++ [f], OwnReply g) ↔ (∀ g ∈ finished, OwnReply g) ∧ OwnReply f := by
  simp only [List.mem_append, List.mem_singleton, or_imp, forall_and, forall_eq]

theorem takesOf (event : Event) (later : List Event) (P : List Event → Prop) :
    (∀ before after, event::later = before ++ .takeFront::after → P before) ↔
      (event = .takeFront → P []) ∧
        ∀ before after, later = before ++ .takeFront::after → P (event::before) := by
  constructor
  · intro all
    refine ⟨fun same => all [] later (by rw [same, List.nil_append]), fun before after same => ?_⟩
    exact all (event::before) after (by rw [same, List.cons_append])
  · rintro ⟨now, then'⟩ before after same
    cases before with
    | nil => exact now (List.cons.inj same).1
    | cons b before =>
      rw [List.cons_append] at same
      obtain ⟨rfl, tails⟩ := List.cons.inj same
      exact then' before after tails

/- What a run takes from a state on: its own replies and nothing after a timeout. -/
theorem runOwn {s final : State σ} {events : List Event} (p : Paired s)
    (ok : run answer s events = some final) :
    (∀ f ∈ final.finished, OwnReply f) ↔ (∀ f ∈ s.finished, OwnReply f) ∧
      ∀ before after, events = before ++ .takeFront::after →
        timeOuts s.finished = 0 ∧ .timeOut ∉ before := by
  -- Only the taking of a reply and a time-out change what is finished.
  induction events generalizing s with
  | nil =>
    cases ok
    simp
  | cons event later ih =>
    obtain ⟨next, first, rest⟩ := Option.bind_eq_some_iff.mp ok
    rw [takesOf event later fun before => timeOuts s.finished = 0 ∧ Event.timeOut ∉ before]
    cases event with
    | call call =>
      obtain ⟨paired, same⟩ := callPaired p first
      rw [ih paired rest, same]
      simp
    | reply =>
      obtain ⟨paired, same⟩ := replyPaired p first
      rw [ih paired rest, same]
      simp
    | takeFront =>
      obtain ⟨paired, f, same, returned, own⟩ := takePaired p first
      have late : timeOuts next.finished = 0 ↔ timeOuts s.finished = 0 := by
        rw [same, timeOutsAppend]
        exact and_iff_left returned
      rw [ih paired rest, late, same, ownAppend, own]
      simp only [and_assoc, List.not_mem_nil, not_false_eq_true, and_true, forall_const,
        List.mem_cons, reduceCtorEq, false_or]
    | timeOut =>
      obtain ⟨paired, f, same, late⟩ := timeOutPaired p first
      have own : OwnReply f := by
        intro reply returned
        rw [late] at returned
        contradiction
      have never : ¬ timeOuts next.finished = 0 := by
        rw [same, timeOutsAppend]
        exact fun both => both.2 late
      rw [ih paired rest, same, ownAppend, ← same]
      simp only [own, never, and_true, false_and, List.mem_cons, true_or, not_true_eq_false,
        and_false, reduceCtorEq, false_implies, true_and]

/- Every call that returns has its own reply exactly when none returns after a
timeout. -/
theorem callsOwnReplies {sbc : σ} {final : State σ} {events : List Event}
    (ok : run answer (start sbc) events = some final) :
    (∀ f ∈ final.finished, OwnReply f) ↔ NoReturnAfterTimeOut events := by
  rw [runOwn (pairedStart sbc) ok]
  simp [start, timeOuts, NoReturnAfterTimeOut]

end Exchange

def echo (_ : Unit) (request : SBCRequest) : Unit × BitVec 32 := ((),request.address)

def threeReads : List Event :=
  [.call (.regRead 0x4),.reply,.takeFront,.call (.regRead 0x8),.reply,.takeFront,.call (.regRead 0xC),.timeOut]

theorem threeReadsInTime : ∀ n < 8, threeReads[n]? = some .takeFront → .timeOut ∉ threeReads.take n := by decide

theorem callsOwnRepliesThrice : ∃ final, run echo (start ()) threeReads = some final ∧ final.finished.length = 3 ∧
    ∀ f ∈ final.finished, OwnReply f := by
  have goes : ((run echo (start ()) threeReads).map fun final => final.finished.length) = some 3 := by decide
  obtain ⟨final, ok, three⟩ := Option.map_eq_some_iff.mp goes
  refine ⟨final, ok, three, (callsOwnReplies ok).mpr fun before after same => ?_⟩
  have inside : before.length < 8 := by
    have length := congrArg List.length same
    rw [List.length_append, List.length_cons] at length
    change 8 = _ at length
    omega
  have taken := threeReadsInTime before.length inside
  rw [same, List.take_left, List.getElem?_append_right (Nat.le_refl _), Nat.sub_self] at taken
  exact taken rfl

/- The second read gets the value of the first one's register. -/
theorem lateReplyTaken :
    ∃ final, run echo (start ()) [.call (.regRead 0x4),.timeOut,.reply,.call (.regRead 0x8),.takeFront] =
      some final ∧ ¬ ∀ f ∈ final.finished, OwnReply f := by
  refine ⟨_, rfl, fun own => ?_⟩
  have second := own ⟨request (.regRead 0x8),1,.returned ⟨request (.regRead 0x4),0,0x7004⟩⟩ (by decide)
  exact absurd (second _ rfl).1 (by decide)

end PennDaq.MTCModel
