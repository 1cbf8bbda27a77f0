import Mathlib.Data.List.Basic

/-! The counter of open controllers: `ControllerLink::AcceptCallback` and
`ControllerLink::EventCallback` over a whole run of the listener. -/
namespace PennDaq.Controllers

def maxContCon : Int := 1

def bevEventReading : BitVec 16 := 0x01
def bevEventWriting : BitVec 16 := 0x02
def bevEventEOF : BitVec 16 := 0x10
def bevEventError : BitVec 16 := 0x20
def bevEventConnected : BitVec 16 := 0x80

/- `fBev` is the connection of the bufferevent; `freed` keeps those whose
bufferevent was given to `bufferevent_free`. -/
structure ControllerLink where
  fNumControllers : Int
  fConnected : Nat
  fFD : Option Nat
  fBev : Option Nat
  freed : List Nat
  deriving DecidableEq, Repr

def construct : ControllerLink := ⟨0,0,none,none,[]⟩

inductive Verdict where
  | accepted
  | closed
  deriving DecidableEq, Repr

def genericAcceptCallback (link : ControllerLink) (fd : Nat) : ControllerLink :=
  { link with fConnected := 1, fFD := some fd, fBev := some fd }

def acceptCallback (link : ControllerLink) (fd : Nat) : ControllerLink × Verdict :=
  if link.fNumControllers ≥ maxContCon then (link,.closed)
  else
    let link := { link with fNumControllers := link.fNumControllers + 1 }
    (genericAcceptCallback link fd,.accepted)

def eventCallback (link : ControllerLink) (what : BitVec 16) : ControllerLink :=
  if what &&& bevEventConnected ≠ 0 then link
  else if what &&& bevEventError ≠ 0 then link
  else if what &&& bevEventEOF ≠ 0 then
    { link with
      freed := link.freed ++ link.fBev.toList
      fNumControllers := link.fNumControllers - 1 }
  else link

/-! Runs. A connection ends while data is read or written, at the end of the file or
with an error; the library reports this once, on a connection that is still open. -/

inductive Direction where
  | reading
  | writing
  deriving DecidableEq, Repr

inductive Ending where
  | eof
  | error
  deriving DecidableEq, Repr

def whatOf (direction : Direction) (ending : Ending) : BitVec 16 :=
  (match direction with
    | .reading => bevEventReading
    | .writing => bevEventWriting) |||
  (match ending with
    | .eof => bevEventEOF
    | .error => bevEventError)

inductive Event where
  | accept
  | ended (fd : Nat) (direction : Direction) (ending : Ending)
  deriving DecidableEq, Repr

/- The connections that were accepted and have not ended. The sockets are numbered
in the order in which they come. -/
structure Listener where
  link : ControllerLink
  opened : List Nat
  next : Nat
  deriving DecidableEq, Repr

def start : Listener := ⟨construct,[],0⟩

def step (s : Listener) : Event → Option Listener
  | .accept =>
    let (link,verdict) := acceptCallback s.link s.next
    some ⟨link,if verdict = .accepted then s.next::s.opened else s.opened,s.next+1⟩
  | .ended fd direction ending =>
    if fd ∈ s.opened then
      some { s with
        link := eventCallback s.link (whatOf direction ending)
        opened := s.opened.erase fd }
    else none

def run (s : Listener) : List Event → Option Listener
  | [] => some s
  | event::later => (step s event).bind fun next => run next later

def Refuses (s : Listener) : Prop := (acceptCallback s.link s.next).2 = .closed

/- The counter counts the connections that are open, stays within the limit, and
refuses a controller only while that many are open. -/
structure Counted (s : Listener) : Prop where
  counter : s.link.fNumControllers = s.opened.length
  limit : s.link.fNumControllers ≤ maxContCon
  refusal : Refuses s → maxContCon ≤ s.opened.length

def AlwaysCounted (s : Listener) : List Event → Prop
  | [] => Counted s
  | event::later => Counted s ∧ ∀ next, step s event = some next → AlwaysCounted next later

def NoError (events : List Event) : Prop :=
  ∀ fd direction, Event.ended fd direction .error ∉ events

theorem acceptBelow {link : ControllerLink} (room : link.fNumControllers < maxContCon) (fd : Nat) :
    (acceptCallback link fd).2 = .accepted ∧
      (acceptCallback link fd).1.fNumControllers = link.fNumControllers + 1 := by
  rw [acceptCallback, if_neg (Int.not_le.mpr room)]
  exact ⟨rfl,rfl⟩

theorem acceptFull {link : ControllerLink} (full : maxContCon ≤ link.fNumControllers) (fd : Nat) :
    acceptCallback link fd = (link,.closed) := if_pos full

theorem eventEOF (link : ControllerLink) (direction : Direction) :
    (eventCallback link (whatOf direction .eof)).fNumControllers = link.fNumControllers - 1 := by
  cases direction <;> rfl

theorem eventError (link : ControllerLink) (direction : Direction) :
    eventCallback link (whatOf direction .error) = link := by
  cases direction <;> rfl

theorem countedStart : Counted start := by
  refine ⟨rfl, by decide, fun refuses => ?_⟩
  simp [Refuses, start, construct, acceptCallback, maxContCon] at refuses

theorem countedOf {s : Listener} (counter : s.link.fNumControllers = s.opened.length)
    (limit : s.link.fNumControllers ≤ maxContCon) : Counted s := by
  refine ⟨counter, limit, fun refuses => ?_⟩
  rcases Int.lt_or_le s.link.fNumControllers maxContCon with room | full
  · have accepted := (acceptBelow room s.next).1
    rw [Refuses, accepted] at refuses
    contradiction
  · rw [← counter]; exact full

theorem acceptCounted {s next : Listener} (c : Counted s) (ok : step s .accept = some next) :
    Counted next := by
  simp only [step, Option.some.injEq] at ok
  subst ok
  rcases Int.lt_or_le s.link.fNumControllers maxContCon with room | full
  · obtain ⟨accepted, more⟩ := acceptBelow room s.next
    apply countedOf
    · simp only [accepted, more, if_true, List.length_cons, c.counter, Int.natCast_add,
        Int.cast_ofNat_Int]
    · simp only [more]; omega
  · simp only [acceptFull full, reduceCtorEq, if_false]
    exact countedOf c.counter c.limit

theorem endedCounted {s next : Listener} {fd : Nat} {direction : Direction} (c : Counted s)
    (ok : step s (.ended fd direction .eof) = some next) : Counted next := by
  simp only [step] at ok
  split at ok
  · rename_i mem
    cases Option.some.inj ok
    have counter := c.counter
    have limit := c.limit
    have length := List.length_erase_of_mem mem
    have some' := List.length_pos_of_mem mem
    apply countedOf
    · simp only [eventEOF, length]; omega
    · simp only [eventEOF]; omega
  · contradiction

theorem errorMiscounts {s next : Listener} {fd : Nat} {direction : Direction} (c : Counted s)
    (ok : step s (.ended fd direction .error) = some next) : ¬ Counted next := by
  simp only [step] at ok
  split at ok
  · rename_i mem
    cases Option.some.inj ok
    intro counted
    have before := c.counter
    have after := counted.counter
    have length := List.length_erase_of_mem mem
    have some' := List.length_pos_of_mem mem
    simp only [eventError, length] at after
    omega
  · contradiction

theorem alwaysNow {s : Listener} {events : List Event} (always : AlwaysCounted s events) :
    Counted s := by
  cases events with
  | nil => exact always
  | cons event later => exact always.1

theorem alwaysCountedFrom {s final : Listener} {events : List Event} (c : Counted s)
    (ok : run s events = some final) : AlwaysCounted s events ↔ NoError events := by
  induction events generalizing s with
  | nil => exact ⟨fun _ fd direction => List.not_mem_nil, fun _ => c⟩
  | cons event later ih =>
    obtain ⟨next, first, rest⟩ := Option.bind_eq_some_iff.mp ok
    have tail : AlwaysCounted s (event::later) ↔ AlwaysCounted next later := by
      refine ⟨fun always => always.2 next first, fun always => ⟨c, fun other same => ?_⟩⟩
      obtain rfl : next = other := Option.some.inj (first.symm.trans same)
      exact always
    rw [tail]
    cases event with
    | accept =>
      rw [ih (acceptCounted c first) rest]
      simp only [NoError, List.mem_cons, reduceCtorEq, false_or]
    | ended fd direction ending =>
      cases ending with
      | eof =>
        rw [ih (endedCounted c first) rest]
        simp only [NoError, List.mem_cons, Event.ended.injEq, reduceCtorEq, and_false, false_or]
      | error =>
        constructor
        · intro always
          exact absurd (alwaysNow always) (errorMiscounts c first)
        · intro none
          exact absurd List.mem_cons_self (none fd direction)

/- The counter is right over a whole run exactly when no connection ends with an
error. -/
theorem controllersCounted {final : Listener} {events : List Event}
    (ok : run start events = some final) : AlwaysCounted start events ↔ NoError events :=
  alwaysCountedFrom countedStart ok

theorem controllersCountedReconnect :
    AlwaysCounted start [.accept,.accept,.ended 0 .reading .eof,.accept] := by
  have ok : run start [.accept,.accept,.ended 0 .reading .eof,.accept] =
      some ⟨⟨1,1,some 2,some 2,[0]⟩,[2],3⟩ := by decide
  exact (controllersCounted ok).mpr (by intro fd direction mem; simp at mem)

/- After one error no controller is open and every later one is refused. -/
theorem errorLocksOut :
    ∃ s, run start [.accept,.ended 0 .reading .error] = some s ∧ s.opened = [] ∧
      s.link.fNumControllers = 1 ∧ Refuses s ∧ ¬ Counted s := by
  refine ⟨⟨⟨1,1,some 0,some 0,[]⟩,[],1⟩, by decide, rfl, rfl, rfl, fun counted => ?_⟩
  exact absurd counted.counter (by decide)

end PennDaq.Controllers
