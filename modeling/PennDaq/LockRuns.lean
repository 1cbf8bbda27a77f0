import PennDaq.Lib.Exclusion
import PennDaq.Globals

/-! Any number of commands that lock and unlock, with the MTC connection opened and
closed in between. `CheckLock` says that a link without a connection has no
connection before it says that it is locked, and `LockConnections` with `sbc = 2`
takes that for a free MTC. -/
namespace PennDaq.LockRuns
open Globals
open Lib.Exclusion

structure Claim where
  sbc : Int
  xl3List : BitVec 32
  deriving DecidableEq, Repr

structure State where
  links : Links
  claims : Nat → Option Claim

inductive Event where
  | lock (who : Nat) (sbc : Int) (xl3List : BitVec 32)
  | unlock (who : Nat) (sbc : Int)
  | mtcConnect
  | mtcClose
  | xl3Accept (crate : Fin maxXL3Con)
  deriving DecidableEq, Repr

/- A command locks when it holds nothing, in one of the three modes, and unlocks
what it locked: the same list, and the MTC exactly if it locked it. -/
def Allowed (s : State) : Event → Prop
  | .lock who sbc _ => s.claims who = none ∧ (sbc = 0 ∨ sbc = 1 ∨ sbc = 2)
  | .unlock who sbc => ∃ claim, s.claims who = some claim ∧ (sbc = 0 ↔ claim.sbc = 0)
  | _ => True

def setMTC (links : Links) (connected : Bool) : Links :=
  { links with mtc := { links.mtc with fConnected := connected } }

def acceptXL3 (links : Links) (crate : Fin maxXL3Con) : Links :=
  { links with xl3s := fun i => if i = crate then { links.xl3s i with fConnected := true } else links.xl3s i }

def step (s : State) : Event → State
  | .lock who sbc xl3List =>
    let locked := lockConnections s.links sbc xl3List
    if locked.1 = 0 then ⟨locked.2,Function.update s.claims who (some ⟨sbc,xl3List⟩)⟩
    else ⟨locked.2,s.claims⟩
  | .unlock who sbc => match s.claims who with
    | none => s
    | some claim => ⟨unlockConnections s.links sbc claim.xl3List,Function.update s.claims who none⟩
  | .mtcConnect => { s with links := setMTC s.links true }
  | .mtcClose => { s with links := setMTC s.links false }
  | .xl3Accept crate => { s with links := acceptXL3 s.links crate }

def held (s : State) (who : Nat) : Set Board :=
  match s.claims who with
  | none => ∅
  | some claim => named claim.sbc claim.xl3List

def Apart (s : State) : Prop := Exclusive (held s)

/- A call that returns non-zero changes no lock. -/
def RefusalKeeps (s : State) : Event → Prop
  | .lock _ sbc xl3List => (lockConnections s.links sbc xl3List).1 ≠ 0 →
      (lockConnections s.links sbc xl3List).2 = s.links
  | _ => True

def Starts (s : State) : Prop := (∀ who, s.claims who = none) ∧ lockedBoards s.links = ∅

def AllAllowed (s : State) : List Event → Prop
  | [] => True
  | event::later => Allowed s event ∧ AllAllowed (step s event) later

def Safe (s : State) : List Event → Prop
  | [] => Apart s
  | event::later => Apart s ∧ RefusalKeeps s event ∧ Safe (step s event) later

/- The condition on a step: no `sbc = 2` call goes through while the MTC is locked
but not connected. -/
def NoSteal (s : State) : Event → Prop
  | .lock _ sbc xl3List => sbc = 2 → s.links.mtc.fLock = true → s.links.mtc.fConnected = false →
      ¬ ∀ i, inList xl3List i = true → (s.links.xl3s i).fConnected = true ∧ (s.links.xl3s i).fLock = false
  | _ => True

def NeverSteals (s : State) : List Event → Prop
  | [] => True
  | event::later => NoSteal s event ∧ NeverSteals (step s event) later

structure Sound (s : State) : Prop where
  apart : Apart s
  marks : Marks (held s) (lockedBoards s.links)

theorem startsSound {s : State} (start : Starts s) : Sound s := by
  obtain ⟨none, unlocked⟩ := start
  have nothing : held s = fun _ => ∅ := by funext who; simp [held, none]
  refine ⟨?_, ?_⟩
  · rw [Apart, nothing]; exact exclusiveNone
  · rw [nothing, unlocked]; exact marksNone

theorem refusalKeeps (s : State) (event : Event) : RefusalKeeps s event := by
  cases event with
  | lock who sbc xl3List => exact lockRefused
  | _ => trivial

theorem connectionsKeepLocks (s : State) (links : Links)
    (same : ∀ b, (links.board b).fLock = (s.links.board b).fLock) (sound : Sound s) :
    Sound { s with links := links } := by
  refine ⟨sound.apart, ?_⟩
  have locked : lockedBoards links = lockedBoards s.links := by
    ext b
    exact Eq.to_iff (congrArg (· = true) (same b))
  change Marks (held s) (lockedBoards links)
  rw [locked]
  exact sound.marks

theorem setMTCLock (links : Links) (connected : Bool) (b : Board) :
    ((setMTC links connected).board b).fLock = (links.board b).fLock := by
  cases b <;> rfl

theorem acceptXL3Lock (links : Links) (crate : Fin maxXL3Con) (b : Board) :
    ((acceptXL3 links crate).board b).fLock = (links.board b).fLock := by
  cases b with
  | mtc => rfl
  | xl3 i => simp only [acceptXL3, Links.board]; split <;> rfl

theorem heldUpdate (claims : Nat → Option Claim) (links links' : Links) (who : Nat)
    (claim : Option Claim) :
    held ⟨links',Function.update claims who claim⟩ =
      Function.update (held ⟨links,claims⟩) who
        (match claim with | none => ∅ | some c => named c.sbc c.xl3List) := by
  funext a
  by_cases same : a = who
  · subst same
    simp [held]
  · simp [held, Function.update_of_ne same]

theorem lockStep {s : State} {who : Nat} {sbc : Int} {xl3List : BitVec 32} (sound : Sound s)
    (allowed : Allowed s (.lock who sbc xl3List)) (ok : Lockable s.links sbc xl3List) :
    (Apart (step s (.lock who sbc xl3List)) ↔ NoSteal s (.lock who sbc xl3List)) ∧
    Marks (held (step s (.lock who sbc xl3List))) (lockedBoards (step s (.lock who sbc xl3List)).links) := by
  obtain ⟨free, modes⟩ := allowed
  have empty : held s who = ∅ := by simp [held, free]
  have next : step s (.lock who sbc xl3List) =
      ⟨setLocks s.links sbc xl3List true,Function.update s.claims who (some ⟨sbc,xl3List⟩)⟩ := by
    simp only [step, if_pos ((lockSucceeds s.links sbc xl3List).mpr ok), lockTaken ok]
  have holds := heldUpdate s.claims s.links (setLocks s.links sbc xl3List true) who
    (some ⟨sbc,xl3List⟩)
  rw [next, Apart, holds, lockedAfterLock]
  refine ⟨?_, takeMarks sound.marks empty _⟩
  rw [takeExclusive sound.apart sound.marks empty, lockableDisjoint modes ok]
  constructor
  · intro free two locked closed
    exact absurd ⟨two,closed,locked⟩ free
  · rintro none ⟨two, closed, locked⟩
    exact none two locked closed ok.xl3s

theorem lockRefusedStep {s : State} {who : Nat} {sbc : Int} {xl3List : BitVec 32}
    (refused : ¬ Lockable s.links sbc xl3List) : step s (.lock who sbc xl3List) = s := by
  have nonzero : (lockConnections s.links sbc xl3List).1 ≠ 0 :=
    fun zero => refused ((lockSucceeds s.links sbc xl3List).mp zero)
  simp only [step, if_neg nonzero, lockRefused nonzero]

theorem unlockStep {s : State} {who : Nat} {sbc : Int} (sound : Sound s)
    (allowed : Allowed s (.unlock who sbc)) : Sound (step s (.unlock who sbc)) := by
  obtain ⟨claim, mine, same⟩ := allowed
  have next : step s (.unlock who sbc) =
      ⟨unlockConnections s.links sbc claim.xl3List,Function.update s.claims who none⟩ := by
    simp only [step, mine]
  have holds := heldUpdate s.claims s.links (unlockConnections s.links sbc claim.xl3List) who none
  have boards : named sbc claim.xl3List = held s who := by
    ext b
    simp only [held, mine]
    cases b with
    | mtc => exact not_congr same
    | xl3 crate => exact Iff.rfl
  rw [next]
  refine ⟨?_, ?_⟩
  · rw [Apart, holds]
    exact releaseExclusive sound.apart who
  · rw [holds, lockedAfterUnlock, boards]
    exact releaseMarks sound.apart sound.marks who

/- One step keeps the commands apart exactly when it steals nothing. -/
theorem stepSound {s : State} {event : Event} (sound : Sound s) (allowed : Allowed s event) :
    (NoSteal s event → Sound (step s event)) ∧ (Apart (step s event) → NoSteal s event) := by
  cases event with
  | lock who sbc xl3List =>
    by_cases ok : Lockable s.links sbc xl3List
    · obtain ⟨exactly, marks⟩ := lockStep sound allowed ok
      exact ⟨fun none => ⟨exactly.mpr none,marks⟩, exactly.mp⟩
    · rw [lockRefusedStep ok]
      refine ⟨fun _ => sound, fun _ => ?_⟩
      rintro rfl locked closed each
      refine ok ⟨fun one => absurd one (by decide), fun _ opened => ?_, each⟩
      rw [closed] at opened
      contradiction
  | unlock who sbc => exact ⟨fun _ => unlockStep sound allowed, fun _ => trivial⟩
  | mtcConnect => exact ⟨fun _ => connectionsKeepLocks s _ (setMTCLock _ _) sound, fun _ => trivial⟩
  | mtcClose => exact ⟨fun _ => connectionsKeepLocks s _ (setMTCLock _ _) sound, fun _ => trivial⟩
  | xl3Accept crate =>
    exact ⟨fun _ => connectionsKeepLocks s _ (acceptXL3Lock _ crate) sound, fun _ => trivial⟩

theorem safeApart {s : State} {events : List Event} (safe : Safe s events) : Apart s := by
  cases events with
  | nil => exact safe
  | cons event later => exact safe.1

theorem runSafe {s : State} {events : List Event} (sound : Sound s)
    (allowed : AllAllowed s events) : Safe s events ↔ NeverSteals s events := by
  induction events generalizing s with
  | nil => exact ⟨fun _ => trivial, fun _ => sound.apart⟩
  | cons event later ih =>
    obtain ⟨first, rest⟩ := allowed
    obtain ⟨keeps, needs⟩ := stepSound sound first
    constructor
    · rintro ⟨-, -, safe⟩
      have none := needs (safeApart safe)
      exact ⟨none, (ih (keeps none) rest).mp safe⟩
    · rintro ⟨none, others⟩
      exact ⟨sound.apart, refusalKeeps s event, (ih (keeps none) rest).mpr others⟩

/- From a state without locks every board has one holder at most, in every state of
the run, exactly when no step of it steals the MTC. -/
theorem boardsExclusive {s : State} {events : List Event} (start : Starts s)
    (allowed : AllAllowed s events) : Safe s events ↔ NeverSteals s events :=
  runSafe (startsSound start) allowed

def connectedStart : State := ⟨⟨⟨true,false⟩,fun _ => ⟨true,false⟩⟩,fun _ => none⟩

theorem connectedStarts : Starts connectedStart := by
  refine ⟨fun _ => rfl, ?_⟩
  ext b
  cases b <;> exact ⟨fun locked => absurd locked Bool.false_ne_true, fun none => none.elim⟩

theorem boardsExclusiveTwo :
    Safe connectedStart [.lock 0 1 1,.lock 1 2 0,.unlock 0 1,.lock 1 2 0,.mtcClose] := by
  refine (boardsExclusive connectedStarts ?_).mpr ?_
  · exact ⟨⟨rfl,by decide⟩, ⟨rfl,by decide⟩, ⟨_,rfl,by decide⟩, ⟨rfl,by decide⟩, trivial, trivial⟩
  · refine ⟨?_, ?_, trivial, ?_, trivial, trivial⟩
    · intro two; exact absurd two (by decide)
    · intro _ _ closed; exact absurd closed (by decide)
    · intro _ locked; exact absurd locked (by decide)

/- An `sbc_control` closes the connection of the MTC that it has locked, and a second
one locks the MTC too. -/
theorem secondControlSteals :
    Starts connectedStart ∧ AllAllowed connectedStart [.lock 0 2 0,.mtcClose,.lock 1 2 0] ∧
      ¬ Safe connectedStart [.lock 0 2 0,.mtcClose,.lock 1 2 0] := by
  have allowed : AllAllowed connectedStart [.lock 0 2 0,.mtcClose,.lock 1 2 0] :=
    ⟨⟨rfl,by decide⟩, trivial, ⟨rfl,by decide⟩, trivial⟩
  refine ⟨connectedStarts, allowed, fun safe => ?_⟩
  obtain ⟨-, -, steal, -⟩ := (runSafe (startsSound connectedStarts) allowed).mp safe
  exact steal rfl (by decide) (by decide) fun i member => absurd member (by revert i; decide)

end PennDaq.LockRuns
