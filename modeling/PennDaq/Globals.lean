import Mathlib.Data.Set.BooleanAlgebra
import Mathlib.Order.CompletePartialOrder
import Mathlib.Data.Set.Disjoint
import Mathlib.Data.Fin.Basic

/-! The link locks: `LockConnections` and `UnlockConnections` of `Globals.cpp` with
`GenericLink`'s flags and the `CheckLock` of both models. Each call runs under
`startTestLock` as a whole. -/
namespace PennDaq.Globals

def maxXL3Con : Nat := 20
def busyConnectionFlag : Nat := 2
def noConnectionFlag : Nat := 1

@[ext] structure LinkState where
  fConnected : Bool
  fLock : Bool
  deriving DecidableEq, Repr

inductive Board where
  | mtc
  | xl3 (crate : Fin maxXL3Con)
  deriving DecidableEq, Repr

structure Links where
  mtc : LinkState
  xl3s : Fin maxXL3Con → LinkState

def Links.board (links : Links) : Board → LinkState
  | .mtc => links.mtc
  | .xl3 crate => links.xl3s crate

def checkLock (link : LinkState) : Nat :=
  if !link.fConnected then noConnectionFlag
  else if link.fLock then busyConnectionFlag
  else 0

def setLock (link : LinkState) (lock : Bool) : LinkState := { link with fLock := lock }

def inList (xl3List : BitVec 32) (i : Fin maxXL3Con) : Bool :=
  (1#32 <<< i.val) &&& xl3List != 0#32

structure Flags where
  busyFlag : Nat
  ncFlag : Nat
  deriving DecidableEq, Repr

abbrev Flags.clear (flags : Flags) : Prop := flags.busyFlag = 0 ∧ flags.ncFlag = 0

def raise (flags : Flags) (check : Nat) : Flags :=
  ⟨if check = busyConnectionFlag then 1 else flags.busyFlag,
    if check = noConnectionFlag then 1 else flags.ncFlag⟩

def mtcFlags (links : Links) (sbc : Int) : Flags :=
  if sbc = 1 then raise ⟨0,0⟩ (checkLock links.mtc)
  else if sbc = 2 then
    ⟨if checkLock links.mtc = busyConnectionFlag then 1 else 0,0⟩
  else ⟨0,0⟩

def xl3Flags (links : Links) (xl3List : BitVec 32) (flags : Flags) (i : Fin maxXL3Con) : Flags :=
  if inList xl3List i then raise flags (checkLock (links.xl3s i)) else flags

def lockFlags (links : Links) (sbc : Int) (xl3List : BitVec 32) : Flags :=
  (List.finRange maxXL3Con).foldl (xl3Flags links xl3List) (mtcFlags links sbc)

def setLocks (links : Links) (sbc : Int) (xl3List : BitVec 32) (lock : Bool) : Links where
  mtc := if sbc ≠ 0 then setLock links.mtc lock else links.mtc
  xl3s i := if inList xl3List i then setLock (links.xl3s i) lock else links.xl3s i

def lockConnections (links : Links) (sbc : Int) (xl3List : BitVec 32) : Nat × Links :=
  let flags := lockFlags links sbc xl3List
  (flags.busyFlag + 10*flags.ncFlag,
    if flags.clear then setLocks links sbc xl3List true else links)

def unlockConnections (links : Links) (sbc : Int) (xl3List : BitVec 32) : Links :=
  setLocks links sbc xl3List false

def allConnected : Links := ⟨⟨true,false⟩,fun _ => ⟨true,false⟩⟩

def named (sbc : Int) (xl3List : BitVec 32) : Set Board
  | .mtc => sbc ≠ 0
  | .xl3 crate => inList xl3List crate = true

def lockedBoards (links : Links) : Set Board := fun b => (links.board b).fLock = true

/- The MTC counts as free for `sbc = 2` as long as it is not connected. -/
structure Lockable (links : Links) (sbc : Int) (xl3List : BitVec 32) : Prop where
  mtc : sbc = 1 → links.mtc.fConnected = true ∧ links.mtc.fLock = false
  sbcControl : sbc = 2 → links.mtc.fConnected = true → links.mtc.fLock = false
  xl3s : ∀ i, inList xl3List i = true → (links.xl3s i).fConnected = true ∧ (links.xl3s i).fLock = false

theorem checkLockFree (link : LinkState) :
    checkLock link = 0 ↔ link.fConnected = true ∧ link.fLock = false := by
  obtain ⟨connected, lock⟩ := link
  cases connected <;> cases lock <;> decide

theorem raiseClear (flags : Flags) (link : LinkState) :
    (raise flags (checkLock link)).clear ↔ flags.clear ∧ checkLock link = 0 := by
  obtain ⟨connected, lock⟩ := link
  cases connected <;> cases lock <;>
    simp [raise, checkLock, busyConnectionFlag, noConnectionFlag]

theorem mtcFlagsClear (links : Links) (sbc : Int) :
    (mtcFlags links sbc).clear ↔
      (sbc = 1 → links.mtc.fConnected = true ∧ links.mtc.fLock = false) ∧
      (sbc = 2 → links.mtc.fConnected = true → links.mtc.fLock = false) := by
  unfold mtcFlags
  split
  · rename_i one
    subst one
    rw [raiseClear, checkLockFree]
    simp
  split
  · rename_i two
    subst two
    obtain ⟨⟨connected, lock⟩, -⟩ := links
    cases connected <;> cases lock <;>
      simp [checkLock, busyConnectionFlag, noConnectionFlag]
  · rename_i one two
    simp [one, two]

theorem xl3FlagsClear (links : Links) (xl3List : BitVec 32) (crates : List (Fin maxXL3Con))
    (flags : Flags) :
    (crates.foldl (xl3Flags links xl3List) flags).clear ↔ flags.clear ∧
      ∀ i ∈ crates, inList xl3List i = true →
        (links.xl3s i).fConnected = true ∧ (links.xl3s i).fLock = false := by
  induction crates generalizing flags with
  | nil => simp
  | cons i crates ih =>
    rw [List.foldl_cons, ih, List.forall_mem_cons, xl3Flags]
    split
    · rename_i member
      rw [raiseClear, checkLockFree]
      simp only [member, forall_const, and_assoc]
    · rename_i other
      simp only [other, false_implies, true_and, Bool.false_eq_true]

theorem lockFlagsClear (links : Links) (sbc : Int) (xl3List : BitVec 32) :
    (lockFlags links sbc xl3List).clear ↔ Lockable links sbc xl3List := by
  rw [lockFlags, xl3FlagsClear, mtcFlagsClear]
  constructor
  · rintro ⟨⟨one, two⟩, each⟩
    exact ⟨one, two, fun i => each i (List.mem_finRange i)⟩
  · intro ok
    exact ⟨⟨ok.mtc,ok.sbcControl⟩, fun i _ => ok.xl3s i⟩

theorem lockSucceeds (links : Links) (sbc : Int) (xl3List : BitVec 32) :
    (lockConnections links sbc xl3List).1 = 0 ↔ Lockable links sbc xl3List := by
  simp only [← lockFlagsClear, lockConnections, Flags.clear]
  omega

theorem lockTaken {links : Links} {sbc : Int} {xl3List : BitVec 32}
    (ok : Lockable links sbc xl3List) :
    (lockConnections links sbc xl3List).2 = setLocks links sbc xl3List true :=
  if_pos ((lockFlagsClear links sbc xl3List).mpr ok)

theorem lockRefused {links : Links} {sbc : Int} {xl3List : BitVec 32}
    (refused : (lockConnections links sbc xl3List).1 ≠ 0) :
    (lockConnections links sbc xl3List).2 = links := by
  refine if_neg fun nothing => refused ?_
  exact (lockSucceeds links sbc xl3List).mpr ((lockFlagsClear links sbc xl3List).mp nothing)

theorem setLocksBoard (links : Links) (sbc : Int) (xl3List : BitVec 32) (lock : Bool) (b : Board) :
    ((setLocks links sbc xl3List lock).board b).fConnected = (links.board b).fConnected ∧
    (b ∈ named sbc xl3List → ((setLocks links sbc xl3List lock).board b).fLock = lock) ∧
    (b ∉ named sbc xl3List →
      ((setLocks links sbc xl3List lock).board b).fLock = (links.board b).fLock) := by
  cases b with
  | mtc =>
    change _ ∧ (sbc ≠ 0 → _) ∧ (¬ sbc ≠ 0 → _)
    simp only [setLocks, Links.board]
    split <;> simp_all [setLock]
  | xl3 crate =>
    change _ ∧ (inList xl3List crate = true → _) ∧ (¬ inList xl3List crate = true → _)
    simp only [setLocks, Links.board]
    split <;> simp_all [setLock]

theorem lockedAfterLock (links : Links) (sbc : Int) (xl3List : BitVec 32) :
    lockedBoards (setLocks links sbc xl3List true) = lockedBoards links ∪ named sbc xl3List := by
  ext b
  obtain ⟨-, inside, outside⟩ := setLocksBoard links sbc xl3List true b
  by_cases mem : b ∈ named sbc xl3List
  · exact ⟨fun _ => Or.inr mem, fun _ => inside mem⟩
  · constructor
    · intro locked
      exact Or.inl ((outside mem).symm.trans locked)
    · rintro (locked | named)
      · exact (outside mem).trans locked
      · exact absurd named mem

theorem lockedAfterUnlock (links : Links) (sbc : Int) (xl3List : BitVec 32) :
    lockedBoards (unlockConnections links sbc xl3List) = lockedBoards links \ named sbc xl3List := by
  ext b
  obtain ⟨-, inside, outside⟩ := setLocksBoard links sbc xl3List false b
  by_cases mem : b ∈ named sbc xl3List
  · constructor
    · intro locked
      exact absurd ((inside mem).symm.trans locked) (by decide)
    · intro locked
      exact absurd mem locked.2
  · constructor
    · intro locked
      exact ⟨(outside mem).symm.trans locked, mem⟩
    · intro locked
      exact (outside mem).trans locked.1

theorem lockableDisjoint {links : Links} {sbc : Int} {xl3List : BitVec 32}
    (modes : sbc = 0 ∨ sbc = 1 ∨ sbc = 2) (ok : Lockable links sbc xl3List) :
    Disjoint (named sbc xl3List) (lockedBoards links) ↔
      ¬ (sbc = 2 ∧ links.mtc.fConnected = false ∧ links.mtc.fLock = true) := by
  rw [Set.disjoint_left]
  constructor
  · rintro apart ⟨two, -, locked⟩
    have mem : Board.mtc ∈ named sbc xl3List := by rw [two]; exact (by decide : (2 : Int) ≠ 0)
    exact apart mem locked
  · intro free b mem locked
    cases b with
    | mtc =>
      change links.mtc.fLock = true at locked
      rcases modes with zero | one | two
      · exact mem zero
      · have := (ok.mtc one).2
        rw [locked] at this
        contradiction
      · apply free
        refine ⟨two, ?_, locked⟩
        cases connected : links.mtc.fConnected with
        | false => rfl
        | true =>
          have := ok.sbcControl two connected
          rw [locked] at this
          contradiction
    | xl3 crate =>
      have := (ok.xl3s crate mem).2
      change (links.xl3s crate).fLock = true at locked
      rw [locked] at this
      contradiction

end PennDaq.Globals
