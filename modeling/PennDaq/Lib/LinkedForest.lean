import PennDaq.Lib.Forest

/-! Families kept in memory: each cell points to its parent, its neighbours, and its first
and last child. -/
namespace Lib.LinkedForest
open Lib.Forest

structure Cell (δ : Type) where
  parent : Option Addr
  prev : Option Addr
  next : Option Addr
  head : Option Addr
  tail : Option Addr
  data : δ

/- Addresses from `fresh` on were never given out. -/
structure Memory (δ : Type) where
  cells : Addr → Option (Cell δ)
  fresh : Nat
  behind : ∀ a, fresh ≤ a → cells a = none

namespace Memory
variable {δ : Type}

theorem emptyBehind (a : Addr) (_ : 0 ≤ a) : (fun _ => none : Addr → Option (Cell δ)) a = none := rfl

def empty : Memory δ := ⟨fun _ => none,0,emptyBehind⟩

def put (m : Memory δ) (a : Addr) (value : Option (Cell δ)) (x : Addr) : Option (Cell δ) :=
  if x = a then value else m.cells x

theorem allocBehind (m : Memory δ) (c : Cell δ) (a : Addr) (above : m.fresh+1 ≤ a) :
    m.put m.fresh (some c) a = none := by
  rw [put, if_neg (Nat.ne_of_gt above)]
  exact m.behind a (Nat.le_of_succ_le above)

def alloc (data : δ) (m : Memory δ) : Addr × Memory δ :=
  (m.fresh,⟨m.put m.fresh (some ⟨none,none,none,none,none,data⟩),m.fresh+1,allocBehind m _⟩)

theorem changedBehind (m : Memory δ) (a : Addr) (change : Cell δ → Cell δ) (x : Addr) (above : m.fresh ≤ x) :
    m.put a ((m.cells a).map change) x = none := by
  unfold put
  split
  case isTrue same => rw [← same, m.behind x above, Option.map_none]
  case isFalse => exact m.behind x above

/- There is no result where no cell is. -/
def write (a : Addr) (change : Cell δ → Cell δ) (m : Memory δ) : Option (Memory δ) :=
  if (m.cells a).isSome then some ⟨m.put a ((m.cells a).map change),m.fresh,changedBehind m a change⟩ else none

theorem clearedBehind (m : Memory δ) (a x : Addr) (above : m.fresh ≤ x) : m.put a none x = none := by
  unfold put
  split
  · rfl
  · exact m.behind x above

def free (a : Addr) (m : Memory δ) : Option (Memory δ) :=
  if (m.cells a).isSome then some ⟨m.put a none,m.fresh,clearedBehind m a⟩ else none

theorem writeSome {m : Memory δ} {a : Addr} {c : Cell δ} (held : m.cells a = some c) (change : Cell δ → Cell δ) :
    ∃ m', m.write a change = some m' ∧ m'.fresh = m.fresh ∧
      ∀ x, m'.cells x = if x = a then some (change c) else m.cells x := by
  unfold write
  rw [if_pos (Option.isSome_of_eq_some held)]
  refine ⟨_,rfl,rfl,fun x => ?_⟩
  rw [← Option.map_some, ← held]
  rfl

theorem freeSome {m : Memory δ} {a : Addr} (held : m.cells a ≠ none) :
    ∃ m', m.free a = some m' ∧ m'.fresh = m.fresh ∧ ∀ x, m'.cells x = if x = a then none else m.cells x := by
  unfold free
  rw [if_pos (Option.isSome_iff_ne_none.mpr held)]
  exact ⟨_,rfl,rfl,fun x => rfl⟩

end Memory

section Operations
variable {δ : Type} (holds : δ → Bool)

def ends (a : Addr) (m : Memory δ) : Option (Cell δ) := (m.cells a).filter fun c => holds c.data

def writeEnds (a : Addr) (change : Cell δ → Cell δ) (m : Memory δ) : Option (Memory δ) := do
  let _ ← ends holds a m
  m.write a change

def appendNode (parent child : Addr) (m : Memory δ) : Option (Memory δ) := do
  let m ← m.write child fun c => { c with parent := some parent }
  let p ← ends holds parent m
  let m ← m.write child fun c => { c with prev := p.tail }
  let m ← m.write child fun c => { c with next := none }
  let p ← ends holds parent m
  let m ← match p.tail with
    | some last => m.write last fun c => { c with next := some child }
    | none => writeEnds holds parent (fun c => { c with head := some child }) m
  writeEnds holds parent (fun c => { c with tail := some child }) m

def prependNode (parent child : Addr) (m : Memory δ) : Option (Memory δ) := do
  let m ← m.write child fun c => { c with parent := some parent }
  let m ← m.write child fun c => { c with prev := none }
  let p ← ends holds parent m
  let m ← m.write child fun c => { c with next := p.head }
  let p ← ends holds parent m
  let m ← match p.head with
    | some first => m.write first fun c => { c with prev := some child }
    | none => writeEnds holds parent (fun c => { c with tail := some child }) m
  writeEnds holds parent (fun c => { c with head := some child }) m

def tellBefore (parent : Addr) (c : Cell δ) (m : Memory δ) : Option (Memory δ) :=
  match c.prev with
  | some prev => m.write prev fun d => { d with next := c.next }
  | none => writeEnds holds parent (fun d => { d with head := c.next }) m

def tellAfter (parent : Addr) (c : Cell δ) (m : Memory δ) : Option (Memory δ) :=
  match c.next with
  | some next => m.write next fun d => { d with prev := c.prev }
  | none => writeEnds holds parent (fun d => { d with tail := c.prev }) m

def removeFromParent (forget : δ → δ) (node : Addr) (m : Memory δ) : Option (Memory δ) := do
  let c ← m.cells node
  match c.parent with
  | none => some m
  | some parent => do
    let m ← tellBefore holds parent c m
    let c ← m.cells node
    let m ← tellAfter holds parent c m
    m.write node fun d => { d with parent := none, prev := none, next := none, data := forget d.data }

mutual

def delete (forget : δ → δ) : Nat → Addr → Memory δ → Option (Memory δ)
  | 0, _, _ => none
  | passes+1, node, m => do
    let m ← removeFromParent holds forget node m
    let c ← m.cells node
    let m ← (if holds c.data then deleteChildren forget passes c.head m else some m)
    m.free node

def deleteChildren (forget : δ → δ) : Nat → Option Addr → Memory δ → Option (Memory δ)
  | _, none, m => some m
  | 0, some _, _ => none
  | passes+1, some child, m => do
    let c ← m.cells child
    let m ← delete forget passes child m
    deleteChildren forget passes c.next m

end

mutual

def copy : Nat → Addr → Memory δ → Option (Addr × Memory δ)
  | 0, _, _ => none
  | passes+1, node, m => do
    let c ← m.cells node
    let (cpy,m) := m.alloc c.data
    let m ← (if holds c.data then copyChildren passes cpy c.head m else some m)
    some (cpy,m)

def copyChildren : Nat → Addr → Option Addr → Memory δ → Option (Memory δ)
  | _, _, none, m => some m
  | 0, _, some _, _ => none
  | passes+1, cpy, some child, m => do
    let (new,m) ← copy passes child m
    let m ← appendNode holds cpy new m
    let c ← m.cells child
    copyChildren passes cpy c.next m

end

variable {holds} {forget : δ → δ}

theorem deleteStep (passes : Nat) :
    (∀ node m m', delete holds forget passes node m = some m' → delete holds forget (passes+1) node m = some m') ∧
    (∀ child m m', deleteChildren holds forget passes child m = some m' →
      deleteChildren holds forget (passes+1) child m = some m') := by
  induction passes with
  | zero =>
    refine ⟨fun _ _ _ done => ?_,fun child m m' done => ?_⟩
    · cases done
    · cases child with
      | none => exact done
      | some => cases done
  | succ passes ih =>
    obtain ⟨ihNode, ihChildren⟩ := ih
    refine ⟨fun node m m' done => ?_,fun child m m' done => ?_⟩
    · rw [delete] at done ⊢
      obtain ⟨m₁, removed, done₁⟩ := Option.bind_eq_some_iff.mp done
      obtain ⟨c, held, done₂⟩ := Option.bind_eq_some_iff.mp done₁
      obtain ⟨m₂, walked, freed⟩ := Option.bind_eq_some_iff.mp done₂
      refine Option.bind_eq_some_iff.mpr ⟨m₁,removed,Option.bind_eq_some_iff.mpr ⟨c,held,?_⟩⟩
      refine Option.bind_eq_some_iff.mpr ⟨m₂,?_,freed⟩
      split at walked
      case isTrue room => exact (if_pos room).trans (ihChildren _ _ _ walked)
      case isFalse leaf => exact (if_neg leaf).trans walked
    · cases child with
      | none => exact done
      | some child =>
        rw [deleteChildren] at done ⊢
        obtain ⟨c, held, done₁⟩ := Option.bind_eq_some_iff.mp done
        obtain ⟨m₁, deleted, done₂⟩ := Option.bind_eq_some_iff.mp done₁
        exact Option.bind_eq_some_iff.mpr ⟨c,held,Option.bind_eq_some_iff.mpr ⟨m₁,ihNode _ _ _ deleted,
          ihChildren _ _ _ done₂⟩⟩

theorem deleteMore {passes passes' : Nat} (more : passes ≤ passes') {node : Addr} {m m' : Memory δ}
    (done : delete holds forget passes node m = some m') : delete holds forget passes' node m = some m' := by
  induction more with
  | refl => exact done
  | step _ ih => exact (deleteStep _).1 _ _ _ ih

theorem copyStep (passes : Nat) :
    (∀ node m result, copy holds passes node m = some result → copy holds (passes+1) node m = some result) ∧
    (∀ cpy child m m', copyChildren holds passes cpy child m = some m' →
      copyChildren holds (passes+1) cpy child m = some m') := by
  induction passes with
  | zero =>
    refine ⟨fun _ _ _ done => ?_,fun cpy child m m' done => ?_⟩
    · cases done
    · cases child with
      | none => exact done
      | some => cases done
  | succ passes ih =>
    obtain ⟨ihNode, ihChildren⟩ := ih
    refine ⟨fun node m m' done => ?_,fun cpy child m m' done => ?_⟩
    · rw [copy] at done ⊢
      obtain ⟨c, held, done₁⟩ := Option.bind_eq_some_iff.mp done
      obtain ⟨m₁, walked, last⟩ := Option.bind_eq_some_iff.mp done₁
      refine Option.bind_eq_some_iff.mpr ⟨c,held,Option.bind_eq_some_iff.mpr ⟨m₁,?_,last⟩⟩
      split at walked
      case isTrue room => exact (if_pos room).trans (ihChildren _ _ _ _ walked)
      case isFalse leaf => exact (if_neg leaf).trans walked
    · cases child with
      | none => exact done
      | some child =>
        rw [copyChildren] at done ⊢
        obtain ⟨new, copied, done₁⟩ := Option.bind_eq_some_iff.mp done
        obtain ⟨m₁, appended, done₂⟩ := Option.bind_eq_some_iff.mp done₁
        obtain ⟨c, held, done₃⟩ := Option.bind_eq_some_iff.mp done₂
        exact Option.bind_eq_some_iff.mpr ⟨new,ihNode _ _ _ copied,Option.bind_eq_some_iff.mpr ⟨m₁,appended,
          Option.bind_eq_some_iff.mpr ⟨c,held,ihChildren _ _ _ _ done₃⟩⟩⟩

theorem copyMore {passes passes' : Nat} (more : passes ≤ passes') {node : Addr} {m : Memory δ} {result : Addr × Memory δ}
    (done : copy holds passes node m = some result) : copy holds passes' node m = some result := by
  induction more with
  | refl => exact done
  | step _ ih => exact (copyStep _).1 _ _ _ ih

end Operations

end Lib.LinkedForest
