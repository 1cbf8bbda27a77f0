import Mathlib.Data.List.Basic
import Mathlib.Data.List.Nodup
import Mathlib.Logic.Relation

/-! Families of nodes: each node has data and a list of children, no node has two places
among them, and none is below itself. -/
namespace Lib.Forest

abbrev Addr := Nat

structure Family (δ : Type) where
  data : Addr → Option δ
  children : Addr → List Addr
  inside : ∀ q c, c ∈ children q → data q ≠ none ∧ data c ≠ none
  once : ∀ q, (children q).Nodup
  oneParent : ∀ q q' c, c ∈ children q → c ∈ children q' → q = q'
  ranked : ∃ height : Addr → Nat, ∀ q c, c ∈ children q → height c < height q

namespace Family
variable {δ : Type} (F : Family δ)

theorem same {F F' : Family δ} (data : F.data = F'.data) (children : F.children = F'.children) : F = F' := by
  cases F
  cases F'
  cases data
  cases children
  rfl

theorem emptyInside (_ c : Addr) (member : c ∈ ([] : List Addr)) : none ≠ (none : Option δ) ∧ none ≠ (none : Option δ) :=
  absurd member List.not_mem_nil

theorem emptyOneParent (q q' c : Addr) (member : c ∈ ([] : List Addr)) (_ : c ∈ ([] : List Addr)) : q = q' :=
  absurd member List.not_mem_nil

theorem emptyRanked : ∃ height : Addr → Nat, ∀ q c, c ∈ ([] : List Addr) → height c < height q :=
  ⟨id,fun _ _ member => absurd member List.not_mem_nil⟩

def empty : Family δ where
  data := fun _ => none
  children := fun _ => []
  inside := emptyInside
  once := fun _ => List.nodup_nil
  oneParent := emptyOneParent
  ranked := emptyRanked

def Root (a : Addr) : Prop := ∀ q, a ∉ F.children q

def Below (a x : Addr) : Prop := Relation.ReflTransGen (fun q c => c ∈ F.children q) a x

variable {F}

theorem belowSelf (a : Addr) : F.Below a a := .refl

theorem belowChild {q c x : Addr} (member : c ∈ F.children q) (below : F.Below c x) : F.Below q x := .head member below

theorem belowHeight {height : Addr → Nat} (ranks : ∀ q c, c ∈ F.children q → height c < height q) {a x : Addr}
    (below : F.Below a x) : height x ≤ height a := by
  induction below with
  | refl => exact Nat.le_refl _
  | tail _ member ih => exact Nat.le_trans (Nat.le_of_lt (ranks _ _ member)) ih

theorem notAboveSelf {q c : Addr} (member : c ∈ F.children q) : ¬F.Below c q := by
  intro below
  obtain ⟨height, ranks⟩ := F.ranked
  have less := ranks q c member
  have most := belowHeight ranks below
  omega

theorem notOwnChild (q : Addr) : q ∉ F.children q := fun member => notAboveSelf member (belowSelf q)

theorem siblingsApart {q c c' : Addr} (member : c ∈ F.children q) (member' : c' ∈ F.children q) (below : F.Below c c') :
    c' = c := by
  cases below with
  | refl => rfl
  | @tail p _ path last =>
    have same := F.oneParent p q c' last member'
    exact absurd (same ▸ path) (notAboveSelf member)

theorem belowLive {a x : Addr} (live : F.data a ≠ none) (below : F.Below a x) : F.data x ≠ none := by
  cases below with
  | refl => exact live
  | tail _ member => exact (F.inside _ _ member).2

theorem belowCases {a x : Addr} : F.Below a x ↔ x = a ∨ ∃ c ∈ F.children a, F.Below c x := by
  constructor
  · intro below
    rcases Relation.ReflTransGen.cases_head below with same | ⟨c, member, path⟩
    · exact Or.inl same.symm
    · exact Or.inr ⟨c,member,path⟩
  · intro held
    rcases held with rfl | ⟨c, member, path⟩
    · exact belowSelf _
    · exact belowChild member path

section Plant
variable (F) (a : Addr) (d : δ)

def planted (x : Addr) : Option δ := if x = a then some d else F.data x

theorem plantedLive {x : Addr} (live : F.data x ≠ none) : planted F a d x ≠ none := by
  unfold planted
  split
  · simp
  · exact live

theorem plantInside (q c : Addr) (member : c ∈ F.children q) : planted F a d q ≠ none ∧ planted F a d c ≠ none :=
  (F.inside q c member).imp (plantedLive F a d) (plantedLive F a d)

def plant : Family δ where
  data := planted F a d
  children := F.children
  inside := plantInside F a d
  once := F.once
  oneParent := F.oneParent
  ranked := F.ranked

end Plant

section Adopt
variable (F) (q e : Addr) (list : List Addr)

structure Adoptable : Prop where
  root : F.Root e
  live : F.data q ≠ none
  live' : F.data e ≠ none
  apart : ¬F.Below e q
  same : List.Perm list (e::F.children q)

def adopted (p : Addr) : List Addr := if p = q then list else F.children p

variable {F q e list}

theorem adoptedCases (adoptable : Adoptable F q e list) {p c : Addr} (member : c ∈ adopted F q list p) :
    c ∈ F.children p ∨ p = q ∧ c = e := by
  unfold adopted at member
  split at member
  case isTrue same =>
    rcases List.mem_cons.mp (adoptable.same.mem_iff.mp member) with new | old
    · exact Or.inr ⟨same,new⟩
    · exact Or.inl (same ▸ old)
  case isFalse => exact Or.inl member

theorem adoptInside (adoptable : Adoptable F q e list) (p c : Addr) (member : c ∈ adopted F q list p) :
    F.data p ≠ none ∧ F.data c ≠ none := by
  rcases adoptedCases adoptable member with old | ⟨rfl, rfl⟩
  · exact F.inside p c old
  · exact ⟨adoptable.live,adoptable.live'⟩

theorem adoptOnce (adoptable : Adoptable F q e list) (p : Addr) : (adopted F q list p).Nodup := by
  unfold adopted
  split
  · exact adoptable.same.nodup_iff.mpr (List.nodup_cons.mpr ⟨adoptable.root q,F.once q⟩)
  · exact F.once p

theorem adoptOneParent (adoptable : Adoptable F q e list) (p p' c : Addr) (member : c ∈ adopted F q list p)
    (member' : c ∈ adopted F q list p') : p = p' := by
  rcases adoptedCases adoptable member with old | ⟨rfl, rfl⟩
  · rcases adoptedCases adoptable member' with old' | ⟨rfl, rfl⟩
    · exact F.oneParent p p' c old old'
    · exact absurd old (adoptable.root p)
  · rcases adoptedCases adoptable member' with old' | ⟨rfl, _⟩
    · exact absurd old' (adoptable.root p')
    · rfl

theorem adoptRanked (adoptable : Adoptable F q e list) :
    ∃ height : Addr → Nat, ∀ p c, c ∈ adopted F q list p → height c < height p := by
  classical
  obtain ⟨height, ranks⟩ := F.ranked
  refine ⟨fun x => if F.Below x q then height x + height e + 1 else height x,fun p c member => ?_⟩
  rcases adoptedCases adoptable member with old | ⟨rfl, rfl⟩
  · have less := ranks p c old
    rcases Classical.em (F.Below c q) with above | apart
    · simp only [if_pos above, if_pos (belowChild old above)]
      omega
    · simp only [if_neg apart]
      split <;> omega
  · simp only [if_pos (belowSelf p), if_neg adoptable.apart]
    omega

def adopt (adoptable : Adoptable F q e list) : Family δ where
  data := F.data
  children := adopted F q list
  inside := adoptInside adoptable
  once := adoptOnce adoptable
  oneParent := adoptOneParent adoptable
  ranked := adoptRanked adoptable

end Adopt

section Prune
variable (F) (gone : Addr → Prop)

open Classical in
noncomputable def keptData (x : Addr) : Option δ := if gone x then none else F.data x

open Classical in
noncomputable def keptChildren (q : Addr) : List Addr := (F.children q).filter fun c => ¬gone c

variable {F gone}

theorem keptMember {q c : Addr} : c ∈ keptChildren F gone q ↔ c ∈ F.children q ∧ ¬gone c := by
  classical
  rw [keptChildren, List.mem_filter, decide_eq_true_iff]

theorem pruneInside (closed : ∀ q c, c ∈ F.children q → gone q → gone c) (q c : Addr)
    (member : c ∈ keptChildren F gone q) : keptData F gone q ≠ none ∧ keptData F gone c ≠ none := by
  obtain ⟨old, stays⟩ := keptMember.mp member
  unfold keptData
  rw [if_neg fun lost => stays (closed q c old lost), if_neg stays]
  exact F.inside q c old

theorem pruneOnce (q : Addr) : (keptChildren F gone q).Nodup := (F.once q).filter _

theorem pruneOneParent (q q' c : Addr) (member : c ∈ keptChildren F gone q) (member' : c ∈ keptChildren F gone q') :
    q = q' := F.oneParent q q' c (keptMember.mp member).1 (keptMember.mp member').1

theorem pruneRanked : ∃ height : Addr → Nat, ∀ q c, c ∈ keptChildren F gone q → height c < height q := by
  obtain ⟨height, ranks⟩ := F.ranked
  exact ⟨height,fun q c member => ranks q c (keptMember.mp member).1⟩

variable (F gone)

noncomputable def prune (closed : ∀ q c, c ∈ F.children q → gone q → gone c) : Family δ where
  data := keptData F gone
  children := keptChildren F gone
  inside := pruneInside closed
  once := pruneOnce
  oneParent := pruneOneParent
  ranked := pruneRanked

variable {F gone} {gone' : Addr → Prop}

theorem pruneSame {closed : ∀ q c, c ∈ F.children q → gone q → gone c}
    {closed' : ∀ q c, c ∈ F.children q → gone' q → gone' c} (iff : ∀ x, gone x ↔ gone' x) :
    F.prune gone closed = F.prune gone' closed' := by
  obtain rfl : gone = gone' := funext fun x => propext (iff x)
  rfl

theorem pruneNothing {closed : ∀ q c, c ∈ F.children q → gone q → gone c} (nothing : ∀ x, ¬gone x) :
    F.prune gone closed = F := by
  classical
  refine same (funext fun x => if_neg (nothing x)) (funext fun q => ?_)
  exact List.filter_eq_self.mpr fun c _ => decide_eq_true (nothing c)

theorem pruneTwice {closed : ∀ q c, c ∈ F.children q → gone q → gone c}
    {closed' : ∀ q c, c ∈ (F.prune gone closed).children q → gone' q → gone' c}
    {closed'' : ∀ q c, c ∈ F.children q → gone q ∨ gone' q → gone c ∨ gone' c} :
    (F.prune gone closed).prune gone' closed' = F.prune (fun x => gone x ∨ gone' x) closed'' := by
  classical
  refine same (funext fun x => ?_) (funext fun q => ?_)
  · change keptData (F.prune gone closed) gone' x = keptData F (fun x => gone x ∨ gone' x) x
    unfold keptData
    change (if gone' x then none else keptData F gone x) = _
    unfold keptData
    rcases Classical.em (gone x) with first | first
    · simp [first]
    · simp [first]
  · change ((F.children q).filter _).filter _ = (F.children q).filter _
    rw [List.filter_filter]
    refine List.filter_congr fun c _ => ?_
    simp [Bool.and_comm]

theorem belowClosed (a : Addr) (q c : Addr) (member : c ∈ F.children q) (below : F.Below a q) : F.Below a c :=
  .tail below member

theorem belowPruned {closed : ∀ q c, c ∈ F.children q → gone q → gone c} {a x : Addr} :
    (F.prune gone closed).Below a x ∨ gone x ↔ F.Below a x ∨ gone x := by
  constructor
  · intro held
    rcases held with below | lost
    · refine Or.inl ?_
      induction below with
      | refl => exact belowSelf a
      | tail _ member ih => exact .tail ih (keptMember.mp member).1
    · exact Or.inr lost
  · intro held
    rcases held with below | lost
    · induction below with
      | refl => exact Or.inl (belowSelf a)
      | @tail q c _ member ih =>
        rcases Classical.em (gone c) with lost | stays
        · exact Or.inr lost
        · rcases ih with path | lost
          · exact Or.inl (.tail path (keptMember.mpr ⟨member,stays⟩))
          · exact absurd (closed q c member lost) stays
    · exact Or.inr lost

end Prune

section Orphan
variable (F) (a : Addr)

def left (q : Addr) : List Addr := (F.children q).erase a

variable {F a}

theorem leftMember {q c : Addr} : c ∈ left F a q ↔ c ≠ a ∧ c ∈ F.children q := (F.once q).mem_erase_iff

theorem orphanInside (q c : Addr) (member : c ∈ left F a q) : F.data q ≠ none ∧ F.data c ≠ none :=
  F.inside q c (leftMember.mp member).2

theorem orphanOnce (q : Addr) : (left F a q).Nodup := (F.once q).erase a

theorem orphanOneParent (q q' c : Addr) (member : c ∈ left F a q) (member' : c ∈ left F a q') : q = q' :=
  F.oneParent q q' c (leftMember.mp member).2 (leftMember.mp member').2

theorem orphanRanked : ∃ height : Addr → Nat, ∀ q c, c ∈ left F a q → height c < height q := by
  obtain ⟨height, ranks⟩ := F.ranked
  exact ⟨height,fun q c member => ranks q c (leftMember.mp member).2⟩

variable (F a)

/- A node that becomes a root. -/
def orphan : Family δ where
  data := F.data
  children := left F a
  inside := orphanInside
  once := orphanOnce
  oneParent := orphanOneParent
  ranked := orphanRanked

theorem orphanRoot : (F.orphan a).Root a := fun _ member => (leftMember.mp member).1 rfl

end Orphan

end Family

end Lib.Forest
