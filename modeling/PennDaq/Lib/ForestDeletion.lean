import PennDaq.Lib.ForestRemoval

/-! Deleting a node frees it and all that is below it, each cell once, and nothing else. -/
namespace Lib.ForestDeletion
open Lib.Forest Lib.LinkedForest Lib.ForestImages Lib.ForestRemoval

variable {δ : Type} {holds : δ → Bool} {m : Memory δ} {F : Family δ}

noncomputable def without (F : Family δ) (node : Addr) : Family δ := F.prune (F.Below node) (Family.belowClosed node)

theorem childrenClosed (list : List Addr) (q x : Addr) (member : x ∈ F.children q)
    (below : ∃ c ∈ list, F.Below c q) : ∃ c ∈ list, F.Below c x := by
  obtain ⟨c, inside, path⟩ := below
  exact ⟨c,inside,.tail path member⟩

noncomputable def withoutAll (F : Family δ) (list : List Addr) : Family δ :=
  F.prune (fun x => ∃ c ∈ list, F.Below c x) (childrenClosed list)

theorem withoutNone : withoutAll F [] = F := Family.pruneNothing fun x none => by
  obtain ⟨c, member, _⟩ := none
  cases member

theorem eitherClosed (c : Addr) (list : List Addr) (q x : Addr) (member : x ∈ F.children q)
    (below : F.Below c q ∨ ∃ c' ∈ list, (without F c).Below c' q) :
    F.Below c x ∨ ∃ c' ∈ list, (without F c).Below c' x := by
  rcases Classical.em (F.Below c x) with first | stays
  · exact Or.inl first
  · rcases below with lost | ⟨c', inside, path⟩
    · exact absurd (.tail lost member) stays
    · exact Or.inr ⟨c',inside,.tail path (Family.keptMember.mpr ⟨member,stays⟩)⟩

theorem withoutMore (c : Addr) (list : List Addr) : withoutAll (without F c) list = withoutAll F (c::list) := by
  have twice : withoutAll (without F c) list = F.prune (fun x => F.Below c x ∨ ∃ c' ∈ list, (without F c).Below c' x)
      (eitherClosed c list) := Family.pruneTwice
  refine twice.trans (Family.pruneSame fun x => ?_)
  have pruned : ∀ c', (without F c).Below c' x ∨ F.Below c x ↔ F.Below c' x ∨ F.Below c x := fun _ => Family.belowPruned
  rw [List.exists_mem_cons_iff]
  constructor
  · intro held
    rcases held with first | ⟨c', inside, path⟩
    · exact Or.inl first
    · rcases (pruned c').mp (Or.inl path) with path | first
      · exact Or.inr ⟨c',inside,path⟩
      · exact Or.inl first
  · intro held
    rcases held with first | ⟨c', inside, path⟩
    · exact Or.inl first
    · rcases (pruned c').mpr (Or.inl path) with path | first
      · exact Or.inr ⟨c',inside,path⟩
      · exact Or.inl first

theorem belowChildless {node x : Addr} (childless : F.children node = []) : F.Below node x ↔ x = node := by
  rw [Family.belowCases, childless]
  simp

theorem withoutChildless {node : Addr} (root : F.Root node) (childless : F.children node = []) :
    (without F node).children = F.children := by
  classical
  funext q
  refine List.filter_eq_self.mpr fun c member => decide_eq_true ?_
  rw [belowChildless childless]
  exact fun same => root q (same ▸ member)

theorem freeImage (image : Image holds m F) {node : Addr} (root : F.Root node) (childless : F.children node = [])
    (live : F.data node ≠ none) : ∃ m', m.free node = some m' ∧ m'.fresh = m.fresh ∧ Image holds m' (without F node) := by
  obtain ⟨c, held⟩ := image.live live
  obtain ⟨m', done, fresh, cells⟩ := Memory.freeSome (fun none => nomatch held.symm.trans none)
  have children := withoutChildless root childless
  refine ⟨m',done,fresh,fun x vacant => ?_,fun x c' stored => ?_⟩
  · rw [cells] at vacant
    split at vacant
    case isTrue same => exact if_pos ((belowChildless childless).mpr same)
    case isFalse other =>
      exact (if_neg fun below => other ((belowChildless childless).mp below)).trans (image.vacant x vacant)
  · rw [cells] at stored
    split at stored
    case isTrue => cases stored
    case isFalse other =>
      obtain ⟨data, head, tail, child, root', leaf⟩ := image.right x c' stored
      refine ⟨(if_neg fun below => other ((belowChildless childless).mp below)).trans data,?_,?_,?_,?_,?_⟩
      · rw [children, head]
      · rw [children, tail]
      · rw [children]
        exact child
      · unfold Family.Root
        rw [children]
        exact root'
      · rw [children]
        exact leaf

theorem belowOrphan {node x : Addr} {value : δ} : ((F.orphan node).plant node value).Below node x ↔ F.Below node x := by
  constructor
  · intro below
    induction below with
    | refl => exact Family.belowSelf node
    | tail _ member ih => exact .tail ih (Family.leftMember.mp member).2
  · intro below
    induction below with
    | refl => exact Family.belowSelf node
    | @tail q c path member ih =>
      refine .tail ih (Family.leftMember.mpr ⟨fun same => ?_,member⟩)
      exact Family.notAboveSelf member (same ▸ path)

theorem withoutOrphan {node : Addr} {value : δ} : without ((F.orphan node).plant node value) node = without F node := by
  classical
  refine Family.same (funext fun x => ?_) (funext fun q => ?_)
  · change Family.keptData _ _ x = Family.keptData _ _ x
    unfold Family.keptData
    simp only [belowOrphan]
    split
    case isTrue => rfl
    case isFalse above =>
      have other : x ≠ node := fun same => above (by rw [same]; exact Family.belowSelf node)
      exact if_neg other
  · change ((F.children q).erase node).filter _ = (F.children q).filter _
    rw [List.Nodup.erase_eq_filter (F.once q), List.filter_filter]
    refine List.filter_congr fun c _ => ?_
    simp only [belowOrphan]
    rcases eq_or_ne c node with rfl | other
    · simp [Family.belowSelf]
    · simp [other]

theorem notBelowChildren (node : Addr) : ¬∃ c ∈ F.children node, F.Below c node := by
  intro below
  obtain ⟨c, member, path⟩ := below
  exact Family.notAboveSelf member path

theorem emptied (node : Addr) : (withoutAll F (F.children node)).children node = [] := by
  refine List.eq_nil_iff_forall_not_mem.mpr fun c inside => ?_
  obtain ⟨member, stays⟩ := Family.keptMember.mp inside
  exact stays ⟨c,member,Family.belowSelf c⟩

theorem withoutEmptied (node : Addr) : without (withoutAll F (F.children node)) node = without F node := by
  have alone : ∀ x, (withoutAll F (F.children node)).Below node x ↔ x = node := fun x => belowChildless (emptied node)
  have closed : ∀ q x, x ∈ F.children q → (∃ c ∈ F.children node, F.Below c q) ∨ (withoutAll F (F.children node)).Below node q →
      (∃ c ∈ F.children node, F.Below c x) ∨ (withoutAll F (F.children node)).Below node x := by
    intro q x member either
    rcases either with lost | below
    · exact Or.inl (childrenClosed _ q x member lost)
    · rw [(alone q).mp below] at member
      exact Or.inl ⟨x,member,Family.belowSelf x⟩
  have twice : without (withoutAll F (F.children node)) node = F.prune _ closed := Family.pruneTwice
  refine twice.trans (Family.pruneSame fun x => ?_)
  rw [alone, or_comm]
  exact Family.belowCases.symm

section Walk
variable {forget : δ → δ}

/- Deleting frees exactly the node and what is below it, for nodes of a smaller height. -/
def Deletes (holds : δ → Bool) (forget : δ → δ) (most : Nat) : Prop :=
  ∀ (m : Memory δ) (F : Family δ) (height : Addr → Nat) (node : Addr),
    (∀ q c, c ∈ F.children q → height c < height q) → height node < most → Image holds m F → F.data node ≠ none →
    ∃ m', m'.fresh = m.fresh ∧ Image holds m' (without F node) ∧
      ∃ enough, ∀ passes, enough ≤ passes → delete holds forget passes node m = some m'

theorem deleteNothing (passes : Nat) (m : Memory δ) : deleteChildren holds forget passes none m = some m := by
  cases passes with
  | zero | succ => rfl

theorem deletesChildren {most : Nat} (deletes : Deletes holds forget most) {height : Addr → Nat} {node : Addr}
    (low : height node ≤ most) (list : List Addr) (m : Memory δ) (F : Family δ)
    (ranks : ∀ q c, c ∈ F.children q → height c < height q) (image : Image holds m F) (listed : F.children node = list) :
    ∃ m', m'.fresh = m.fresh ∧ Image holds m' (withoutAll F list) ∧
      ∃ enough, ∀ passes, enough ≤ passes → deleteChildren holds forget passes list.head? m = some m' := by
  induction list generalizing m F with
  | nil =>
    exact ⟨m,rfl,withoutNone ▸ image,0,fun passes _ => deleteNothing passes m⟩
  | cons c list ih =>
    have member : c ∈ F.children node := by
      rw [listed]
      exact List.mem_cons_self
    have live := (F.inside node c member).2
    obtain ⟨cell, held⟩ := image.live live
    obtain ⟨_, _, after⟩ := (image.right c cell held).child node [] list listed
    obtain ⟨m₁, fresh₁, image₁, enough₁, done₁⟩ :=
      deletes m F height c ranks (Nat.lt_of_lt_of_le (ranks node c member) low) image live
    have rest : (without F c).children node = list := by
      classical
      change (F.children node).filter _ = list
      have once := F.once node
      rw [listed] at once
      rw [listed, List.filter_cons_of_neg (by simp [Family.belowSelf])]
      refine List.filter_eq_self.mpr fun x inside => decide_eq_true fun below => ?_
      have sibling : x ∈ F.children node := by
        rw [listed]
        exact List.mem_cons_of_mem _ inside
      rw [Family.siblingsApart member sibling below] at inside
      exact (List.nodup_cons.mp once).1 inside
    have ranks₁ : ∀ q x, x ∈ (without F c).children q → height x < height q := fun q x inside =>
      ranks q x (Family.keptMember.mp inside).1
    obtain ⟨m', fresh', image', enough₂, done₂⟩ := ih m₁ (without F c) ranks₁ image₁ rest
    rw [withoutMore] at image'
    refine ⟨m',fresh'.trans fresh₁,image',enough₁+enough₂+1,fun passes large => ?_⟩
    cases passes with
    | zero => omega
    | succ passes =>
      rw [List.head?_cons, deleteChildren, held, Option.bind_eq_bind, Option.bind_some, done₁ passes (by omega),
        Option.bind_eq_bind, Option.bind_some, after]
      exact done₂ passes (by omega)

theorem removedFamily (keeps : ∀ d, holds (forget d) = holds d) (image : Image holds m F) {height : Addr → Nat}
    (ranks : ∀ q c, c ∈ F.children q → height c < height q) {node : Addr} (live : F.data node ≠ none) :
    ∃ m' F', removeFromParent holds forget node m = some m' ∧ m'.fresh = m.fresh ∧ Image holds m' F' ∧ F'.Root node ∧
      F'.children node = F.children node ∧ F'.data node ≠ none ∧ (∀ q c, c ∈ F'.children q → height c < height q) ∧
      without F' node = without F node := by
  obtain ⟨d, data⟩ := Option.ne_none_iff_exists'.mp live
  obtain ⟨m', done, fresh, kept, removed⟩ := removeImage image keeps data
  rcases Classical.em (F.Root node) with root | child
  · rw [kept root] at done fresh
    exact ⟨m,F,done,rfl,image,root,rfl,live,ranks,rfl⟩
  · refine ⟨m',_,done,fresh,removed child,fun q inside => (Family.leftMember.mp inside).1 rfl,?_,?_,?_,withoutOrphan⟩
    · exact List.erase_of_not_mem (Family.notOwnChild node)
    · exact fun none => nomatch (if_pos rfl).symm.trans none
    · exact fun q c inside => ranks q c (Family.leftMember.mp inside).2

theorem deletesBelow (keeps : ∀ d, holds (forget d) = holds d) (most : Nat) : Deletes holds forget most := by
  induction most with
  | zero => exact fun _ _ _ _ _ low => absurd low (Nat.not_lt_zero _)
  | succ most ih =>
    intro m F height node ranks low image live
    obtain ⟨d, data⟩ := Option.ne_none_iff_exists'.mp live
    obtain ⟨m₁, F₁, done₁, fresh₁, image₁, root, children, live₁, ranks₁, same⟩ :=
      removedFamily keeps image ranks live
    obtain ⟨c, held⟩ := image₁.live live₁
    have right := image₁.right node c held
    obtain ⟨m₂, fresh₂, image₂, enough, done₂⟩ :=
      deletesChildren ih (Nat.lt_succ_iff.mp low) (F₁.children node) m₁ F₁ ranks₁ image₁ rfl
    have root₂ : (withoutAll F₁ (F₁.children node)).Root node := fun q inside => root q (Family.keptMember.mp inside).1
    have live₂ : (withoutAll F₁ (F₁.children node)).data node ≠ none := by
      have stays : (withoutAll F₁ (F₁.children node)).data node = F₁.data node := if_neg (notBelowChildren node)
      rwa [stays]
    obtain ⟨m₃, done₃, fresh₃, image₃⟩ := freeImage image₂ root₂ (emptied node) live₂
    rw [withoutEmptied, same] at image₃
    refine ⟨m₃,by omega,image₃,enough+1,fun passes large => ?_⟩
    cases passes with
    | zero => omega
    | succ passes =>
      have walked := done₂ passes (by omega)
      rw [← right.head] at walked
      rw [delete, done₁, Option.bind_eq_bind, Option.bind_some, held, Option.bind_eq_bind, Option.bind_some]
      split
      case isTrue =>
        rw [walked, Option.bind_some, done₃]
      case isFalse leaf =>
        -- nothing was below it
        have empty : c.head = none := by
          rw [right.head, right.leaf (Bool.eq_false_iff.mpr leaf), List.head?_nil]
        rw [empty, deleteNothing, Option.some.injEq] at walked
        rw [walked, Option.bind_some, done₃]

theorem deleteImage (image : Image holds m F) (keeps : ∀ d, holds (forget d) = holds d) {node : Addr}
    (live : F.data node ≠ none) : ∃ m', m'.fresh = m.fresh ∧ Image holds m' (without F node) ∧
      ∃ enough, ∀ passes, enough ≤ passes → delete holds forget passes node m = some m' := by
  obtain ⟨height, ranks⟩ := F.ranked
  exact deletesBelow keeps (height node+1) m F height node ranks (Nat.lt_succ_self _) image live

end Walk

end Lib.ForestDeletion
