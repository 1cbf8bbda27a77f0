import PennDaq.Lib.ForestImages

/-! Nodes taken out of their list, and nodes that are new. -/
namespace Lib.ForestRemoval
open Lib.Forest Lib.LinkedForest Lib.ForestImages

variable {δ : Type} {holds : δ → Bool} {m : Memory δ} {F : Family δ}

def relinked (q : Addr) (c : Cell δ) (x : Addr) (d : Cell δ) : Cell δ :=
  { d with
    prev := if c.next = some x then c.prev else d.prev
    next := if c.prev = some x then c.next else d.next
    head := if c.prev = none ∧ x = q then c.next else d.head
    tail := if c.next = none ∧ x = q then c.prev else d.tail }

theorem writeMapped {a : Addr} {c : Cell δ} (held : m.cells a = some c) (change : Cell δ → Cell δ) :
    ∃ m', m.write a change = some m' ∧ m'.fresh = m.fresh ∧
      ∀ x, m'.cells x = (m.cells x).map fun d => if x = a then change d else d := by
  obtain ⟨m', done, fresh, cells⟩ := Memory.writeSome held change
  refine ⟨m',done,fresh,fun x => ?_⟩
  rw [cells]
  split
  case isTrue same => rw [same, held, Option.map_some]
  case isFalse => exact Option.map_id'.symm

theorem writeEndsMapped {a : Addr} {c : Cell δ} (held : m.cells a = some c) (room : holds c.data = true)
    (change : Cell δ → Cell δ) : ∃ m', writeEnds holds a change m = some m' ∧ m'.fresh = m.fresh ∧
      ∀ x, m'.cells x = (m.cells x).map fun d => if x = a then change d else d := by
  unfold writeEnds
  rw [endsSome held room]
  exact writeMapped held change

theorem tellBeforeCells {q : Addr} {c cq : Cell δ} (held : m.cells q = some cq) (room : holds cq.data = true)
    (before : ∀ p, c.prev = some p → m.cells p ≠ none) :
    ∃ m', tellBefore holds q c m = some m' ∧ m'.fresh = m.fresh ∧
      ∀ x, m'.cells x = (m.cells x).map fun d => { d with
        next := if c.prev = some x then c.next else d.next
        head := if c.prev = none ∧ x = q then c.next else d.head } := by
  unfold tellBefore
  cases prev : c.prev with
  | none =>
    obtain ⟨m', done, fresh, cells⟩ := writeEndsMapped held room fun d => { d with head := c.next }
    refine ⟨m',done,fresh,fun x => ?_⟩
    rw [cells]
    congr 1
    funext d
    rcases eq_or_ne x q with same | other
    · simp [same]
    · simp [other]
  | some p =>
    obtain ⟨cp, held'⟩ := Option.ne_none_iff_exists'.mp (before p prev)
    obtain ⟨m', done, fresh, cells⟩ := writeMapped held' fun d => { d with next := c.next }
    refine ⟨m',done,fresh,fun x => ?_⟩
    rw [cells]
    congr 1
    funext d
    rcases eq_or_ne x p with same | other
    · simp [same]
    · simp [other, other.symm]

theorem tellAfterCells {q : Addr} {c cq : Cell δ} (held : m.cells q = some cq) (room : holds cq.data = true)
    (after : ∀ n, c.next = some n → m.cells n ≠ none) :
    ∃ m', tellAfter holds q c m = some m' ∧ m'.fresh = m.fresh ∧
      ∀ x, m'.cells x = (m.cells x).map fun d => { d with
        prev := if c.next = some x then c.prev else d.prev
        tail := if c.next = none ∧ x = q then c.prev else d.tail } := by
  unfold tellAfter
  cases next : c.next with
  | none =>
    obtain ⟨m', done, fresh, cells⟩ := writeEndsMapped held room fun d => { d with tail := c.prev }
    refine ⟨m',done,fresh,fun x => ?_⟩
    rw [cells]
    congr 1
    funext d
    rcases eq_or_ne x q with same | other
    · simp [same]
    · simp [other]
  | some n =>
    obtain ⟨cn, held'⟩ := Option.ne_none_iff_exists'.mp (after n next)
    obtain ⟨m', done, fresh, cells⟩ := writeMapped held' fun d => { d with prev := c.prev }
    refine ⟨m',done,fresh,fun x => ?_⟩
    rw [cells]
    congr 1
    funext d
    rcases eq_or_ne x n with same | other
    · simp [same]
    · simp [other, other.symm]

theorem removeCells {forget : δ → δ} {node q : Addr} {c cq : Cell δ} (held : m.cells node = some c)
    (held' : m.cells q = some cq) (room : holds cq.data = true) (child : c.parent = some q) (other : node ≠ q)
    (before : ∀ p, c.prev = some p → p ≠ node ∧ m.cells p ≠ none)
    (after : ∀ n, c.next = some n → n ≠ node ∧ m.cells n ≠ none) :
    ∃ m', removeFromParent holds forget node m = some m' ∧ m'.fresh = m.fresh ∧ ∀ x, m'.cells x =
      if x = node then some { c with parent := none, prev := none, next := none, data := forget c.data }
      else (m.cells x).map (relinked q c x) := by
  have apart : c.prev ≠ some node := fun same => (before node same).1 rfl
  have apart' : c.next ≠ some node := fun same => (after node same).1 rfl
  obtain ⟨m₁, done₁, fresh₁, cells₁⟩ := tellBeforeCells held' room fun p same => (before p same).2
  have held₁ : m₁.cells node = some c := by
    rw [cells₁, held, Option.map_some]
    simp [apart, other]
  have parent₁ := cells₁ q
  rw [held', Option.map_some] at parent₁
  have live₁ : ∀ n, c.next = some n → m₁.cells n ≠ none := fun n same => by
    rw [cells₁, ne_eq, Option.map_eq_none_iff]
    exact (after n same).2
  obtain ⟨m₂, done₂, fresh₂, cells₂⟩ := tellAfterCells parent₁ room live₁
  have held₂ : m₂.cells node = some c := by
    rw [cells₂, held₁, Option.map_some]
    simp [apart', other]
  obtain ⟨m₃, done₃, fresh₃, cells₃⟩ := Memory.writeSome held₂ fun d =>
    { d with parent := none, prev := none, next := none, data := forget d.data }
  refine ⟨m₃,?_,by omega,fun x => ?_⟩
  · unfold removeFromParent
    simp only [Option.bind_eq_bind, held, Option.bind_some, child, done₁, held₁, done₂, done₃]
  · rw [cells₃]
    split
    · rfl
    · rw [cells₂, cells₁, Option.map_map]
      rfl

theorem rootLeft {node x : Addr} (other : x ≠ node) (root : ∀ p, x ∉ F.left node p) : F.Root x := fun p member =>
  root p (Family.leftMember.mpr ⟨other,member⟩)

section Removed
variable {node q : Addr} {front back : List Addr} {c : Cell δ} (split : F.children q = front ++ node::back)

include split

theorem leftHere : F.left node q = front ++ back := by
  have once := F.once q
  rw [split] at once
  have apart := (List.nodup_cons.mp (List.nodup_middle.mp once)).1
  rw [Family.left, split, List.erase_append_right _ fun member => apart (List.mem_append_left _ member),
    List.erase_cons_head]

theorem leftElsewhere {p : Addr} (other : p ≠ q) : F.left node p = F.children p :=
  List.erase_of_not_mem fun member => other (F.oneParent p q node member (middleMember split))

theorem placesLeft {x p : Addr} {f b : List Addr} (place : F.left node p = f ++ x::b) :
    (p ≠ q ∧ F.children p = f ++ x::b) ∨
      (p = q ∧ ∃ b', front = f ++ x::b' ∧ b = b' ++ back) ∨ (p = q ∧ ∃ f', back = f' ++ x::b ∧ f = front ++ f') := by
  rcases eq_or_ne p q with rfl | other
  · rw [leftHere split] at place
    rcases List.append_eq_append_iff.mp place with ⟨f', same, rest⟩ | ⟨b', same, rest⟩
    · exact Or.inr (Or.inr ⟨rfl,f',rest,same⟩)
    · cases b' with
      | nil =>
        rw [List.append_nil] at same
        exact Or.inr (Or.inr ⟨rfl,[],rest.symm,by rw [same, List.append_nil]⟩)
      | cons y b' =>
        have parts := List.cons.inj rest
        exact Or.inr (Or.inl ⟨rfl,b',by rw [same, parts.1],parts.2⟩)
  · rw [leftElsewhere split other] at place
    exact Or.inl ⟨other,place⟩

theorem notNeighbour (right : Right holds F node c) {x : Addr} (out : x ∉ F.children q) :
    c.next ≠ some x ∧ c.prev ≠ some x := by
  obtain ⟨_, before, after⟩ := right.child q front back split
  rw [split] at out
  constructor
  · intro same
    refine out (List.mem_append_right _ (List.mem_cons_of_mem _ ?_))
    exact List.mem_of_head? (after.symm.trans same)
  · intro same
    refine out (List.mem_append_left _ ?_)
    exact List.mem_of_getLast? (before.symm.trans same)

theorem removedRight {x : Addr} {d : Cell δ} {value : δ} (right : Right holds F node c) (right' : Right holds F x d)
    (other : x ≠ node) : Right holds ((F.orphan node).plant node value) x (relinked q c x d) := by
  obtain ⟨_, before, after⟩ := right.child q front back split
  refine ⟨(if_neg other).trans right'.data,?_,?_,?_,?_,?_⟩
  · change (if c.prev = none ∧ x = q then c.next else d.head) = (F.left node x).head?
    rcases eq_or_ne x q with rfl | apart
    · rw [leftHere split, right'.head, before, split]
      cases front with
      | nil => simp [after]
      | cons y front => simp
    · rw [leftElsewhere split apart, right'.head, if_neg fun both => apart both.2]
  · change (if c.next = none ∧ x = q then c.prev else d.tail) = (F.left node x).getLast?
    rcases eq_or_ne x q with rfl | apart
    · rw [leftHere split, right'.tail, after, split]
      cases back with
      | nil => simp [before]
      | cons y back => simp
    · rw [leftElsewhere split apart, right'.tail, if_neg fun both => apart both.2]
  -- A place that is left is an old one: not beside the node, before it, or behind it.
  · intro p f b place
    rcases placesLeft split place with ⟨apart, old⟩ | ⟨rfl, b', rfl, rfl⟩ | ⟨rfl, f', rfl, rfl⟩
    · have out : x ∉ F.children q := fun member => apart (F.oneParent p q x (middleMember old) member)
      obtain ⟨notNext, notPrev⟩ := notNeighbour split right out
      obtain ⟨up, first, last⟩ := right'.child p f b old
      exact ⟨up,(if_neg notNext).trans first,(if_neg notPrev).trans last⟩
    · -- before the node
      have once := F.once p
      rw [split] at once
      obtain ⟨up, first, last⟩ := right'.child p f (b' ++ node::back) (by rw [split]; simp)
      have notNext : c.next ≠ some x := fun same => by
        have member := List.mem_of_head? (after.symm.trans same)
        exact List.disjoint_of_nodup_append once (by simp) (List.mem_cons_of_mem _ member)
      refine ⟨up,(if_neg notNext).trans first,?_⟩
      cases b' with
      | nil => exact (if_pos (before.trans List.getLast?_concat)).trans after
      | cons y b' =>
        have notPrev : c.prev ≠ some x := fun same => by
          have last' : (y::b').getLast? = some x := by
            rw [← same, before]
            simp [List.getLast?_cons]
          have apart := (List.nodup_cons.mp (List.nodup_middle.mp (List.Nodup.of_append_left once))).1
          exact apart (List.mem_append_right _ (List.mem_of_getLast? last'))
        exact (if_neg notPrev).trans last
    · -- behind it
      have once := F.once p
      rw [split] at once
      obtain ⟨up, first, last⟩ := right'.child p (front ++ node::f') b (by rw [split]; simp)
      have notPrev : c.prev ≠ some x := fun same => by
        have member := List.mem_of_getLast? (before.symm.trans same)
        exact List.disjoint_of_nodup_append once member (by simp)
      refine ⟨up,?_,(if_neg notPrev).trans last⟩
      rcases List.eq_nil_or_concat f' with rfl | ⟨f', y, rfl⟩
      · exact (if_pos after).trans (before.trans (by simp))
      · have notNext : c.next ≠ some x := fun same => by
          have first' : (f'.concat y).head? = some x := by
            rw [← same, after]
            simp
          have apart := (List.nodup_cons.mp (List.nodup_middle.mp
            (List.nodup_cons.mp (List.Nodup.of_append_right once)).2)).1
          exact apart (List.mem_append_left _ (List.mem_of_head? first'))
        refine (if_neg notNext).trans (first.trans ?_)
        simp [List.getLast?_cons]
  · intro root
    have none : F.Root x := rootLeft other root
    obtain ⟨up, first, last⟩ := right'.root none
    obtain ⟨notNext, notPrev⟩ := notNeighbour split right (none q)
    exact ⟨up,(if_neg notNext).trans first,(if_neg notPrev).trans last⟩
  · intro none
    change F.left node x = []
    rw [Family.left, right'.leaf none, List.erase_nil]

theorem removedImage (image : Image holds m F) {forget : δ → δ} (keeps : ∀ d, holds (forget d) = holds d)
    (right : Right holds F node c) {m' : Memory δ} (cells : ∀ x, m'.cells x =
      if x = node then some { c with parent := none, prev := none, next := none, data := forget c.data }
      else (m.cells x).map (relinked q c x)) : Image holds m' ((F.orphan node).plant node (forget c.data)) := by
  have own : F.left node node = F.children node := List.erase_of_not_mem (Family.notOwnChild node)
  refine ⟨fun a vacant => ?_,fun a c' stored => ?_⟩
  · rw [cells] at vacant
    split at vacant
    case isTrue => cases vacant
    case isFalse other => exact (if_neg other).trans (image.vacant a (Option.map_eq_none_iff.mp vacant))
  · rw [cells] at stored
    split at stored
    case isTrue same =>
      subst same
      cases stored
      refine ⟨if_pos rfl,right.head.trans (congrArg _ own.symm),right.tail.trans (congrArg _ own.symm),?_,
        fun _ => ⟨rfl,rfl,rfl⟩,fun none => own.trans (right.leaf ((keeps _).symm.trans none))⟩
      intro p f b place
      exact absurd (middleMember place) fun member => (Family.leftMember.mp member).1 rfl
    case isFalse other =>
      obtain ⟨d, held, rfl⟩ := Option.map_eq_some_iff.mp stored
      exact removedRight split right (image.right a d held) other

end Removed

theorem removeImage (image : Image holds m F) {forget : δ → δ} (keeps : ∀ d, holds (forget d) = holds d) {node : Addr}
    {d : δ} (live : F.data node = some d) :
    ∃ m', removeFromParent holds forget node m = some m' ∧ m'.fresh = m.fresh ∧
      (F.Root node → m' = m) ∧
      (¬F.Root node → Image holds m' ((F.orphan node).plant node (forget d))) := by
  obtain ⟨c, held⟩ := image.live (fun none => nomatch live.symm.trans none)
  have right := image.right node c held
  have same : c.data = d := Option.some.inj (right.data.symm.trans live)
  rcases Classical.em (F.Root node) with root | child
  · refine ⟨m,?_,rfl,fun _ => rfl,fun child => absurd root child⟩
    unfold removeFromParent
    rw [held, Option.bind_eq_bind, Option.bind_some, (right.root root).1]
  · obtain ⟨q, member⟩ := not_forall_not.mp child
    obtain ⟨front, back, split⟩ := List.append_of_mem member
    obtain ⟨up, before, after⟩ := right.child q front back split
    obtain ⟨cq, held'⟩ := image.live (F.inside q node member).1
    have parent := image.right q cq held'
    have room : holds cq.data = true := by
      rcases Bool.eq_false_or_eq_true (holds cq.data) with yes | no
      · exact yes
      · rw [parent.leaf no] at member
        cases member
    have apart : node ∉ front ∧ node ∉ back := by
      have once := F.once q
      rw [split] at once
      have out := (List.nodup_cons.mp (List.nodup_middle.mp once)).1
      exact ⟨fun inside => out (List.mem_append_left _ inside),fun inside => out (List.mem_append_right _ inside)⟩
    have sibling : ∀ x, x ∈ F.children q → m.cells x ≠ none := fun x inside vacant =>
      (F.inside q x inside).2 (image.vacant x vacant)
    have first : ∀ p, c.prev = some p → p ≠ node ∧ m.cells p ≠ none := fun p prev => by
      have inside := List.mem_of_getLast? (before.symm.trans prev)
      exact ⟨fun same => apart.1 (same ▸ inside),sibling p (split ▸ List.mem_append_left _ inside)⟩
    have last : ∀ n, c.next = some n → n ≠ node ∧ m.cells n ≠ none := fun n next => by
      have inside := List.mem_of_head? (after.symm.trans next)
      exact ⟨fun same => apart.2 (same ▸ inside),
        sibling n (split ▸ List.mem_append_right _ (List.mem_cons_of_mem _ inside))⟩
    have other : node ≠ q := fun same => Family.notOwnChild q (same ▸ member)
    obtain ⟨m', done, fresh, cells⟩ := @removeCells _ _ _ forget _ _ _ _ held held' room up other first last
    refine ⟨m',done,fresh,fun root => absurd root child,fun _ => ?_⟩
    rw [← same]
    exact removedImage split image keeps right cells

theorem plantedRight {a x : Addr} {c : Cell δ} {d : δ} (right : Right holds F x c) (other : x ≠ a) :
    Right holds (F.plant a d) x c := by
  obtain ⟨data, head, tail, child, root, leaf⟩ := right
  exact ⟨(if_neg other).trans data,head,tail,child,root,leaf⟩

theorem relabelImage (image : Image holds m F) {a : Addr} {d : δ} (live : F.data a = some d) (relabel : δ → δ)
    (same : holds (relabel d) = holds d) :
    ∃ m', m.write a (fun c => { c with data := relabel c.data }) = some m' ∧ m'.fresh = m.fresh ∧
      Image holds m' (F.plant a (relabel d)) := by
  obtain ⟨c, held⟩ := image.live (fun none => nomatch live.symm.trans none)
  obtain ⟨m', done, fresh, cells⟩ := Memory.writeSome held fun c => { c with data := relabel c.data }
  refine ⟨m',done,fresh,fun x vacant => ?_,fun x c' stored => ?_⟩
  · rw [cells] at vacant
    split at vacant
    case isTrue => cases vacant
    case isFalse other => exact (if_neg other).trans (image.vacant x vacant)
  · rw [cells] at stored
    split at stored
    case isTrue here =>
      subst here
      cases stored
      obtain ⟨data, head, tail, child, root, leaf⟩ := image.right x c held
      obtain rfl : c.data = d := Option.some.inj (data.symm.trans live)
      exact ⟨if_pos rfl,head,tail,child,root,fun none => leaf (same.symm.trans none)⟩
    case isFalse other => exact plantedRight (image.right x c' stored) other

theorem vacantApart {a : Addr} (vacant : F.data a = none) : F.Root a ∧ F.children a = [] := by
  refine ⟨fun q member => (F.inside q a member).2 vacant,List.eq_nil_iff_forall_not_mem.mpr fun c member => ?_⟩
  exact (F.inside a c member).1 vacant

theorem allocImage (image : Image holds m F) (d : δ) :
    (m.alloc d).1 = m.fresh ∧ F.data m.fresh = none ∧ Image holds (m.alloc d).2 (F.plant m.fresh d) := by
  have vacant : F.data m.fresh = none := image.vacant _ (m.behind _ (Nat.le_refl _))
  obtain ⟨root, childless⟩ := vacantApart vacant
  refine ⟨rfl,vacant,fun x empty => ?_,fun x c stored => ?_⟩
  · change m.put m.fresh _ x = none at empty
    unfold Memory.put at empty
    split at empty
    case isTrue => cases empty
    case isFalse other => exact (if_neg other).trans (image.vacant x empty)
  · change m.put m.fresh _ x = some c at stored
    unfold Memory.put at stored
    split at stored
    case isTrue here =>
      subst here
      cases stored
      refine ⟨if_pos rfl,?_,?_,fun q front back split => absurd (middleMember split) (root q),fun _ => ⟨rfl,rfl,rfl⟩,
        fun _ => childless⟩
      · exact (congrArg List.head? childless).symm
      · exact (congrArg List.getLast? childless).symm
    case isFalse other => exact plantedRight (image.right x c stored) other

end Lib.ForestRemoval
