import PennDaq.Lib.LinkedForest

/-! Memory that holds a family, and that appending, prepending and removing keep it so. -/
namespace Lib.ForestImages
open Lib.Forest Lib.LinkedForest

variable {δ : Type} (holds : δ → Bool)

structure Right (F : Family δ) (a : Addr) (c : Cell δ) : Prop where
  data : F.data a = some c.data
  head : c.head = (F.children a).head?
  tail : c.tail = (F.children a).getLast?
  child : ∀ q front back, F.children q = front ++ a::back →
    c.parent = some q ∧ c.prev = front.getLast? ∧ c.next = back.head?
  root : F.Root a → c.parent = none ∧ c.prev = none ∧ c.next = none
  leaf : holds c.data = false → F.children a = []

structure Image (m : Memory δ) (F : Family δ) : Prop where
  vacant : ∀ a, m.cells a = none → F.data a = none
  right : ∀ a c, m.cells a = some c → Right holds F a c

variable {holds} {m : Memory δ} {F : Family δ}

theorem Image.live (image : Image holds m F) {a : Addr} (live : F.data a ≠ none) : ∃ c, m.cells a = some c :=
  Option.ne_none_iff_exists'.mp fun none => live (image.vacant a none)

theorem placeUnique {q p a : Addr} {front back f b : List Addr} (split : F.children q = front ++ a::back)
    (split' : F.children p = f ++ a::b) : p = q ∧ f = front ∧ b = back := by
  have same : p = q := F.oneParent p q a (by simp [split']) (by simp [split])
  subst same
  have once := F.once p
  rw [split] at once
  have apart := List.nodup_middle.mp once
  rw [List.nodup_cons, List.mem_append, not_or] at apart
  rw [split] at split'
  have parts := (List.append_cons_inj_of_notMem apart.1.1 apart.1.2).mp split'
  exact ⟨rfl,parts.1.symm,parts.2.2.symm⟩

theorem endsSome {a : Addr} {c : Cell δ} (held : m.cells a = some c) (room : holds c.data = true) :
    ends holds a m = some c := by
  rw [ends, held, Option.filter_some, if_pos room]

theorem writeEndsSome {a : Addr} {c : Cell δ} (held : m.cells a = some c) (room : holds c.data = true)
    (change : Cell δ → Cell δ) : ∃ m', writeEnds holds a change m = some m' ∧ m'.fresh = m.fresh ∧
      ∀ x, m'.cells x = if x = a then some (change c) else m.cells x := by
  unfold writeEnds
  rw [endsSome held room]
  exact Memory.writeSome held change

def appended (m : Memory δ) (q e : Addr) (cq ce : Cell δ) (x : Addr) : Option (Cell δ) :=
  if x = q then some { cq with head := if cq.tail.isSome then cq.head else some e, tail := some e }
  else if x = e then some { ce with parent := some q, prev := cq.tail, next := none }
  else if cq.tail = some x then (m.cells x).map fun c => { c with next := some e }
  else m.cells x

theorem appendNodeCells {q e : Addr} {cq ce : Cell δ} (other : q ≠ e) (held : m.cells q = some cq)
    (held' : m.cells e = some ce) (room : holds cq.data = true)
    (last : ∀ l, cq.tail = some l → l ≠ q ∧ l ≠ e ∧ ∃ cl, m.cells l = some cl) :
    ∃ m', appendNode holds q e m = some m' ∧ m'.fresh = m.fresh ∧ ∀ x, m'.cells x = appended m q e cq ce x := by
  obtain ⟨m₁, done₁, fresh₁, cells₁⟩ := Memory.writeSome held' fun c => { c with parent := some q }
  have q₁ : m₁.cells q = some cq := by rw [cells₁, if_neg other, held]
  obtain ⟨m₂, done₂, fresh₂, cells₂⟩ :=
    Memory.writeSome ((cells₁ e).trans (if_pos rfl)) fun c => { c with prev := cq.tail }
  have q₂ : m₂.cells q = some cq := by rw [cells₂, if_neg other, q₁]
  obtain ⟨m₃, done₃, fresh₃, cells₃⟩ := Memory.writeSome ((cells₂ e).trans (if_pos rfl)) fun c => { c with next := none }
  have q₃ : m₃.cells q = some cq := by rw [cells₃, if_neg other, q₂]
  have same₃ : ∀ x, x ≠ e → m₃.cells x = m.cells x := fun x apart => by
    rw [cells₃, if_neg apart, cells₂, if_neg apart, cells₁, if_neg apart]
  have child₃ : m₃.cells e = some { ce with parent := some q, prev := cq.tail, next := none } :=
    (cells₃ e).trans (if_pos rfl)
  unfold appendNode appended
  simp only [Option.bind_eq_bind, done₁, Option.bind_some, endsSome q₁ room, done₂, done₃, endsSome q₃ room]
  cases tail : cq.tail with
  | none =>
    obtain ⟨m₄, done₄, fresh₄, cells₄⟩ := writeEndsSome q₃ room fun c => { c with head := some e }
    have q₄ := (cells₄ q).trans (if_pos rfl)
    obtain ⟨m₅, done₅, fresh₅, cells₅⟩ := writeEndsSome q₄ room fun c => { c with tail := some e }
    simp only [done₄, Option.bind_some, done₅]
    refine ⟨m₅,rfl,by omega,fun x => ?_⟩
    rw [cells₅, cells₄]
    split
    case isTrue => rfl
    case isFalse notParent =>
      rcases eq_or_ne x e with rfl | notChild
      · rw [if_pos rfl, child₃, tail]
      · rw [if_neg notChild, same₃ x notChild]
        rfl
  | some l =>
    obtain ⟨apart, apart', cl, heldLast⟩ := last l tail
    obtain ⟨m₄, done₄, fresh₄, cells₄⟩ :=
      Memory.writeSome ((same₃ l apart').trans heldLast) fun c => { c with next := some e }
    have q₄ : m₄.cells q = some cq := by rw [cells₄, if_neg apart.symm, q₃]
    obtain ⟨m₅, done₅, fresh₅, cells₅⟩ := writeEndsSome q₄ room fun c => { c with tail := some e }
    simp only [done₄, Option.bind_some, done₅]
    refine ⟨m₅,rfl,by omega,fun x => ?_⟩
    rw [cells₅, cells₄]
    split
    case isTrue => rfl
    case isFalse notParent =>
      rcases eq_or_ne x e with rfl | notChild
      · rw [if_neg apart'.symm, if_pos rfl, child₃, tail]
      · rw [if_neg notChild, same₃ x notChild]
        rcases eq_or_ne x l with rfl | notLast
        · rw [if_pos rfl, if_pos rfl, heldLast, Option.map_some]
        · rw [if_neg notLast, if_neg fun same => notLast (Option.some.inj same).symm]

theorem appendable {q e : Addr} (root : F.Root e) (live : F.data q ≠ none) (live' : F.data e ≠ none)
    (apart : ¬F.Below e q) : F.Adoptable q e (F.children q ++ [e]) :=
  ⟨root,live,live',apart,List.perm_append_singleton e (F.children q)⟩

theorem placesAppend {l front back : List Addr} {e a : Addr} (split : l ++ [e] = front ++ a::back) :
    (front = l ∧ a = e ∧ back = []) ∨ ∃ b, back = b ++ [e] ∧ l = front ++ a::b := by
  rcases List.eq_nil_or_concat back with rfl | ⟨b, x, rfl⟩
  · have parts := List.append_inj' split rfl
    exact Or.inl ⟨parts.1.symm,(List.cons.inj parts.2).1.symm,rfl⟩
  · have parts := List.append_inj' (split.trans (by simp : _ = (front ++ a::b) ++ [x])) rfl
    exact Or.inr ⟨b,by rw [(List.cons.inj parts.2).1, List.concat_eq_append],parts.1⟩

theorem adoptedHere {q e : Addr} {list : List Addr} (adoptable : F.Adoptable q e list) :
    (F.adopt adoptable).children q = list := if_pos rfl

theorem adoptedElsewhere {q e p : Addr} {list : List Addr} (adoptable : F.Adoptable q e list) (other : p ≠ q) :
    (F.adopt adoptable).children p = F.children p := if_neg other

theorem rootBefore {q e a : Addr} {list : List Addr} (adoptable : F.Adoptable q e list)
    (root : (F.adopt adoptable).Root a) : F.Root a := fun p member => by
  refine root p ?_
  rcases eq_or_ne p q with rfl | other
  · rw [adoptedHere]
    exact adoptable.same.mem_iff.mpr (List.mem_cons_of_mem _ member)
  · rwa [adoptedElsewhere adoptable other]

section Append
variable {q e : Addr} {cq ce : Cell δ} (adoptable : F.Adoptable q e (F.children q ++ [e]))

theorem placesBehind {a : Addr} (notChild : a ≠ e) {p : Addr} {front back : List Addr}
    (split : (F.adopt adoptable).children p = front ++ a::back) :
    p ≠ q ∧ F.children p = front ++ a::back ∨ p = q ∧ ∃ b, back = b ++ [e] ∧ F.children q = front ++ a::b := by
  rcases eq_or_ne p q with rfl | apart
  · rw [adoptedHere] at split
    rcases placesAppend split with ⟨_, same, _⟩ | old
    · exact absurd same notChild
    · exact Or.inr ⟨rfl,old⟩
  · rw [adoptedElsewhere adoptable apart] at split
    exact Or.inl ⟨apart,split⟩

theorem middleMember {l front back : List Addr} {a : Addr} (split : l = front ++ a::back) : a ∈ l := by
  rw [split]
  exact List.mem_append_right _ List.mem_cons_self

theorem parentRight (right : Right holds F q cq) (room : holds cq.data = true) (notChild : q ≠ e) :
    Right holds (F.adopt adoptable) q
      { cq with head := if cq.tail.isSome then cq.head else some e, tail := some e } := by
  refine ⟨right.data,?_,?_,?_,fun root => right.root (rootBefore adoptable root),fun none => ?_⟩
  · rw [adoptedHere, List.head?_append, right.head, right.tail]
    cases F.children q with
    | nil => rfl
    | cons => rfl
  · rw [adoptedHere, List.getLast?_concat]
  · intro p front back split
    rcases placesBehind adoptable notChild split with ⟨_, old⟩ | ⟨rfl, b, _, old⟩
    · exact right.child p front back old
    · exact absurd (middleMember old) (Family.notOwnChild p)
  · exact absurd (room.symm.trans none) Bool.noConfusion

theorem childRight (right : Right holds F q cq) (right' : Right holds F e ce) (notParent : e ≠ q) :
    Right holds (F.adopt adoptable) e { ce with parent := some q, prev := cq.tail, next := none } := by
  refine ⟨right'.data,?_,?_,?_,fun root => ?_,fun none => ?_⟩
  · rw [adoptedElsewhere adoptable notParent, right'.head]
  · rw [adoptedElsewhere adoptable notParent, right'.tail]
  · intro p front back split
    rcases eq_or_ne p q with rfl | apart
    · rw [adoptedHere] at split
      rcases placesAppend split with ⟨rfl, _, rfl⟩ | ⟨b, _, old⟩
      · exact ⟨rfl,right.tail,rfl⟩
      · exact absurd (middleMember old) (adoptable.root p)
    · rw [adoptedElsewhere adoptable apart] at split
      exact absurd (middleMember split) (adoptable.root p)
  · exact absurd (by rw [adoptedHere]; simp) (root q)
  · rw [adoptedElsewhere adoptable notParent, right'.leaf none]

theorem lastRight {a : Addr} {c : Cell δ} (right : Right holds F a c) (last : (F.children q).getLast? = some a)
    (notParent : a ≠ q) (notChild : a ≠ e) : Right holds (F.adopt adoptable) a { c with next := some e } := by
  obtain ⟨front', split'⟩ := List.getLast?_eq_some_iff.mp last
  refine ⟨right.data,?_,?_,?_,fun root => ?_,fun none => ?_⟩
  · rw [adoptedElsewhere adoptable notParent, right.head]
  · rw [adoptedElsewhere adoptable notParent, right.tail]
  · intro p front back split
    rcases placesBehind adoptable notChild split with ⟨apart, old⟩ | ⟨rfl, b, rfl, old⟩
    · exact absurd (placeUnique split' old).1 apart
    · obtain ⟨_, rfl, rfl⟩ := placeUnique split' old
      obtain ⟨up, before, _⟩ := right.child p front [] split'
      exact ⟨up,before,rfl⟩
  · exact absurd (middleMember split') (rootBefore adoptable root q)
  · rw [adoptedElsewhere adoptable notParent, right.leaf none]

theorem otherRight {a : Addr} {c : Cell δ} (right : Right holds F a c) (notLast : (F.children q).getLast? ≠ some a)
    (notParent : a ≠ q) (notChild : a ≠ e) : Right holds (F.adopt adoptable) a c := by
  refine ⟨right.data,?_,?_,?_,fun root => right.root (rootBefore adoptable root),fun none => ?_⟩
  · rw [adoptedElsewhere adoptable notParent, right.head]
  · rw [adoptedElsewhere adoptable notParent, right.tail]
  · intro p front back split
    rcases placesBehind adoptable notChild split with ⟨_, old⟩ | ⟨rfl, b, rfl, old⟩
    · exact right.child p front back old
    · obtain ⟨up, before, after⟩ := right.child p front b old
      refine ⟨up,before,?_⟩
      cases b with
      | nil => exact absurd (by rw [old, List.getLast?_concat]) notLast
      | cons x b => exact after
  · rw [adoptedElsewhere adoptable notParent, right.leaf none]

theorem appendedImage (image : Image holds m F) (right : Right holds F q cq) (right' : Right holds F e ce)
    (room : holds cq.data = true) {m' : Memory δ} (cells : ∀ x, m'.cells x = appended m q e cq ce x) :
    Image holds m' (F.adopt adoptable) := by
  have notChild : q ≠ e := fun same => adoptable.apart (same ▸ Family.belowSelf q)
  refine ⟨fun a vacant => ?_,fun a c stored => ?_⟩
  · rw [cells, appended] at vacant
    split at vacant
    case isTrue => cases vacant
    case isFalse =>
    split at vacant
    case isTrue => cases vacant
    case isFalse =>
    split at vacant
    case isTrue => exact image.vacant a (Option.map_eq_none_iff.mp vacant)
    case isFalse => exact image.vacant a vacant
  · rw [cells, appended] at stored
    split at stored
    case isTrue same =>
      subst same
      cases stored
      exact parentRight adoptable right room notChild
    case isFalse notParent =>
    split at stored
    case isTrue same =>
      subst same
      cases stored
      exact childRight adoptable right right' notParent
    case isFalse notChild' =>
    split at stored
    case isTrue isLast =>
      obtain ⟨c', held, rfl⟩ := Option.map_eq_some_iff.mp stored
      exact lastRight adoptable (image.right a c' held) (right.tail.symm.trans isLast) notParent notChild'
    case isFalse notLast =>
      exact otherRight adoptable (image.right a c stored) (right.tail ▸ notLast) notParent notChild'

end Append

theorem appendNodeImage (image : Image holds m F) {q e : Addr} {d : δ} (live : F.data q = some d)
    (room : holds d = true) (adoptable : F.Adoptable q e (F.children q ++ [e])) :
    ∃ m', appendNode holds q e m = some m' ∧ m'.fresh = m.fresh ∧ Image holds m' (F.adopt adoptable) := by
  obtain ⟨cq, held⟩ := image.live adoptable.live
  obtain ⟨ce, held'⟩ := image.live adoptable.live'
  have right := image.right q cq held
  have other : q ≠ e := fun same => adoptable.apart (same ▸ Family.belowSelf q)
  have last : ∀ l, cq.tail = some l → l ≠ q ∧ l ≠ e ∧ ∃ cl, m.cells l = some cl := fun l tail => by
    have member : l ∈ F.children q := List.mem_of_getLast? (right.tail.symm.trans tail)
    refine ⟨fun same => ?_,fun same => adoptable.root q (same ▸ member),image.live (F.inside q l member).2⟩
    exact Family.notOwnChild q (same ▸ member)
  have room' : holds cq.data = true := by
    rw [right.data, Option.some.injEq] at live
    rwa [live]
  obtain ⟨m', done, fresh, cells⟩ := appendNodeCells other held held' room' last
  exact ⟨m',done,fresh,appendedImage adoptable image right (image.right e ce held') room' cells⟩

def mirrorCell (c : Cell δ) : Cell δ := ⟨c.parent,c.next,c.prev,c.tail,c.head,c.data⟩

theorem mirrorBehind (m : Memory δ) (a : Addr) (above : m.fresh ≤ a) : (m.cells a).map mirrorCell = none := by
  rw [m.behind a above, Option.map_none]

def mirrorMemory (m : Memory δ) : Memory δ := ⟨fun a => (m.cells a).map mirrorCell,m.fresh,mirrorBehind m⟩

theorem mirrorInside (F : Family δ) (q c : Addr) (member : c ∈ (F.children q).reverse) :
    F.data q ≠ none ∧ F.data c ≠ none := F.inside q c (List.mem_reverse.mp member)

theorem mirrorOnce (F : Family δ) (q : Addr) : (F.children q).reverse.Nodup := List.nodup_reverse.mpr (F.once q)

theorem mirrorOneParent (F : Family δ) (q q' c : Addr) (member : c ∈ (F.children q).reverse)
    (member' : c ∈ (F.children q').reverse) : q = q' :=
  F.oneParent q q' c (List.mem_reverse.mp member) (List.mem_reverse.mp member')

theorem mirrorRanked (F : Family δ) :
    ∃ height : Addr → Nat, ∀ q c, c ∈ (F.children q).reverse → height c < height q := by
  obtain ⟨height, ranks⟩ := F.ranked
  exact ⟨height,fun q c member => ranks q c (List.mem_reverse.mp member)⟩

def mirrorFamily (F : Family δ) : Family δ where
  data := F.data
  children := fun q => (F.children q).reverse
  inside := mirrorInside F
  once := mirrorOnce F
  oneParent := mirrorOneParent F
  ranked := mirrorRanked F

theorem mirrorTwice (m : Memory δ) : mirrorMemory (mirrorMemory m) = m := by
  have back : (fun a => ((m.cells a).map mirrorCell).map mirrorCell) = m.cells := by
    funext a
    rw [Option.map_map]
    exact Option.map_id'
  cases m
  simp only [mirrorMemory, Memory.mk.injEq, and_true]
  exact back

theorem mirrorRoot {a : Addr} : (mirrorFamily F).Root a ↔ F.Root a :=
  forall_congr' fun _ => not_congr List.mem_reverse

theorem mirrorBelow {a x : Addr} : (mirrorFamily F).Below a x ↔ F.Below a x := by
  have same : (fun q c => c ∈ (mirrorFamily F).children q) = fun q c => c ∈ F.children q := by
    funext q c
    exact propext List.mem_reverse
  unfold Family.Below
  rw [same]

theorem mirrorRight {a : Addr} {c : Cell δ} (right : Right holds F a c) :
    Right holds (mirrorFamily F) a (mirrorCell c) := by
  refine ⟨right.data,right.tail.trans List.head?_reverse.symm,right.head.trans List.getLast?_reverse.symm,?_,?_,?_⟩
  · intro q front back split
    have split' : F.children q = back.reverse ++ a::front.reverse := by
      rw [← List.reverse_reverse (F.children q)]
      change ((mirrorFamily F).children q).reverse = _
      rw [split]
      simp
    obtain ⟨up, before, after⟩ := right.child q _ _ split'
    exact ⟨up,after.trans List.head?_reverse,before.trans List.getLast?_reverse⟩
  · intro root
    obtain ⟨up, before, after⟩ := right.root (mirrorRoot.mp root)
    exact ⟨up,after,before⟩
  · intro none
    change (F.children a).reverse = []
    rw [right.leaf none, List.reverse_nil]

theorem mirrorImage (image : Image holds m F) : Image holds (mirrorMemory m) (mirrorFamily F) := by
  refine ⟨fun a vacant => image.vacant a (Option.map_eq_none_iff.mp vacant),fun a c stored => ?_⟩
  obtain ⟨c', held, rfl⟩ := Option.map_eq_some_iff.mp stored
  exact mirrorRight (image.right a c' held)

def prepended (m : Memory δ) (q e : Addr) (cq ce : Cell δ) (x : Addr) : Option (Cell δ) :=
  if x = q then some { cq with tail := if cq.head.isSome then cq.tail else some e, head := some e }
  else if x = e then some { ce with parent := some q, prev := none, next := cq.head }
  else if cq.head = some x then (m.cells x).map fun c => { c with prev := some e }
  else m.cells x

theorem prependNodeCells {q e : Addr} {cq ce : Cell δ} (other : q ≠ e) (held : m.cells q = some cq)
    (held' : m.cells e = some ce) (room : holds cq.data = true)
    (first : ∀ l, cq.head = some l → l ≠ q ∧ l ≠ e ∧ ∃ cl, m.cells l = some cl) :
    ∃ m', prependNode holds q e m = some m' ∧ m'.fresh = m.fresh ∧ ∀ x, m'.cells x = prepended m q e cq ce x := by
  obtain ⟨m₁, done₁, fresh₁, cells₁⟩ := Memory.writeSome held' fun c => { c with parent := some q }
  obtain ⟨m₂, done₂, fresh₂, cells₂⟩ := Memory.writeSome ((cells₁ e).trans (if_pos rfl)) fun c => { c with prev := none }
  have q₂ : m₂.cells q = some cq := by rw [cells₂, if_neg other, cells₁, if_neg other, held]
  obtain ⟨m₃, done₃, fresh₃, cells₃⟩ :=
    Memory.writeSome ((cells₂ e).trans (if_pos rfl)) fun c => { c with next := cq.head }
  have q₃ : m₃.cells q = some cq := by rw [cells₃, if_neg other, q₂]
  have same₃ : ∀ x, x ≠ e → m₃.cells x = m.cells x := fun x apart => by
    rw [cells₃, if_neg apart, cells₂, if_neg apart, cells₁, if_neg apart]
  have child₃ : m₃.cells e = some { ce with parent := some q, prev := none, next := cq.head } :=
    (cells₃ e).trans (if_pos rfl)
  unfold prependNode prepended
  simp only [Option.bind_eq_bind, done₁, Option.bind_some, endsSome q₂ room, done₂, done₃, endsSome q₃ room]
  cases head : cq.head with
  | none =>
    obtain ⟨m₄, done₄, fresh₄, cells₄⟩ := writeEndsSome q₃ room fun c => { c with tail := some e }
    have q₄ := (cells₄ q).trans (if_pos rfl)
    obtain ⟨m₅, done₅, fresh₅, cells₅⟩ := writeEndsSome q₄ room fun c => { c with head := some e }
    simp only [done₄, Option.bind_some, done₅]
    refine ⟨m₅,rfl,by omega,fun x => ?_⟩
    rw [cells₅, cells₄]
    split
    case isTrue => rfl
    case isFalse notParent =>
      rcases eq_or_ne x e with rfl | notChild
      · rw [if_pos rfl, child₃, head]
      · rw [if_neg notChild, same₃ x notChild]
        rfl
  | some l =>
    obtain ⟨apart, apart', cl, heldFirst⟩ := first l head
    obtain ⟨m₄, done₄, fresh₄, cells₄⟩ :=
      Memory.writeSome ((same₃ l apart').trans heldFirst) fun c => { c with prev := some e }
    have q₄ : m₄.cells q = some cq := by rw [cells₄, if_neg apart.symm, q₃]
    obtain ⟨m₅, done₅, fresh₅, cells₅⟩ := writeEndsSome q₄ room fun c => { c with head := some e }
    simp only [done₄, Option.bind_some, done₅]
    refine ⟨m₅,rfl,by omega,fun x => ?_⟩
    rw [cells₅, cells₄]
    split
    case isTrue => rfl
    case isFalse notParent =>
      rcases eq_or_ne x e with rfl | notChild
      · rw [if_neg apart'.symm, if_pos rfl, child₃, head]
      · rw [if_neg notChild, same₃ x notChild]
        rcases eq_or_ne x l with rfl | notFirst
        · rw [if_pos rfl, if_pos rfl, heldFirst, Option.map_some]
        · rw [if_neg notFirst, if_neg fun same => notFirst (Option.some.inj same).symm]

theorem mirrorPrepended (m : Memory δ) (q e : Addr) (cq ce : Cell δ) (x : Addr) :
    (prepended m q e cq ce x).map mirrorCell = appended (mirrorMemory m) q e (mirrorCell cq) (mirrorCell ce) x := by
  unfold prepended appended
  split
  case isTrue => rfl
  case isFalse =>
  split
  case isTrue => rfl
  case isFalse =>
  have mirrored : (mirrorCell cq).tail = cq.head := rfl
  have mirrored' : (mirrorMemory m).cells x = (m.cells x).map mirrorCell := rfl
  simp only [mirrored, mirrored']
  split
  case isTrue =>
    rw [Option.map_map, Option.map_map]
    rfl
  case isFalse => rfl

theorem prependable {q e : Addr} (root : F.Root e) (live : F.data q ≠ none) (live' : F.data e ≠ none)
    (apart : ¬F.Below e q) : F.Adoptable q e (e::F.children q) := ⟨root,live,live',apart,List.Perm.refl _⟩

theorem prependNodeImage (image : Image holds m F) {q e : Addr} {d : δ} (live : F.data q = some d)
    (room : holds d = true) (adoptable : F.Adoptable q e (e::F.children q)) :
    ∃ m', prependNode holds q e m = some m' ∧ m'.fresh = m.fresh ∧ Image holds m' (F.adopt adoptable) := by
  obtain ⟨cq, held⟩ := image.live adoptable.live
  obtain ⟨ce, held'⟩ := image.live adoptable.live'
  have right := image.right q cq held
  have other : q ≠ e := fun same => adoptable.apart (same ▸ Family.belowSelf q)
  have first : ∀ l, cq.head = some l → l ≠ q ∧ l ≠ e ∧ ∃ cl, m.cells l = some cl := fun l head => by
    have member : l ∈ F.children q := List.mem_of_head? (right.head.symm.trans head)
    refine ⟨fun same => ?_,fun same => adoptable.root q (same ▸ member),image.live (F.inside q l member).2⟩
    exact Family.notOwnChild q (same ▸ member)
  have room' : holds cq.data = true := by
    rw [right.data, Option.some.injEq] at live
    rwa [live]
  obtain ⟨m', done, fresh, cells⟩ := prependNodeCells other held held' room' first
  refine ⟨m',done,fresh,?_⟩
  have mirrored : (mirrorFamily F).Adoptable q e ((mirrorFamily F).children q ++ [e]) :=
    appendable (mirrorRoot.mpr adoptable.root) adoptable.live adoptable.live' fun below =>
      adoptable.apart (mirrorBelow.mp below)
  have image' : Image holds (mirrorMemory m') ((mirrorFamily F).adopt mirrored) :=
    appendedImage mirrored (mirrorImage image) (mirrorRight right) (mirrorRight (image.right e ce held')) room' fun x => by
      rw [← mirrorPrepended, ← cells]
      rfl
  have back : mirrorFamily ((mirrorFamily F).adopt mirrored) = F.adopt adoptable := by
    refine Family.same rfl ?_
    funext p
    change (if p = q then (F.children q).reverse ++ [e] else (F.children p).reverse).reverse =
      if p = q then e::F.children q else F.children p
    split
    · rw [List.reverse_append, List.reverse_reverse]
      rfl
    · exact List.reverse_reverse _
  rw [← back, ← mirrorTwice m']
  exact mirrorImage image'

def listed (m : Memory δ) : Nat → Option Addr → Option (List Addr)
  | _, none => some []
  | 0, some _ => none
  | passes+1, some child => (m.cells child).bind fun c => (listed m passes c.next).map (List.cons child)

def childrenAt (passes : Nat) (a : Addr) (m : Memory δ) : Option (List Addr) :=
  (m.cells a).bind fun c => listed m passes c.head

theorem listedFrom (image : Image holds m F) {q : Addr} {front list list' : List Addr}
    (split : F.children q = front ++ list) {passes : Nat} (read : listed m passes list.head? = some list') : list' = list := by
  induction list generalizing front list' passes with
  | nil =>
    cases passes with
    | zero | succ => exact (Option.some.inj read).symm
  | cons c list ih =>
    cases passes with
    | zero => cases read
    | succ passes =>
      obtain ⟨cell, stored, read⟩ := Option.bind_eq_some_iff.mp read
      obtain ⟨later, read', rfl⟩ := Option.map_eq_some_iff.mp read
      obtain ⟨-, -, after⟩ := (image.right c cell stored).child q front list split
      rw [after] at read'
      rw [ih (by simp [split] : F.children q = (front ++ [c]) ++ list) read']

theorem childrenRead (image : Image holds m F) {passes : Nat} {a : Addr} {list : List Addr}
    (read : childrenAt passes a m = some list) : F.children a = list := by
  obtain ⟨c, stored, read⟩ := Option.bind_eq_some_iff.mp read
  rw [(image.right a c stored).head] at read
  exact (listedFrom image (List.nil_append _).symm read).symm

theorem dataRead (image : Image holds m F) {a : Addr} {d : δ} (read : (m.cells a).map Cell.data = some d) :
    F.data a = some d := by
  obtain ⟨c, stored, rfl⟩ := Option.map_eq_some_iff.mp read
  exact (image.right a c stored).data

end Lib.ForestImages
