import Mathlib.Data.List.Forall2
import PennDaq.Lib.ForestDeletion

/-! The tree below a node, and that a copy has the same tree in cells of its own. -/
namespace Lib.ForestTrees
open Lib.Forest Lib.LinkedForest Lib.ForestImages Lib.ForestRemoval

inductive Branch (δ : Type) where
  | node (data : δ) (children : List (Branch δ))

section Trees
variable {δ : Type}

@[induction_eliminator]
theorem treeInduction {motive : Branch δ → Prop}
    (node : ∀ data children, (∀ t ∈ children, motive t) → motive (.node data children)) (tree : Branch δ) : motive tree :=
  @Branch.rec δ motive (fun children => ∀ t ∈ children, motive t) node (by simp)
    (fun _ _ first others => List.forall_mem_cons.mpr ⟨first,others⟩) tree

inductive Denotes (F : Family δ) : Addr → Branch δ → Prop where
  | mk {a data trees} (held : F.data a = some data) (all : List.Forall₂ (Denotes F) (F.children a) trees) :
    Denotes F a (.node data trees)

variable {F F' : Family δ}

theorem forallMembers {α β : Type} {R S : α → β → Prop} {list : List α} {list' : List β} (all : List.Forall₂ R list list')
    (each : ∀ a ∈ list, ∀ b ∈ list', R a b → S a b) : List.Forall₂ S list list' := by
  induction all with
  | nil => exact .nil
  | cons first _ ih =>
    refine .cons (each _ (by simp) _ (by simp) first) (ih fun a inside b inside' => ?_)
    exact each a (List.mem_cons_of_mem _ inside) b (List.mem_cons_of_mem _ inside')

theorem forallRight {α β : Type} {R : α → β → Prop} {list : List α} {list' : List β} (all : List.Forall₂ R list list') :
    ∀ b ∈ list', ∃ a ∈ list, R a b := by
  induction all with
  | nil => exact List.forall_mem_nil _
  | cons first _ ih =>
    refine List.forall_mem_cons.mpr ⟨⟨_,List.mem_cons_self,first⟩,fun b inside => ?_⟩
    obtain ⟨a, inside', held⟩ := ih b inside
    exact ⟨a,List.mem_cons_of_mem _ inside',held⟩

theorem forallLeft {α β : Type} {R : α → β → Prop} {list : List α} {list' : List β} (all : List.Forall₂ R list list') :
    ∀ a ∈ list, ∃ b ∈ list', R a b := by
  induction all with
  | nil => exact List.forall_mem_nil _
  | cons first _ ih =>
    refine List.forall_mem_cons.mpr ⟨⟨_,List.mem_cons_self,first⟩,fun a inside => ?_⟩
    obtain ⟨b, inside', held⟩ := ih a inside
    exact ⟨b,List.mem_cons_of_mem _ inside',held⟩

theorem denotesFrame {tree : Branch δ} {a : Addr} (denotes : Denotes F a tree)
    (same : ∀ x, F.Below a x → F'.data x = F.data x ∧ F'.children x = F.children x) : Denotes F' a tree := by
  induction tree generalizing a with
  | node data trees ih =>
    cases denotes with
    | mk held all =>
      obtain ⟨sameData, sameChildren⟩ := same a (Family.belowSelf a)
      refine .mk (sameData.trans held) ?_
      rw [sameChildren]
      refine forallMembers all fun c member tree inside denotes => ih tree inside denotes fun x below => ?_
      exact same x (Family.belowChild member below)

theorem forallSome {α β : Type} {R : α → β → Prop} {list : List α} (each : ∀ a ∈ list, ∃ b, R a b) :
    ∃ list', List.Forall₂ R list list' := by
  induction list with
  | nil => exact ⟨[],.nil⟩
  | cons a list ih =>
    obtain ⟨first, others⟩ := List.forall_mem_cons.mp each
    obtain ⟨b, held⟩ := first
    obtain ⟨list', all⟩ := ih others
    exact ⟨b::list',.cons held all⟩

theorem someTree {a : Addr} (live : F.data a ≠ none) : ∃ tree, Denotes F a tree := by
  obtain ⟨height, ranks⟩ := F.ranked
  have upTo : ∀ most a, height a < most → F.data a ≠ none → ∃ tree, Denotes F a tree := fun most => by
    induction most with
    | zero => exact fun _ low => absurd low (Nat.not_lt_zero _)
    | succ most ih =>
      intro a low live
      obtain ⟨data, held⟩ := Option.ne_none_iff_exists'.mp live
      have each : ∀ c ∈ F.children a, ∃ tree, Denotes F c tree := fun c member =>
        ih c (Nat.lt_of_lt_of_le (ranks a c member) (Nat.lt_succ_iff.mp low)) (F.inside a c member).2
      obtain ⟨trees, denote⟩ := forallSome each
      exact ⟨_,.mk held denote⟩
  exact upTo (height a+1) a (Nat.lt_succ_self _) live

structure Extends (fresh : Nat) (F F' : Family δ) : Prop where
  data : ∀ a, a < fresh → F'.data a = F.data a
  children : ∀ a, a < fresh → F'.children a = F.children a
  apart : ∀ q c, fresh ≤ q → c ∈ F'.children q → fresh ≤ c

variable {holds : δ → Bool} {m : Memory δ}

theorem extendsTrans {F'' : Family δ} {fresh fresh' : Nat} (grown : fresh ≤ fresh') (one : Extends fresh F F')
    (two : Extends fresh' F' F'') : Extends fresh F F'' := by
  refine ⟨fun a low => ?_,fun a low => ?_,fun q c high member => ?_⟩
  · exact (two.data a (Nat.lt_of_lt_of_le low grown)).trans (one.data a low)
  · exact (two.children a (Nat.lt_of_lt_of_le low grown)).trans (one.children a low)
  · rcases Nat.lt_or_ge q fresh' with below | above
    · rw [two.children q below] at member
      exact one.apart q c high member
    · exact Nat.le_trans grown (two.apart q c above member)

theorem extendsRoot {fresh : Nat} (extended : Extends fresh F F') {a : Addr} (low : a < fresh) (root : F.Root a) :
    F'.Root a := fun q member => by
  rcases Nat.lt_or_ge q fresh with below | above
  · rw [extended.children q below] at member
    exact root q member
  · exact absurd (extended.apart q a above member) (Nat.not_le_of_lt low)

theorem liveBelowFresh (image : Image holds m F) {a : Addr} (live : F.data a ≠ none) : a < m.fresh :=
  Nat.lt_of_not_le fun above => live (image.vacant a (m.behind a above))

theorem denotesLive {a : Addr} {tree : Branch δ} (denotes : Denotes F a tree) : F.data a ≠ none := by
  cases denotes with
  | mk held _ => exact fun none => nomatch held.symm.trans none

theorem extendsDenotes (image : Image holds m F) (extended : Extends m.fresh F F') {a : Addr} {tree : Branch δ}
    (denotes : Denotes F a tree) : Denotes F' a tree := by
  refine denotesFrame denotes fun x below => ?_
  have inside := liveBelowFresh image (Family.belowLive (denotesLive denotes) below)
  exact ⟨extended.data x inside,extended.children x inside⟩

theorem extendsPlant (image : Image holds m F) (d : δ) : Extends m.fresh F (F.plant m.fresh d) := by
  refine ⟨fun a low => if_neg (Nat.ne_of_lt low),fun a _ => rfl,fun q c high member => ?_⟩
  have none : F.children q = [] := (vacantApart (image.vacant q (m.behind q high))).2
  exact absurd (none ▸ member : c ∈ []) List.not_mem_nil

theorem belowRoot {a x : Addr} (root : F.Root x) (below : F.Below a x) : x = a := by
  cases below with
  | refl => rfl
  | tail _ member => exact absurd member (root _)

def Owned (F : Family δ) (root : Addr) : Prop := ∀ a, root ≤ a → F.data a ≠ none → F.Below root a

/- There is one root more, at `fresh`, and all that is new is below it. -/
structure New (fresh : Nat) (F F' : Family δ) : Prop where
  extended : Extends fresh F F'
  owned : Owned F' fresh
  root : F'.Root fresh

theorem belowExtended {fresh : Nat} (extended : Extends fresh F F') (vacant : ∀ a, fresh ≤ a → F.data a = none)
    {a x : Addr} (below : F.Below a x) : F'.Below a x := by
  induction below with
  | refl => exact Family.belowSelf a
  | @tail q c _ member ih =>
    refine .tail ih ?_
    have inside : q < fresh := Nat.lt_of_not_le fun above => (F.inside q c member).1 (vacant q above)
    rwa [extended.children q inside]

theorem belowAdopted {q e a x : Addr} {list : List Addr} (adoptable : F.Adoptable q e list) (below : F.Below a x) :
    (F.adopt adoptable).Below a x := by
  induction below with
  | refl => exact Family.belowSelf a
  | @tail p c _ member ih =>
    refine .tail ih ?_
    rcases eq_or_ne p q with rfl | other
    · rw [adoptedHere]
      exact adoptable.same.mem_iff.mpr (List.mem_cons_of_mem _ member)
    · rwa [adoptedElsewhere adoptable other]

theorem ownedAdopt {fresh cpy : Nat} {list : List Addr} (extended : Extends fresh F F')
    (vacant : ∀ a, fresh ≤ a → F.data a = none) (owned : Owned F cpy) (owned' : Owned F' fresh)
    (adoptable : F'.Adoptable cpy fresh list) : Owned (F'.adopt adoptable) cpy := by
  intro a above live
  rcases Nat.lt_or_ge a fresh with inside | beyond
  · have old : F.data a ≠ none := by rwa [← extended.data a inside]
    exact belowAdopted adoptable (belowExtended extended vacant (owned a above old))
  · refine Family.belowChild ?_ (belowAdopted adoptable (owned' a beyond live))
    rw [adoptedHere]
    exact adoptable.same.mem_iff.mpr List.mem_cons_self

theorem extendsAdopt {fresh cpy : Nat} {new : Addr} {list : List Addr} (extended : Extends fresh F F')
    (below : cpy < fresh) (own : ∀ q c, cpy ≤ q → c ∈ F.children q → cpy ≤ c) (high : fresh ≤ new)
    (adoptable : F'.Adoptable cpy new list) : Extends cpy F (F'.adopt adoptable) := by
  refine ⟨fun a low => extended.data a (Nat.lt_trans low below),fun a low => ?_,fun q c above member => ?_⟩
  · rw [adoptedElsewhere adoptable (Nat.ne_of_lt low)]
    exact extended.children a (Nat.lt_trans low below)
  · rcases Family.adoptedCases adoptable member with old | ⟨_, rfl⟩
    · rcases Nat.lt_or_ge q fresh with inside | beyond
      · rw [extended.children q inside] at old
        exact own q c above old
      · exact Nat.le_trans (Nat.le_of_lt below) (extended.apart q c beyond old)
    · exact Nat.le_trans (Nat.le_of_lt below) high

theorem imageVacant (image : Image holds m F) (a : Addr) (above : m.fresh ≤ a) : F.data a = none :=
  image.vacant a (m.behind a above)

theorem newPlant (image : Image holds m F) (d : δ) : New m.fresh F (F.plant m.fresh d) := by
  refine ⟨extendsPlant image d,fun a above live => ?_,(vacantApart (imageVacant image _ (Nat.le_refl _))).1⟩
  rcases Nat.eq_or_lt_of_le above with same | beyond
  · rw [← same]
    exact Family.belowSelf _
  · exact absurd ((if_neg (Nat.ne_of_gt beyond)).trans (imageVacant image a above)) live

theorem newAdopt {F₀ : Family δ} {cpy fresh : Nat} {list : List Addr} (one : New cpy F₀ F) (below : cpy < fresh)
    (vacant : ∀ a, fresh ≤ a → F.data a = none) (two : New fresh F F') (adoptable : F'.Adoptable cpy fresh list) :
    New cpy F₀ (F'.adopt adoptable) := by
  refine ⟨?_,ownedAdopt two.extended vacant one.owned two.owned adoptable,fun q inside => ?_⟩
  · exact extendsTrans (Nat.le_refl _) one.extended
      (extendsAdopt two.extended below one.extended.apart (Nat.le_refl _) adoptable)
  · rcases Family.adoptedCases adoptable inside with old | ⟨_, same⟩
    · exact extendsRoot two.extended below one.root q old
    · exact Nat.ne_of_lt below same

theorem newWithout {fresh : Nat} (new : New fresh F F') (vacant : ∀ a, fresh ≤ a → F.data a = none) :
    ForestDeletion.without F' fresh = F := by
  classical
  have above : ∀ x, F'.Below fresh x → fresh ≤ x := fun x below => by
    induction below with
    | refl => exact Nat.le_refl _
    | tail _ member ih => exact new.extended.apart _ _ ih member
  have old : ∀ x, x < fresh → ¬F'.Below fresh x := fun x low below => absurd (above x below) (Nat.not_le_of_lt low)
  refine Family.same (funext fun x => ?_) (funext fun q => ?_)
  · change (if F'.Below fresh x then none else F'.data x) = F.data x
    rcases Nat.lt_or_ge x fresh with low | high
    · rw [if_neg (old x low), new.extended.data x low]
    · rw [vacant x high, ite_eq_left_iff]
      exact fun apart => by_contra fun live => apart (new.owned x high live)
  · change (F'.children q).filter _ = F.children q
    rcases Nat.lt_or_ge q fresh with low | high
    · rw [new.extended.children q low]
      refine List.filter_eq_self.mpr fun c member => decide_eq_true ?_
      exact old c (Nat.lt_of_not_le fun beyond => (F.inside q c member).2 (vacant c beyond))
    · rw [(vacantApart (vacant q high)).2]
      refine List.filter_eq_nil_iff.mpr fun c member => ?_
      rw [decide_eq_true_iff, not_not]
      exact .tail (new.owned q high (F'.inside q c member).1) member

theorem appendNew {F₀ : Family δ} {cpy : Nat} {d : δ} (room : holds d = true) (image : Image holds m F) (one : New cpy F₀ F)
    (live : F.data cpy = some d) {m₁ : Memory δ} (image₁ : Image holds m₁ F') (two : New m.fresh F F')
    (live' : F'.data m.fresh ≠ none) : ∃ m₂ F₂, appendNode holds cpy m.fresh m₁ = some m₂ ∧ m₂.fresh = m₁.fresh ∧
      Image holds m₂ F₂ ∧ New cpy F₀ F₂ ∧ F₂.data = F'.data ∧ F₂.children cpy = F.children cpy ++ [m.fresh] ∧
      (∀ a, a ≠ cpy → F₂.children a = F'.children a) ∧ Extends cpy F F₂ := by
  have below : cpy < m.fresh := liveBelowFresh image (fun none => nomatch live.symm.trans none)
  have root' := extendsRoot two.extended below one.root
  have liveNew : F'.data cpy = some d := (two.extended.data cpy below).trans live
  have adoptable := appendable two.root (fun none => nomatch liveNew.symm.trans none) live'
    fun path => Nat.ne_of_lt below (belowRoot root' path)
  obtain ⟨m₂, done, fresh, image₂⟩ := appendNodeImage image₁ liveNew room adoptable
  refine ⟨m₂,_,done,fresh,image₂,newAdopt one below (imageVacant image) two adoptable,rfl,?_,
    fun a other => adoptedElsewhere adoptable other,extendsAdopt two.extended below one.extended.apart (Nat.le_refl _) adoptable⟩
  rw [adoptedHere, two.extended.children cpy below]

def Copies (holds : δ → Bool) (tree : Branch δ) : Prop :=
  ∀ (m : Memory δ) (F : Family δ) (node : Addr), Image holds m F → Denotes F node tree →
    ∃ m' F', m.fresh < m'.fresh ∧ Image holds m' F' ∧ New m.fresh F F' ∧ Denotes F' m.fresh tree ∧
      ∃ enough, ∀ passes, enough ≤ passes → copy holds passes node m = some (m.fresh,m')

theorem copyNothing (passes : Nat) (cpy : Addr) (m : Memory δ) : copyChildren holds passes cpy none m = some m := by
  cases passes with
  | zero | succ => rfl

theorem copiesChildren {F₀ : Family δ} {node cpy : Addr} {d : δ} (room : holds d = true) (apart : node ≠ cpy)
    (list : List Addr) {trees : List (Branch δ)} (copies : ∀ t ∈ trees, Copies holds t) (m : Memory δ) (F : Family δ)
    (front : List Addr) {done : List (Branch δ)} (image : Image holds m F) (new : New cpy F₀ F) (live : F.data cpy = some d)
    (copied : List.Forall₂ (Denotes F) (F.children cpy) done) (listed : F.children node = front ++ list)
    (denote : List.Forall₂ (Denotes F) list trees) :
    ∃ m' F', m.fresh ≤ m'.fresh ∧ Image holds m' F' ∧ New cpy F₀ F' ∧ F'.data cpy = some d ∧
      List.Forall₂ (Denotes F') (F'.children cpy) (done ++ trees) ∧
      ∃ enough, ∀ passes, enough ≤ passes → copyChildren holds passes cpy list.head? m = some m' := by
  induction list generalizing m F front done trees with
  | nil =>
    cases denote
    rw [List.append_nil]
    exact ⟨m,F,Nat.le_refl _,image,new,live,copied,0,fun passes _ => copyNothing passes cpy m⟩
  | cons c list ih =>
    cases denote with
    | @cons _ tree _ trees first others =>
      obtain ⟨copyFirst, copyOthers⟩ := List.forall_mem_cons.mp copies
      have member : c ∈ F.children node := by
        rw [listed]
        exact List.mem_append_right _ List.mem_cons_self
      have inside : node < m.fresh := liveBelowFresh image (F.inside node c member).1
      have below : cpy < m.fresh := liveBelowFresh image (fun none => nomatch live.symm.trans none)
      obtain ⟨m₁, F₁, grown₁, image₁, new₁, denotes₁, enough₁, done₁⟩ := copyFirst m F c image first
      obtain ⟨m₂, F₂, done₂, fresh₂, image₂, new₂, data₂, here₂, elsewhere₂, _⟩ :=
        appendNew room image new live image₁ new₁ (denotesLive denotes₁)
      -- The copy of the first child is a root of its own until it is appended below `cpy`.
      have rootCpy := extendsRoot new₁.extended below new.root
      have kept₁ : ∀ a t, a ≠ cpy → Denotes F₁ a t → Denotes F₂ a t := fun a t other denotes =>
        denotesFrame denotes fun x path => ⟨congrFun data₂ x,elsewhere₂ x fun same =>
          other (belowRoot rootCpy (same ▸ path)).symm⟩
      have kept : ∀ a t, a ≠ cpy → Denotes F a t → Denotes F₂ a t := fun a t other denotes =>
        kept₁ a t other (extendsDenotes image new₁.extended denotes)
      have copied₂ : List.Forall₂ (Denotes F₂) (F₂.children cpy) (done ++ [tree]) := by
        rw [here₂]
        refine List.rel_append (forallMembers copied fun a among t _ => kept a t fun same => ?_) (.cons ?_ .nil)
        · exact Family.notOwnChild cpy (same ▸ among)
        · exact kept₁ m.fresh tree (Nat.ne_of_gt below) denotes₁
      have live₂ : F₂.data cpy = some d := by rw [data₂, new₁.extended.data cpy below, live]
      have listed₂ : F₂.children node = front ++ c::list := by
        rw [elsewhere₂ node apart, new₁.extended.children node inside, listed]
      have others₂ : List.Forall₂ (Denotes F₂) list trees := forallMembers others fun a among t _ =>
        kept a t fun same => new.root node (by rw [listed, ← same]; simp [among])
      obtain ⟨m', F', grown, image', new', live', denote', enough₂, done'⟩ :=
        ih copyOthers m₂ F₂ (front ++ [c]) image₂ new₂ live₂ copied₂ (by rw [listed₂]; simp) others₂
      obtain ⟨cell, held⟩ := image₂.live (F₂.inside node c (middleMember listed₂)).2
      obtain ⟨_, _, after⟩ := (image₂.right c cell held).child node front list listed₂
      refine ⟨m',F',by omega,image',new',live',?_,enough₁+enough₂+1,?_⟩
      · rwa [List.append_assoc] at denote'
      · intro passes large
        cases passes with
        | zero => omega
        | succ passes =>
          rw [List.head?_cons, copyChildren, done₁ passes (by omega), Option.bind_eq_bind, Option.bind_some]
          dsimp only
          rw [done₂, Option.bind_eq_bind, Option.bind_some, held, Option.bind_eq_bind, Option.bind_some, after]
          exact done' passes (by omega)

/- A copy is a new root with the same tree, and what was there is as it was. -/
theorem copiesTree (tree : Branch δ) : Copies holds tree := by
  induction tree with
  | node data trees ih =>
    intro m F node image denotes
    cases denotes with
    | mk held all =>
      obtain ⟨c, stored⟩ := image.live (fun none => nomatch held.symm.trans none)
      have right := image.right node c stored
      have same : c.data = data := Option.some.inj (right.data.symm.trans held)
      obtain ⟨address, vacant, image₀⟩ := allocImage image data
      have new₀ := newPlant image data
      have childless : (F.plant m.fresh data).children m.fresh = [] := (vacantApart vacant).2
      have inside : node < m.fresh := liveBelowFresh image (fun none => nomatch held.symm.trans none)
      cases leaf : holds data with
      | false =>
        have empty : F.children node = [] := right.leaf (by rw [same, leaf])
        rw [empty] at all
        cases all
        refine ⟨(m.alloc data).2,_,Nat.lt_succ_self _,image₀,new₀,.mk (if_pos rfl) ?_,1,fun passes large => ?_⟩
        · rw [childless]
          exact .nil
        · cases passes with
          | zero => omega
          | succ passes =>
            rw [copy, stored, Option.bind_eq_bind, Option.bind_some, same, leaf]
            rfl
      | true =>
        have all₀ : List.Forall₂ (Denotes (F.plant m.fresh data)) (F.children node) trees :=
          forallMembers all fun _ _ _ _ denotes => extendsDenotes image new₀.extended denotes
        have none₀ : List.Forall₂ (Denotes (F.plant m.fresh data)) ((F.plant m.fresh data).children m.fresh) [] := by
          rw [childless]
          exact .nil
        obtain ⟨m', F', grown, image', new', live', denote', enough, done'⟩ :=
          copiesChildren leaf (Nat.ne_of_lt inside) (F.children node) ih (m.alloc data).2 _ [] image₀ new₀ (if_pos rfl)
            none₀ rfl all₀
        refine ⟨m',F',grown,image',new',.mk live' denote',enough+1,?_⟩
        intro passes large
        cases passes with
        | zero => omega
        | succ passes =>
          rw [copy, stored, Option.bind_eq_bind, Option.bind_some, same, leaf]
          dsimp only [Memory.alloc]
          rw [if_pos rfl, right.head]
          have walked := done' passes (by omega)
          dsimp only [Memory.alloc] at walked
          rw [walked]
          rfl

end Trees

end Lib.ForestTrees
