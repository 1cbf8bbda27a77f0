import PennDaq.Lib.ForestTrees
import PennDaq.JsonText

/-! The nodes of the JSON library in memory: how they are made, put into arrays and
objects, taken out, copied and deleted. An operation that reads or writes where no node is,
or of which an assertion fails, has no result. -/
namespace PennDaq.JsonMemory
open Lib.Forest Lib.LinkedForest Lib.ForestImages Lib.ForestRemoval Lib.ForestDeletion Lib.ForestTrees
open PennDaq.Utf8 PennDaq.JsonText

inductive Value (ν : Type) where
  | null
  | bool (bool' : Bool)
  | string (string' : CText)
  | number (number' : ν)
  | array
  | object
  deriving DecidableEq

structure NodeData (ν : Type) where
  key : Option CText
  value : Value ν
  deriving DecidableEq

section Operations
variable {ν : Type}

def Value.isArray : Value ν → Bool
  | .array => true
  | _ => false

def Value.isObject : Value ν → Bool
  | .object => true
  | _ => false

def hasChildren (d : NodeData ν) : Bool := d.value.isArray || d.value.isObject

def mknode (value : Value ν) (m : Memory (NodeData ν)) : Addr × Memory (NodeData ν) := m.alloc ⟨none,value⟩

def jsonMknull : Memory (NodeData ν) → Addr × Memory (NodeData ν) := mknode .null

def jsonMkbool (b : Bool) : Memory (NodeData ν) → Addr × Memory (NodeData ν) := mknode (.bool b)

def jsonMkstring (s : CText) : Memory (NodeData ν) → Addr × Memory (NodeData ν) := mknode (.string s)

def jsonMknumber (n : ν) : Memory (NodeData ν) → Addr × Memory (NodeData ν) := mknode (.number n)

def jsonMkarray : Memory (NodeData ν) → Addr × Memory (NodeData ν) := mknode .array

def jsonMkobject : Memory (NodeData ν) → Addr × Memory (NodeData ν) := mknode .object

def asserted (tag : Value ν → Bool) (parent child : Addr) (m : Memory (NodeData ν)) : Option Unit := do
  let p ← m.cells parent
  let c ← m.cells child
  if tag p.data.value = true ∧ c.parent = none then some () else none

def setKey (key : Option CText) (node : Addr) (m : Memory (NodeData ν)) : Option (Memory (NodeData ν)) :=
  m.write node fun c => { c with data := { c.data with key := key } }

def appendMember (object : Addr) (key : CText) (value : Addr) (m : Memory (NodeData ν)) :
    Option (Memory (NodeData ν)) := do
  let m ← setKey (some key) value m
  appendNode hasChildren object value m

def jsonAppendElement (array element : Addr) (m : Memory (NodeData ν)) : Option (Memory (NodeData ν)) := do
  asserted Value.isArray array element m
  appendNode hasChildren array element m

def jsonPrependElement (array element : Addr) (m : Memory (NodeData ν)) : Option (Memory (NodeData ν)) := do
  asserted Value.isArray array element m
  prependNode hasChildren array element m

def jsonAppendMember (object : Addr) (key : CText) (value : Addr) (m : Memory (NodeData ν)) :
    Option (Memory (NodeData ν)) := do
  asserted Value.isObject object value m
  appendMember object key value m

def jsonPrependMember (object : Addr) (key : CText) (value : Addr) (m : Memory (NodeData ν)) :
    Option (Memory (NodeData ν)) := do
  asserted Value.isObject object value m
  let m ← setKey (some key) value m
  prependNode hasChildren object value m

def forgetKey (d : NodeData ν) : NodeData ν := { d with key := none }

def jsonRemoveFromParent : Addr → Memory (NodeData ν) → Option (Memory (NodeData ν)) :=
  removeFromParent hasChildren forgetKey

def jsonDelete (passes : Nat) : Option Addr → Memory (NodeData ν) → Option (Memory (NodeData ν))
  | none, m => some m
  | some node, m => delete hasChildren forgetKey passes node m

def jsonMkcopy : Nat → Addr → Memory (NodeData ν) → Option (Addr × Memory (NodeData ν)) := copy hasChildren

end Operations

section Assertions
variable {ν : Type} {m : Memory (NodeData ν)} {F : Family (NodeData ν)}

theorem parentIff (image : Image hasChildren m F) {a q : Addr} :
    (m.cells a).map Cell.parent = some (some q) ↔ a ∈ F.children q := by
  constructor
  · intro held
    obtain ⟨c, stored, up⟩ := Option.map_eq_some_iff.mp held
    have right := image.right a c stored
    by_contra out
    rcases Classical.em (F.Root a) with root | child
    · rw [(right.root root).1] at up
      cases up
    · obtain ⟨p, member⟩ := not_forall_not.mp child
      obtain ⟨front, back, split⟩ := List.append_of_mem member
      rw [(right.child p front back split).1, Option.some.injEq] at up
      exact out (up ▸ member)
  · intro member
    obtain ⟨c, stored⟩ := image.live (F.inside q a member).2
    obtain ⟨front, back, split⟩ := List.append_of_mem member
    rw [stored, Option.map_some, ((image.right a c stored).child q front back split).1]

theorem rootIff (image : Image hasChildren m F) {a : Addr} {c : Cell (NodeData ν)} (stored : m.cells a = some c) :
    c.parent = none ↔ F.Root a := by
  constructor
  · intro up q member
    have held := (parentIff image).mpr member
    rw [stored, Option.map_some, up] at held
    cases held
  · exact fun root => ((image.right a c stored).root root).1

theorem liveIff (image : Image hasChildren m F) {a : Addr} : m.cells a ≠ none ↔ F.data a ≠ none := by
  constructor
  · intro live none
    obtain ⟨c, stored⟩ := Option.ne_none_iff_exists'.mp live
    exact nomatch (image.right a c stored).data.symm.trans none
  · exact fun live none => live (image.vacant a none)

theorem assertedSome (image : Image hasChildren m F) {tag : Value ν → Bool} {parent child : Addr}
    (held : asserted tag parent child m ≠ none) : asserted tag parent child m = some () ∧
      ∃ d, F.data parent = some d ∧ tag d.value = true ∧ F.Root child ∧ F.data child ≠ none := by
  obtain ⟨_, held⟩ := Option.ne_none_iff_exists'.mp held
  refine ⟨held,?_⟩
  unfold asserted at held
  obtain ⟨p, stored, held⟩ := Option.bind_eq_some_iff.mp held
  obtain ⟨c, stored', held⟩ := Option.bind_eq_some_iff.mp held
  split at held
  case isTrue both =>
    exact ⟨p.data,(image.right parent p stored).data,both.1,(rootIff image stored').mp both.2,
      fun none => nomatch (image.right child c stored').data.symm.trans none⟩
  case isFalse => cases held

theorem arrayChildren {d : NodeData ν} (array : d.value.isArray = true) : hasChildren d = true := by
  rw [hasChildren, array, Bool.true_or]

theorem objectChildren {d : NodeData ν} (object : d.value.isObject = true) : hasChildren d = true := by
  rw [hasChildren, object, Bool.or_true]

theorem setKeyImage (image : Image hasChildren m F) {object value : Addr} {d dv : NodeData ν} (key : CText)
    (live : F.data object = some d) (held : F.data value = some dv) (root : F.Root value) (apart : ¬F.Below value object) :
    ∃ m', setKey (some key) value m = some m' ∧ m'.fresh = m.fresh ∧
      Image hasChildren m' (F.plant value { dv with key := some key }) ∧
      (F.plant value { dv with key := some key }).data object = some d ∧
      ∀ list, List.Perm list (value::F.children object) →
        (F.plant value { dv with key := some key }).Adoptable object value list := by
  obtain ⟨m', done, fresh, image'⟩ := relabelImage image held (fun d => { d with key := some key }) rfl
  have other : object ≠ value := fun same => apart (by rw [same]; exact Family.belowSelf value)
  have live' : (F.plant value { dv with key := some key }).data object = some d := (if_neg other).trans live
  refine ⟨m',done,fresh,image',live',fun list same => ⟨root,?_,?_,apart,same⟩⟩
  · exact fun none => nomatch live'.symm.trans none
  · exact fun none => nomatch (if_pos rfl).symm.trans none

end Assertions

end PennDaq.JsonMemory
