import Mathlib.Data.List.OfFn
import Mathlib.Data.List.Perm.Basic
import PennDaq.Lib.CNumber

/-! JSON values as a library in C gives access to them: a node is a pointer that may
be NULL, members are found by the first key that matches, and a getter on a node of
another kind gives its default. -/
namespace Lib.JsonTree

inductive Json where
  | null
  | bool (value : Bool)
  | number (value : ℚ)
  | string (value : String)
  | array (elements : List Json)
  | object (members : List (String × Json))

abbrev Members := List (String × Json)

abbrev Node := Option Json

def findElement (node : Node) (index : Nat) : Node :=
  match node with
  | some (.array elements) => elements[index]?
  | _ => none

def findMember (node : Node) (name : String) : Node :=
  match node with
  | some (.object members) => members.lookup name
  | _ => none

def getNumber : Node → ℚ
  | some (.number value) => value
  | _ => -1

def getString : Node → Option String
  | some (.string value) => some value
  | _ => none

def getBool : Node → Bool
  | some (.bool value) => value
  | _ => false

def getNumMems : Node → Int
  | some (.array elements) => elements.length
  | some (.object members) => members.length
  | _ => -1

/- What `findElement` gives a loop up to `getNumMems`. -/
def loopOver (node : Node) : List Node :=
  (List.range (getNumMems node).toNat).map (findElement node)

def arrayOf {n : Nat} (element : Fin n → Json) : Json := .array (List.ofFn element)

def ofInt (n : ℤ) : Json := .number n

def ofNat (n : ℕ) : Json := .number n

/-! Changes of an object in place. There is no result where a NULL pointer or a node
of another kind is written to. -/

def appendMember (name : String) (value : Json) : Json → Option Json
  | .object members => some (.object (members ++ [(name,value)]))
  | _ => none

def appendMembers (more : Members) : Json → Option Json
  | .object members => some (.object (members ++ more))
  | _ => none

def removeFirst (name : String) : Members → Option Members
  | [] => none
  | (key,value)::later =>
    if key = name then some later else (removeFirst name later).map ((key,value)::·)

def removeMember (name : String) : Json → Option Json
  | .object members => (removeFirst name members).map .object
  | _ => none

def modifyFirst (name : String) (change : Json → Option Json) : Members → Option Members
  | [] => none
  | (key,value)::later =>
    if key = name then (change value).map fun value => (key,value)::later
    else (modifyFirst name change later).map ((key,value)::·)

def modifyMember (name : String) (change : Json → Option Json) : Json → Option Json
  | .object members => (modifyFirst name change members).map .object
  | _ => none

@[simp] theorem findElementArray (elements : List Json) (index : Nat) :
    findElement (some (.array elements)) index = elements[index]? := rfl

@[simp] theorem findElementArrayOf {n : Nat} (element : Fin n → Json) (i : Fin n) :
    findElement (some (arrayOf element)) i = some (element i) := by
  simp [arrayOf, findElement]

@[simp] theorem loopOverArray (elements : List Json) :
    loopOver (some (.array elements)) = elements.map some := by
  apply List.ext_getElem
  · simp [loopOver, getNumMems]
  · intro i _ inside
    have h : i < elements.length := by simpa using inside
    simp [loopOver, getNumMems, h]

@[simp] theorem findMemberObject (members : Members) (name : String) :
    findMember (some (.object members)) name = members.lookup name := rfl

@[simp] theorem getNumberNumber (value : ℚ) : getNumber (some (.number value)) = value := rfl

@[simp] theorem getNumberNat (n : ℕ) : getNumber (some (ofNat n)) = n := rfl

@[simp] theorem getStringString (value : String) : getString (some (.string value)) = some value := rfl

theorem getStringSome {node : Json} {value : String} (held : getString (some node) = some value) :
    node = .string value := by
  cases node with
  | string text => rw [Option.some.inj held]
  | null => cases held
  | bool flag => cases held
  | number n => cases held
  | array elements => cases held
  | object members => cases held

@[simp] theorem getBoolBool (value : Bool) : getBool (some (.bool value)) = value := rfl

@[simp] theorem getNumberNone : getNumber none = -1 := rfl

theorem lookupCons (key name : String) (value : Json) (later : Members) :
    List.lookup name ((key,value)::later) = if key = name then some value else later.lookup name := by
  rw [List.lookup_cons]
  by_cases same : key = name
  · simp [same]
  · have other : (name == key) = false := by simpa using Ne.symm same
    simp [same, other]

def keys (members : Members) : List String := members.map Prod.fst

@[simp] theorem keysCons (key : String) (value : Json) (later : Members) :
    keys ((key,value)::later) = key::keys later := rfl

theorem lookupNone {name : String} {members : Members} :
    members.lookup name = none ↔ name ∉ keys members := by
  induction members with
  | nil => simp [keys]
  | cons first later ih =>
    obtain ⟨key, value⟩ := first
    rw [lookupCons, keysCons, List.mem_cons, not_or]
    split
    · rename_i same
      exact iff_of_false (by simp) (fun both => both.1 same.symm)
    · rename_i different
      rw [ih]
      exact (and_iff_right (Ne.symm different)).symm

theorem lookupMem {name : String} {value : Json} {members : Members} (once : (keys members).Nodup) :
    members.lookup name = some value ↔ (name,value) ∈ members := by
  induction members with
  | nil => simp
  | cons first later ih =>
    obtain ⟨key, old⟩ := first
    obtain ⟨fresh, once⟩ := List.nodup_cons.mp once
    rw [lookupCons, List.mem_cons]
    split
    · rename_i same
      subst same
      have apart : (key,value) ∉ later := fun mem => fresh (List.mem_map.mpr ⟨_,mem,rfl⟩)
      simp [apart, eq_comm]
    · rename_i different
      rw [ih once]
      simp [Ne.symm different]

theorem lookupPerm {members after : Members} (same : members.Perm after) (once : (keys members).Nodup)
    (name : String) : members.lookup name = after.lookup name := by
  have once' : (keys after).Nodup := (same.map Prod.fst).nodup_iff.mp once
  apply Option.ext
  intro value
  rw [lookupMem once, lookupMem once', same.mem_iff]

theorem removeFirstKeys {name : String} {members : Members} {value : Json}
    (found : members.lookup name = some value) (once : (keys members).Nodup) :
    ∃ left, removeFirst name members = some left ∧ (keys left).Nodup ∧ name ∉ keys left ∧
      (∀ key ∈ keys left, key ∈ keys members) ∧
      ∀ other, other ≠ name → left.lookup other = members.lookup other := by
  induction members with
  | nil => simp at found
  | cons first later ih =>
    obtain ⟨key, old⟩ := first
    obtain ⟨fresh, once⟩ := List.nodup_cons.mp once
    rw [lookupCons] at found
    rw [removeFirst]
    split
    · rename_i same
      subst same
      refine ⟨later, rfl, once, fresh, fun k mem => List.mem_cons_of_mem _ mem, fun other different => ?_⟩
      rw [lookupCons, if_neg different.symm]
    · rename_i different
      rw [if_neg different] at found
      obtain ⟨left, removed, once', gone, sub, same⟩ := ih found once
      rw [removed]
      refine ⟨(key,old)::left, rfl, ?_, ?_, ?_, fun other apart => ?_⟩
      · exact List.nodup_cons.mpr ⟨fun mem => fresh (sub _ mem), once'⟩
      · intro mem
        rcases List.mem_cons.mp mem with same | mem
        · exact different same.symm
        · exact gone mem
      · intro k mem
        rcases List.mem_cons.mp mem with same | mem
        · exact List.mem_cons.mpr (Or.inl same)
        · exact List.mem_cons_of_mem _ (sub k mem)
      · rw [lookupCons, lookupCons, same other apart]

theorem modifyFirstLookup {name : String} {change : Json → Option Json} {members : Members}
    {value next : Json} (found : members.lookup name = some value) (changed : change value = some next) :
    ∃ after, modifyFirst name change members = some after ∧ keys after = keys members ∧
      after.lookup name = some next ∧
      ∀ other, other ≠ name → after.lookup other = members.lookup other := by
  induction members with
  | nil => simp at found
  | cons first later ih =>
    obtain ⟨key, old⟩ := first
    rw [lookupCons] at found
    rw [modifyFirst]
    split at found
    · rename_i same
      obtain rfl := Option.some.inj found
      rw [if_pos same, changed]
      refine ⟨_, rfl, rfl, by rw [lookupCons, if_pos same], fun other different => ?_⟩
      have apart : ¬ key = other := fun h => different (h.symm.trans same)
      rw [lookupCons, lookupCons, if_neg apart, if_neg apart]
    · rename_i different
      obtain ⟨after, modified, sameKeys, here, others⟩ := ih found
      rw [if_neg different, modified]
      refine ⟨(key,old)::after, rfl, by rw [keysCons, keysCons, sameKeys],
        by rw [lookupCons, if_neg different, here], fun other apart => ?_⟩
      rw [lookupCons, lookupCons, others other apart]

structure Distinct (object : Json) : Prop where
  keys : ∃ members, object = .object members ∧ (keys members).Nodup

theorem removeMemberSpec {object value : Json} {name : String} (distinct : Distinct object)
    (found : findMember (some object) name = some value) :
    ∃ left, removeMember name object = some left ∧ Distinct left ∧
      findMember (some left) name = none ∧
      ∀ other, other ≠ name → findMember (some left) other = findMember (some object) other := by
  obtain ⟨members, rfl, once⟩ := distinct.keys
  obtain ⟨left, removed, once', gone, -, others⟩ := removeFirstKeys found once
  exact ⟨.object left, by rw [removeMember, removed]; rfl, ⟨left,rfl,once'⟩, lookupNone.mpr gone, others⟩

theorem modifyMemberSpec {object value next : Json} {name : String} (change : Json → Option Json)
    (distinct : Distinct object) (found : findMember (some object) name = some value)
    (changed : change value = some next) :
    ∃ after, modifyMember name change object = some after ∧ Distinct after ∧
      findMember (some after) name = some next ∧
      ∀ other, other ≠ name → findMember (some after) other = findMember (some object) other := by
  obtain ⟨members, rfl, once⟩ := distinct.keys
  obtain ⟨after, modified, sameKeys, here, others⟩ := modifyFirstLookup found changed
  exact ⟨.object after, by rw [modifyMember, modified]; rfl, ⟨after,rfl,sameKeys ▸ once⟩, here, others⟩

theorem appendMemberSpec {object : Json} {name : String} (value : Json) (distinct : Distinct object)
    (fresh : findMember (some object) name = none) :
    ∃ after, appendMember name value object = some after ∧ Distinct after ∧
      findMember (some after) name = some value ∧
      ∀ other, other ≠ name → findMember (some after) other = findMember (some object) other := by
  obtain ⟨members, rfl, once⟩ := distinct.keys
  have none' : members.lookup name = none := fresh
  refine ⟨.object (members ++ [(name,value)]), rfl, ⟨_,rfl,?_⟩, ?_, fun other apart => ?_⟩
  · have apart := lookupNone.mp none'
    simp only [keys, List.map_append, List.map_cons, List.map_nil] at once apart ⊢
    exact List.nodup_append.mpr ⟨once, by simp, fun a mem b mem' same =>
      apart (List.mem_singleton.mp mem' ▸ same ▸ mem)⟩
  · rw [findMemberObject, List.lookup_append, none', lookupCons, if_pos rfl]
    rfl
  · rw [findMemberObject, findMemberObject, List.lookup_append, lookupCons, if_neg apart.symm]
    simp

end Lib.JsonTree
