import PennDaq.JsonMemory

/-! The values that nodes in memory stand for. -/
namespace PennDaq.JsonValues
open Lib.Forest Lib.LinkedForest Lib.ForestImages Lib.ForestTrees
open PennDaq.Utf8 PennDaq.JsonText PennDaq.JsonMemory

section Keys
variable {ν : Type} {F F' : Family (NodeData ν)}

def Keyed (F : Family (NodeData ν)) : Prop :=
  ∀ q c dq dc, F.data q = some dq → dq.value.isObject = true → c ∈ F.children q → F.data c = some dc → dc.key ≠ none

theorem keyedPlant (keyed : Keyed F) {a : Addr} {d d' : NodeData ν} (held : F.data a = some d)
    (same : d'.value = d.value) (key : d'.key ≠ none ∨ F.Root a) : Keyed (F.plant a d') := by
  intro q c dq dc heldQ object member heldC
  change Family.planted F a d' q = some dq at heldQ
  change Family.planted F a d' c = some dc at heldC
  have objectThen : ∃ dq', F.data q = some dq' ∧ dq'.value.isObject = true := by
    unfold Family.planted at heldQ
    split at heldQ
    case isTrue here =>
      cases heldQ
      exact ⟨d,here ▸ held,same ▸ object⟩
    case isFalse => exact ⟨dq,heldQ,object⟩
  obtain ⟨dq', heldQ', object'⟩ := objectThen
  unfold Family.planted at heldC
  split at heldC
  case isTrue here =>
    cases heldC
    rcases key with key | root
    · exact key
    · exact absurd (here ▸ member) (root q)
  case isFalse => exact keyed q c dq' dc heldQ' object' member heldC

theorem keyedAdopt (keyed : Keyed F) {q e : Addr} {list : List Addr} (adoptable : F.Adoptable q e list) {d : NodeData ν}
    (held : F.data q = some d) (key : d.value.isObject = true → ∀ de, F.data e = some de → de.key ≠ none) :
    Keyed (F.adopt adoptable) := by
  intro p c dp dc heldP object member heldC
  rcases Family.adoptedCases adoptable member with old | ⟨rfl, rfl⟩
  · exact keyed p c dp dc heldP object old heldC
  · cases held.symm.trans heldP
    exact key object dc heldC

theorem arrayNotObject {v : Value ν} (array : v.isArray = true) : v.isObject ≠ true := by
  cases v with
  | array => exact Bool.false_ne_true
  | null | bool | string | number | object => cases array

theorem keyedMember (keyed : Keyed F) {object value : Addr} {key : CText} {d : NodeData ν} {list : List Addr}
    (held : F.data value = some d)
    (adoptable : (F.plant value { d with key := some key }).Adoptable object value list) :
    Keyed ((F.plant value { d with key := some key }).adopt adoptable) := by
  have planted : Keyed (F.plant value { d with key := some key }) :=
    keyedPlant keyed held rfl (Or.inl (Option.some_ne_none key))
  obtain ⟨d'', live'⟩ := Option.ne_none_iff_exists'.mp adoptable.live
  refine keyedAdopt planted adoptable live' fun _ de held' => ?_
  cases (if_pos rfl : Family.planted F value { d with key := some key } value = _).symm.trans held'
  exact Option.some_ne_none key

end Keys

section Values
variable {ν : Type} {m : Memory (NodeData ν)}

def keyOf (F : Family (NodeData ν)) (a : Addr) : Option CText := (F.data a).bind NodeData.key

inductive Shows (F : Family (NodeData ν)) : Addr → JsonNode ν → Prop where
  | null {a key} (held : F.data a = some ⟨key,.null⟩) : Shows F a .null
  | bool {a key bool'} (held : F.data a = some ⟨key,.bool bool'⟩) : Shows F a (.bool bool')
  | string {a key string'} (held : F.data a = some ⟨key,.string string'⟩) : Shows F a (.string string')
  | number {a key number'} (held : F.data a = some ⟨key,.number number'⟩) : Shows F a (.number number')
  | array {a key elements} (held : F.data a = some ⟨key,.array⟩) (all : List.Forall₂ (Shows F) (F.children a) elements) :
    Shows F a (.array elements)
  | object {a key members} (held : F.data a = some ⟨key,.object⟩)
    (keys : List.Forall₂ (fun c k => keyOf F c = some k) (F.children a) (members.map Prod.fst))
    (all : List.Forall₂ (Shows F) (F.children a) (members.map Prod.snd)) : Shows F a (.object members)

variable {F : Family (NodeData ν)}

theorem someShown (keyed : Keyed F) {a : Addr} {tree : Branch (NodeData ν)} (denotes : Denotes F a tree) :
    ∃ node, Shows F a node := by
  induction tree generalizing a with
  | node d trees ih =>
    cases denotes with
    | mk held all =>
      obtain ⟨key, value⟩ := d
      have each : ∀ c ∈ F.children a, ∃ node, Shows F c node := fun c member => by
        obtain ⟨t, inside, ofChild⟩ := forallLeft all c member
        exact ih t inside ofChild
      obtain ⟨nodes, shown⟩ := forallSome each
      cases value with
      | null => exact ⟨_,.null held⟩
      | bool => exact ⟨_,.bool held⟩
      | string => exact ⟨_,.string held⟩
      | number => exact ⟨_,.number held⟩
      | array => exact ⟨_,.array held shown⟩
      | object =>
        have named : ∀ c ∈ F.children a, ∃ key, keyOf F c = some key := fun c member => by
          obtain ⟨dc, heldC⟩ := Option.ne_none_iff_exists'.mp (F.inside a c member).2
          obtain ⟨k, some⟩ := Option.ne_none_iff_exists'.mp (keyed a c _ dc held rfl member heldC)
          exact ⟨k,by rw [keyOf, heldC, Option.bind_some, some]⟩
        obtain ⟨keys, named⟩ := forallSome named
        have same : keys.length = nodes.length := named.length_eq.symm.trans shown.length_eq
        refine ⟨.object (keys.zip nodes),.object held ?_ ?_⟩
        · rwa [List.map_fst_zip (Nat.le_of_eq same)]
        · rwa [List.map_snd_zip (Nat.le_of_eq same.symm)]

theorem leafOf (image : Image hasChildren m F) {a : Addr} {d : NodeData ν} (held : F.data a = some d)
    (leaf : hasChildren d = false) : F.children a = [] := by
  obtain ⟨c, stored⟩ := image.live (fun none => nomatch held.symm.trans none)
  have right := image.right a c stored
  have same : c.data = d := Option.some.inj (right.data.symm.trans held)
  exact right.leaf (same ▸ leaf)

theorem showsBelow (image : Image hasChildren m F) {a x : Addr} {node : JsonNode ν} (shows : Shows F a node)
    (below : F.Below a x) : ∃ node', Shows F x node' := by
  induction below with
  | refl => exact ⟨node,shows⟩
  | tail _ member ih =>
    obtain ⟨node', shows'⟩ := ih
    cases shows' with
    | null held | bool held | string held | number held =>
      rw [leafOf image held rfl] at member
      cases member
    | array _ all | object _ _ all =>
      obtain ⟨e, _, shown⟩ := forallLeft all _ member
      exact ⟨e,shown⟩

theorem showsKeys {q c : Addr} {node : JsonNode ν} {dq dc : NodeData ν} (shows : Shows F q node) (heldQ : F.data q = some dq)
    (object : dq.value.isObject = true) (member : c ∈ F.children q) (heldC : F.data c = some dc) : dc.key ≠ none := by
  cases shows with
  | null held | bool held | string held | number held | array held =>
    cases held.symm.trans heldQ
    cases object
  | object _ keys _ =>
    obtain ⟨key, _, named⟩ := forallLeft keys c member
    rw [keyOf, heldC, Option.bind_some] at named
    rw [named]
    exact Option.some_ne_none key

theorem forallSwap {α β γ δ : Type} {R : α → β → Prop} {R' : γ → β → Prop} {S : α → δ → Prop} {S' : γ → δ → Prop}
    {as : List α} {bs : List β} {cs : List γ} {ds : List δ} (one : List.Forall₂ R as bs) (two : List.Forall₂ R' cs bs)
    (three : List.Forall₂ S as ds) (each : ∀ a, ∀ b ∈ bs, ∀ c d, R a b → R' c b → S a d → S' c d) :
    List.Forall₂ S' cs ds := by
  induction one generalizing cs ds with
  | nil =>
    cases two
    cases three
    exact .nil
  | cons first _ ih =>
    cases two with
    | cons first' others' =>
      cases three with
      | cons first'' others'' =>
        refine .cons (each _ _ List.mem_cons_self _ _ first first' first'') (ih others' others'' fun a b inside => ?_)
        exact each a b (List.mem_cons_of_mem _ inside)

theorem showsSame {F' : Family (NodeData ν)} {tree : Branch (NodeData ν)} {a a' : Addr} {node : JsonNode ν}
    (denotes : Denotes F a tree) (denotes' : Denotes F' a' tree) (shows : Shows F a node) : Shows F' a' node := by
  induction tree generalizing a a' node with
  | node d trees ih =>
    cases denotes with
    | mk held all =>
      cases denotes' with
      | mk held' all' =>
        cases shows with
        | null heldS =>
          cases held.symm.trans heldS
          exact .null held'
        | bool heldS =>
          cases held.symm.trans heldS
          exact .bool held'
        | string heldS =>
          cases held.symm.trans heldS
          exact .string held'
        | number heldS =>
          cases held.symm.trans heldS
          exact .number held'
        | array heldS allS =>
          cases held.symm.trans heldS
          exact .array held' (forallSwap all all' allS fun a t inside c e => ih t inside)
        | object heldS keysS allS =>
          cases held.symm.trans heldS
          refine .object held' (forallSwap all all' keysS fun a t inside c k one two key => ?_)
            (forallSwap all all' allS fun a t inside c e => ih t inside)
          cases one with
          | mk heldA _ =>
            cases two with
            | mk heldC _ =>
              rw [keyOf, heldA] at key
              rw [keyOf, heldC, key]

end Values

end PennDaq.JsonValues
