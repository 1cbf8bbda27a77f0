import PennDaq.JsonShown

/-! Elements and members looked up in memory. -/
namespace PennDaq.JsonLookups
open Lib.Forest Lib.LinkedForest Lib.ForestImages Lib.ForestTrees
open PennDaq.Utf8 PennDaq.JsonNumbers PennDaq.JsonText PennDaq.JsonDocuments PennDaq.JsonMemory PennDaq.JsonValues
open PennDaq.JsonRuns PennDaq.JsonShown

section Lookups
variable {ν : Type}

def jsonFirstChild (node : Option Addr) (m : Memory (NodeData ν)) : Option (Option Addr) :=
  match node with
  | none => some none
  | some node => (m.cells node).map fun c => if hasChildren c.data then c.head else none

def findElementFrom (index : Int) : Nat → Int → Option Addr → Memory (NodeData ν) → Option (Option Addr)
  | _, _, none, _ => some none
  | 0, _, some _, _ => none
  | passes+1, i, some element, m =>
    if i = index then some (some element)
    else do
      let c ← m.cells element
      findElementFrom index passes (i+1) c.next m

def jsonFindElement (passes : Nat) (array : Option Addr) (index : Int) (m : Memory (NodeData ν)) : Option (Option Addr) :=
  match array with
  | none => some none
  | some a => do
    let c ← m.cells a
    if c.data.value.isArray = false then some none
    else do
      let element ← jsonFirstChild array m
      findElementFrom index passes 0 element m

/- `strcmp` reads the key, which may not be NULL. -/
def findMemberFrom (name : CText) : Nat → Option Addr → Memory (NodeData ν) → Option (Option Addr)
  | _, none, _ => some none
  | 0, some _, _ => none
  | passes+1, some member, m => do
    let c ← m.cells member
    let key ← c.data.key
    if key = name then some (some member)
    else findMemberFrom name passes c.next m

def jsonFindMember (passes : Nat) (object : Option Addr) (name : CText) (m : Memory (NodeData ν)) : Option (Option Addr) :=
  match object with
  | none => some none
  | some a => do
    let c ← m.cells a
    if c.data.value.isObject = false then some none
    else do
      let member ← jsonFirstChild object m
      findMemberFrom name passes member m

def countFrom : Nat → Int → Option Addr → Memory (NodeData ν) → Option Int
  | _, numMems, none, _ => some numMems
  | 0, _, some _, _ => none
  | passes+1, numMems, some element, m => do
    let c ← m.cells element
    countFrom passes (numMems+1) c.next m

def jsonGetNumMems (passes : Nat) (node : Option Addr) (m : Memory (NodeData ν)) : Option Int :=
  match node with
  | none => some (-1)
  | some a => do
    let c ← m.cells a
    if hasChildren c.data = false then some (-1)
    else do
      let element ← jsonFirstChild node m
      countFrom passes 0 element m

def elementAt (index : Int) : JsonNode ν → Option (JsonNode ν)
  | .array elements => if 0 ≤ index then elements[index.toNat]? else none
  | _ => none

def memberOf (name : CText) : JsonNode ν → Option (JsonNode ν)
  | .object members => (members.find? fun m => decide (m.1 = name)).map Prod.snd
  | _ => none

def numMems : JsonNode ν → Int
  | .array elements => elements.length
  | .object members => members.length
  | _ => -1

variable {m : Memory (NodeData ν)} {F : Family (NodeData ν)}

theorem elementsFrom (image : Image hasChildren m F) (index : Int) {q : Addr} {front list : List Addr}
    {elements : List (JsonNode ν)} (split : F.children q = front ++ list) (all : List.Forall₂ (Shows F) list elements)
    {passes : Nat} (enough : list.length ≤ passes) (i : Int) : ∃ found, findElementFrom index passes i list.head? m = some found ∧
      Option.Rel (Shows F) found (if i ≤ index then elements[(index-i).toNat]? else none) := by
  induction all generalizing front passes i with
  | nil =>
    refine ⟨none,?_,?_⟩
    · cases passes with
      | zero | succ => rfl
    · simp only [List.getElem?_nil, ite_self]
      exact .none
  | @cons c e list elements first others ih =>
    cases passes with
    | zero => cases enough
    | succ passes =>
      obtain ⟨cell, stored, after, _⟩ := childCell image split
      rw [List.head?_cons, findElementFrom, stored, Option.bind_eq_bind, Option.bind_some, after]
      split
      case isTrue here =>
        refine ⟨_,rfl,?_⟩
        rw [here, if_pos (Int.le_refl index), Int.sub_self, Int.toNat_zero, List.getElem?_cons_zero]
        exact .some first
      case isFalse other =>
        obtain ⟨found, done, shown⟩ := ih (by simp [split] : F.children q = (front ++ [c]) ++ list)
          (Nat.le_of_succ_le_succ enough) (i+1)
        refine ⟨found,done,?_⟩
        rcases Int.lt_or_le index i with less | most
        · rw [if_neg (by omega)] at shown ⊢
          exact shown
        · rw [if_pos (by omega)] at shown ⊢
          have next : (index-i).toNat = (index-(i+1)).toNat+1 := by omega
          rwa [next, List.getElem?_cons_succ]

theorem membersFrom (image : Image hasChildren m F) (name : CText) {q : Addr} {front list : List Addr}
    {members : List (CText × JsonNode ν)} (split : F.children q = front ++ list)
    (keys : List.Forall₂ (fun c k => keyOf F c = some k) list (members.map Prod.fst))
    (all : List.Forall₂ (Shows F) list (members.map Prod.snd)) {passes : Nat} (enough : list.length ≤ passes) :
    ∃ found, findMemberFrom name passes list.head? m = some found ∧
      Option.Rel (Shows F) found ((members.find? fun m => decide (m.1 = name)).map Prod.snd) := by
  induction members generalizing front list passes with
  | nil =>
    cases all
    refine ⟨none,?_,.none⟩
    cases passes with
    | zero | succ => rfl
  | cons member members ih =>
    cases all with
    | @cons c _ list _ first others =>
      cases keys with
      | cons key keys =>
        cases passes with
        | zero => cases enough
        | succ passes =>
          obtain ⟨cell, stored, after, held⟩ := childCell image split
          rw [keyOf, held, Option.bind_some] at key
          rw [List.head?_cons, findMemberFrom, stored, Option.bind_eq_bind, Option.bind_some, key, Option.bind_eq_bind,
            Option.bind_some, after]
          split
          case isTrue here =>
            refine ⟨_,rfl,?_⟩
            rw [List.find?_cons_of_pos (by simpa using here), Option.map_some]
            exact .some first
          case isFalse other =>
            rw [List.find?_cons_of_neg (by simpa using other)]
            exact ih (by simp [split] : F.children q = (front ++ [c]) ++ list) keys others (Nat.le_of_succ_le_succ enough)

theorem countedFrom (image : Image hasChildren m F) {q : Addr} {front list : List Addr} (split : F.children q = front ++ list)
    {passes : Nat} (enough : list.length ≤ passes) (counted : Int) :
    countFrom passes counted list.head? m = some (counted+list.length) := by
  induction list generalizing front passes counted with
  | nil =>
    cases passes with
    | zero | succ => simp [countFrom]
  | cons c list ih =>
    cases passes with
    | zero => cases enough
    | succ passes =>
      obtain ⟨cell, stored, after, _⟩ := childCell image split
      rw [List.head?_cons, countFrom, stored, Option.bind_eq_bind, Option.bind_some, after,
        ih (by simp [split] : F.children q = (front ++ [c]) ++ list) (Nat.le_of_succ_le_succ enough), List.length_cons]
      push_cast
      congr 1
      omega

theorem firstChild {a : Addr} {c : Cell (NodeData ν)} (stored : m.cells a = some c) (room : hasChildren c.data = true) :
    jsonFirstChild (some a) m = some c.head := by
  rw [jsonFirstChild, stored, Option.map_some, if_pos room]

theorem elementShown (image : Image hasChildren m F) {a : Addr} {node : JsonNode ν} (shows : Shows F a node) {passes : Nat}
    (enough : (F.children a).length ≤ passes) (index : Int) : ∃ found, jsonFindElement passes (some a) index m = some found ∧
      Option.Rel (Shows F) found (elementAt index node) := by
  unfold jsonFindElement
  cases shows with
  | array held all =>
    obtain ⟨c, stored, same, first⟩ := atNode image held
    have split : F.children a = [] ++ F.children a := rfl
    obtain ⟨found, done, shown⟩ := elementsFrom image index split all enough 0
    have room : hasChildren c.data = true := by rw [same]; rfl
    refine ⟨found,?_,?_⟩
    · simp only [stored, same, Option.bind_eq_bind, Option.bind_some, Value.isArray, firstChild stored room, first, done]
      rfl
    · rwa [Int.sub_zero] at shown
  | null held | bool held | string held | number held | object held =>
    obtain ⟨c, stored, same, first⟩ := atNode image held
    refine ⟨none,?_,.none⟩
    simp only [stored, same, Option.bind_eq_bind, Option.bind_some, Value.isArray, if_true]

theorem memberShown (image : Image hasChildren m F) {a : Addr} {node : JsonNode ν} (shows : Shows F a node) {passes : Nat}
    (enough : (F.children a).length ≤ passes) (name : CText) : ∃ found, jsonFindMember passes (some a) name m = some found ∧
      Option.Rel (Shows F) found (memberOf name node) := by
  unfold jsonFindMember
  cases shows with
  | object held keys all =>
    obtain ⟨c, stored, same, first⟩ := atNode image held
    have split : F.children a = [] ++ F.children a := rfl
    obtain ⟨found, done, shown⟩ := membersFrom image name split keys all enough
    have room : hasChildren c.data = true := by rw [same]; rfl
    refine ⟨found,?_,shown⟩
    simp only [stored, same, Option.bind_eq_bind, Option.bind_some, Value.isObject, firstChild stored room, first, done]
    rfl
  | null held | bool held | string held | number held | array held =>
    obtain ⟨c, stored, same, first⟩ := atNode image held
    refine ⟨none,?_,.none⟩
    simp only [stored, same, Option.bind_eq_bind, Option.bind_some, Value.isObject, if_true]

theorem numMemsShown (image : Image hasChildren m F) {a : Addr} {node : JsonNode ν} (shows : Shows F a node) {passes : Nat}
    (enough : (F.children a).length ≤ passes) : jsonGetNumMems passes (some a) m = some (numMems node) := by
  have counted := fun (c : Cell (NodeData ν)) (stored : m.cells a = some c) (first : c.head = (F.children a).head?)
      (room : hasChildren c.data = true) => by
    have split : F.children a = [] ++ F.children a := rfl
    have done := countedFrom image split enough 0
    rw [Int.zero_add, ← first] at done
    show jsonGetNumMems passes (some a) m = some ((F.children a).length : Int)
    simp only [jsonGetNumMems, stored, Option.bind_eq_bind, Option.bind_some, room, firstChild stored room, done,
      Bool.true_eq_false, if_false]
  cases shows with
  | array held all =>
    obtain ⟨c, stored, same, first⟩ := atNode image held
    rw [counted c stored first (by rw [same]; rfl), numMems, all.length_eq]
  | object held _ all =>
    obtain ⟨c, stored, same, first⟩ := atNode image held
    rw [counted c stored first (by rw [same]; rfl), numMems, all.length_eq, List.length_map]
  | null held | bool held | string held | number held =>
    obtain ⟨c, stored, same, first⟩ := atNode image held
    simp only [jsonGetNumMems, stored, same, Option.bind_eq_bind, Option.bind_some]
    rfl

end Lookups

/- In what a program has made the lookups see the value that the node shows. -/
theorem lookupsReached {ν : Type} {doubles : Doubles ν} {calls : List (Call ν)} {m : Memory (NodeData ν)}
    (reached : Reached doubles calls m) {a : Addr} (live : m.cells a ≠ none) : ∃ F node, Grown doubles calls F ∧ Image hasChildren m F ∧ Shows F a node ∧
      ∃ enough, ∀ passes, enough ≤ passes → jsonGetNumMems passes (some a) m = some (numMems node) ∧
        (∀ index, ∃ found, jsonFindElement passes (some a) index m = some found ∧
          Option.Rel (Shows F) found (elementAt index node)) ∧
        ∀ name, ∃ found, jsonFindMember passes (some a) name m = some found ∧
          Option.Rel (Shows F) found (memberOf name node) := by
  obtain ⟨F, grown, image, keyed⟩ := reachedImage reached
  obtain ⟨tree, denotes⟩ := someTree ((liveIff image).mp live)
  obtain ⟨node, shows⟩ := someShown keyed denotes
  refine ⟨F,node,grown,image,shows,(F.children a).length,fun passes enough => ⟨?_,?_,?_⟩⟩
  · exact numMemsShown image shows enough
  · exact elementShown image shows enough
  · exact memberShown image shows enough

def lookupCalls : List (Call CText) :=
  [.mknode .array,.mknode (.string letter),.mknode .null,.appendElement 0 1,.appendElement 0 2,
    .mknode .object,.mknode (.bool true),.mknode (.bool false),.appendMember 3 letter 4,.appendMember 3 letter 5]

def lookupMemory : Memory (NodeData CText) := (performed texts 9 lookupCalls Memory.empty).getD Memory.empty

theorem lookupReached : Reached texts lookupCalls lookupMemory := givenReached (by decide +kernel)

theorem elementsLive : lookupMemory.cells 0 ≠ none := Option.isSome_iff_ne_none.mp (by decide +kernel)

theorem membersLive : lookupMemory.cells 3 ≠ none := Option.isSome_iff_ne_none.mp (by decide +kernel)

/- The second element, no third one, and the first member of the name. -/
theorem lookupsReachedTwice :
    (∃ (F : Family (NodeData CText)) (enough : Nat), ∀ passes, enough ≤ passes →
      jsonGetNumMems passes (some 0) lookupMemory = some 2 ∧
      (∃ found, jsonFindElement passes (some 0) 1 lookupMemory = some found ∧ Option.Rel (Shows F) found (some .null)) ∧
      ∃ found, jsonFindElement passes (some 0) 2 lookupMemory = some found ∧ Option.Rel (Shows F) found none) ∧
    ∃ (F : Family (NodeData CText)) (enough : Nat), ∀ passes, enough ≤ passes →
      jsonGetNumMems passes (some 3) lookupMemory = some 2 ∧
      (∃ found, jsonFindMember passes (some 3) letter lookupMemory = some found ∧
        Option.Rel (Shows F) found (some (.bool true))) ∧
      ∃ found, jsonFindMember passes (some 3) otherLetter lookupMemory = some found ∧ Option.Rel (Shows F) found none := by
  constructor
  · obtain ⟨F, node, _, image, shows, enough, looked⟩ := lookupsReached lookupReached elementsLive
    have children := childrenRead image (by decide +kernel : childrenAt 9 0 lookupMemory = some [1,2])
    have array : F.data 0 = some ⟨none,.array⟩ := dataRead image (by decide +kernel)
    have string : F.data 1 = some ⟨none,.string letter⟩ := dataRead image (by decide +kernel)
    have null : F.data 2 = some ⟨none,.null⟩ := dataRead image (by decide +kernel)
    have here : node = .array [.string letter,.null] :=
      showsUnique (.array array (by rw [children]; exact .cons (.string string) (.cons (.null null) .nil))) shows
    rw [here] at looked
    exact ⟨F,enough,fun passes large => ⟨(looked passes large).1,(looked passes large).2.1 1,(looked passes large).2.1 2⟩⟩
  · obtain ⟨F, node, _, image, shows, enough, looked⟩ := lookupsReached lookupReached membersLive
    have children := childrenRead image (by decide +kernel : childrenAt 9 3 lookupMemory = some [4,5])
    have object : F.data 3 = some ⟨none,.object⟩ := dataRead image (by decide +kernel)
    have yes : F.data 4 = some ⟨some letter,.bool true⟩ := dataRead image (by decide +kernel)
    have no : F.data 5 = some ⟨some letter,.bool false⟩ := dataRead image (by decide +kernel)
    have here : node = .object [(letter,.bool true),(letter,.bool false)] := by
      refine showsUnique (.object object ?_ ?_) shows
      · rw [children]
        exact .cons (by rw [keyOf, yes]; rfl) (.cons (by rw [keyOf, no]; rfl) .nil)
      · rw [children]
        exact .cons (.bool yes) (.cons (.bool no) .nil)
    rw [here] at looked
    have first : memberOf letter (.object [(letter,.bool true),(letter,.bool false)]) = some (.bool true : JsonNode CText) := by
      simp [memberOf]
    have missing : memberOf otherLetter (.object [(letter,.bool true),(letter,.bool false)] : JsonNode CText) = none := by
      simp [memberOf, letter, otherLetter]
    refine ⟨F,enough,fun passes large => ⟨(looked passes large).1,?_,?_⟩⟩
    · rw [← first]
      exact (looked passes large).2.2 letter
    · rw [← missing]
      exact (looked passes large).2.2 otherLetter

end PennDaq.JsonLookups
