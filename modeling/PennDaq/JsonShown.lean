import PennDaq.JsonChecks
import PennDaq.JsonDocuments

/-! The value that a node in memory stands for: what is written for the node, and what is
looked up in it. -/
namespace PennDaq.JsonShown
open Lib.Forest Lib.LinkedForest Lib.ForestImages Lib.ForestTrees Lib.Building
open PennDaq.Utf8 PennDaq.StringBuffer PennDaq.JsonNumbers PennDaq.JsonText PennDaq.JsonParse PennDaq.JsonWriting
open PennDaq.JsonGrammar PennDaq.JsonDocuments PennDaq.JsonMemory PennDaq.JsonValues PennDaq.JsonBuilding
open PennDaq.JsonRuns PennDaq.JsonChecks

section Values
variable {ν : Type} {F : Family (NodeData ν)}

def stuck : Emit := fun _ => none

section Emitting
variable (doubles : Doubles ν) (m : Memory (NodeData ν))

def atCell (a : Addr) (emit : Cell (NodeData ν) → Emit) : Emit := fun out => (m.cells a).bind fun c => emit c out

def emitKey : Option CText → Emit
  | some key => emitString key.memory
  | none => stuck

mutual

def emitValueAt : Nat → Addr → Emit
  | 0, _ => stuck
  | passes+1, node => atCell m node fun c => match c.data.value with
    | .null => SB.sbPuts null
    | .bool bool' => SB.sbPuts (if bool' then true' else false')
    | .string string' => emitString string'.memory
    | .number number' => emitNumber doubles number'
    | .array => also (SB.sbPutc '['.toUInt8) (also (emitArrayAt passes c.head) (SB.sbPutc ']'.toUInt8))
    | .object => also (SB.sbPutc '{'.toUInt8) (also (emitObjectAt passes c.head) (SB.sbPutc '}'.toUInt8))

def emitArrayAt : Nat → Option Addr → Emit
  | _, none => nothing
  | 0, some _ => stuck
  | passes+1, some element => atCell m element fun c => also (emitValueAt passes element)
    (also (if c.next.isNone then nothing else SB.sbPutc ','.toUInt8) (emitArrayAt passes c.next))

def emitObjectAt : Nat → Option Addr → Emit
  | _, none => nothing
  | 0, some _ => stuck
  | passes+1, some member => atCell m member fun c => also (emitKey c.data.key) (also (SB.sbPutc ':'.toUInt8)
    (also (emitValueAt passes member)
    (also (if c.next.isNone then nothing else SB.sbPutc ','.toUInt8) (emitObjectAt passes c.next))))

end

mutual

def emitValueIndentedAt (space : Text) : Nat → Nat → Addr → Emit
  | 0, _, _ => stuck
  | passes+1, level, node => atCell m node fun c => match c.data.value with
    | .null => SB.sbPuts null
    | .bool bool' => SB.sbPuts (if bool' then true' else false')
    | .string string' => emitString string'.memory
    | .number number' => emitNumber doubles number'
    | .array =>
      if c.head.isNone then SB.sbPuts ['['.toUInt8,']'.toUInt8]
      else also (SB.sbPuts ['['.toUInt8,0x0A]) (also (emitArrayIndentedAt space passes level c.head)
        (also (indent space level) (SB.sbPutc ']'.toUInt8)))
    | .object =>
      if c.head.isNone then SB.sbPuts ['{'.toUInt8,'}'.toUInt8]
      else also (SB.sbPuts ['{'.toUInt8,0x0A]) (also (emitObjectIndentedAt space passes level c.head)
        (also (indent space level) (SB.sbPutc '}'.toUInt8)))

def emitArrayIndentedAt (space : Text) : Nat → Nat → Option Addr → Emit
  | _, _, none => nothing
  | 0, _, some _ => stuck
  | passes+1, level, some element => atCell m element fun c => also (indent space (level+1))
    (also (emitValueIndentedAt space passes (level+1) element)
    (also (SB.sbPuts (if c.next.isNone then [0x0A] else [','.toUInt8,0x0A])) (emitArrayIndentedAt space passes level c.next)))

def emitObjectIndentedAt (space : Text) : Nat → Nat → Option Addr → Emit
  | _, _, none => nothing
  | 0, _, some _ => stuck
  | passes+1, level, some member => atCell m member fun c => also (indent space (level+1)) (also (emitKey c.data.key)
    (also (SB.sbPuts [':'.toUInt8,0x20]) (also (emitValueIndentedAt space passes (level+1) member)
    (also (SB.sbPuts (if c.next.isNone then [0x0A] else [','.toUInt8,0x0A]))
      (emitObjectIndentedAt space passes level c.next)))))

end

def jsonStringifyAt (passes : Nat) (node : Addr) (space : Option CText) : Option CText := do
  let sb ← match space with
    | some space => emitValueIndentedAt doubles m space.bytes passes 0 node SB.sbInit
    | none => emitValueAt doubles m passes node SB.sbInit
  sb.sbFinish

end Emitting

section Settling
variable {doubles : Doubles ν} {m : Memory (NodeData ν)}

theorem atCellSome {a : Addr} {c : Cell (NodeData ν)} (stored : m.cells a = some c) (emit : Cell (NodeData ν) → Emit) :
    atCell m a emit = emit c := by
  funext out
  rw [atCell, stored, Option.bind_some]

theorem headNone {α β : Type} {R : α → β → Prop} {list : List α} {list' : List β} (all : List.Forall₂ R list list') :
    list.head?.isNone = list'.isEmpty := by
  cases all with
  | nil | cons => rfl

theorem childCell (image : Image hasChildren m F) {q c : Addr} {front back : List Addr}
    (split : F.children q = front ++ c::back) : ∃ cell, m.cells c = some cell ∧ cell.next = back.head? ∧
      F.data c = some cell.data := by
  obtain ⟨cell, stored⟩ := image.live (F.inside q c (by simp [split])).2
  have right := image.right c cell stored
  obtain ⟨_, _, after⟩ := right.child q front back split
  exact ⟨cell,stored,after,right.data⟩

theorem settlesArray (image : Image hasChildren m F) {q : Addr} {front list : List Addr} {elements : List (JsonNode ν)}
    (split : F.children q = front ++ list) (all : List.Forall₂ (Shows F) list elements)
    (ih : ∀ e ∈ elements, ∀ a, Shows F a e → Settles (fun passes => emitValueAt doubles m passes a) (emitValue doubles e)) :
    Settles (fun passes => emitArrayAt doubles m passes list.head?) (emitElements doubles elements) := by
  induction all generalizing front with
  | nil =>
    refine ⟨0,fun passes _ => ?_⟩
    cases passes with
    | zero | succ => rfl
  | @cons c e list elements first others ih' =>
    obtain ⟨ihFirst, ihOthers⟩ := List.forall_mem_cons.mp ih
    obtain ⟨cell, stored, after, _⟩ := childCell image split
    have rest := ih' (by simp [split] : F.children q = (front ++ [c]) ++ list) ihOthers
    refine settlesLater ?_
    simp only [List.head?_cons, emitArrayAt, emitElements, atCellSome stored, after, headNone others]
    exact settlesWith also (ihFirst c first) (settlesWith also (settlesSame _) rest)

theorem settlesObject (image : Image hasChildren m F) {q : Addr} {front list : List Addr}
    {members : List (CText × JsonNode ν)} (split : F.children q = front ++ list)
    (keys : List.Forall₂ (fun c k => keyOf F c = some k) list (members.map Prod.fst))
    (all : List.Forall₂ (Shows F) list (members.map Prod.snd))
    (ih : ∀ e ∈ members, ∀ a, Shows F a e.2 → Settles (fun passes => emitValueAt doubles m passes a) (emitValue doubles e.2)) :
    Settles (fun passes => emitObjectAt doubles m passes list.head?) (emitMembers doubles members) := by
  induction members generalizing front list with
  | nil =>
    cases all
    refine ⟨0,fun passes _ => ?_⟩
    cases passes with
    | zero | succ => rfl
  | cons member members ih' =>
    obtain ⟨ihFirst, ihOthers⟩ := List.forall_mem_cons.mp ih
    cases all with
    | @cons c _ list _ first others =>
      cases keys with
      | cons key keys =>
        obtain ⟨cell, stored, after, held⟩ := childCell image split
        rw [keyOf, held, Option.bind_some] at key
        have rest := ih' (by simp [split] : F.children q = (front ++ [c]) ++ list) keys others ihOthers
        have last : list.head?.isNone = members.isEmpty := (headNone others).trans List.isEmpty_map
        refine settlesLater ?_
        simp only [List.head?_cons, emitObjectAt, emitMembers, atCellSome stored, after, last, key, emitKey]
        exact settlesWith also (settlesSame _) (settlesWith also (settlesSame _)
          (settlesWith also (ihFirst c first) (settlesWith also (settlesSame _) rest)))

theorem atNode (image : Image hasChildren m F) {a : Addr} {d : NodeData ν} (held : F.data a = some d) :
    ∃ c, m.cells a = some c ∧ c.data = d ∧ c.head = (F.children a).head? := by
  obtain ⟨c, stored⟩ := image.live (fun none => nomatch held.symm.trans none)
  have right := image.right a c stored
  exact ⟨c,stored,Option.some.inj (right.data.symm.trans held),right.head⟩

theorem settlesValue (image : Image hasChildren m F) (node : JsonNode ν) {a : Addr} (shows : Shows F a node) :
    Settles (fun passes => emitValueAt doubles m passes a) (emitValue doubles node) := by
  induction node generalizing a with
  | null | bool | string | number =>
    cases shows with
    | _ held =>
      obtain ⟨c, stored, same, _⟩ := atNode image held
      refine settlesLater ?_
      simp only [emitValueAt, emitValue, atCellSome stored, same]
      exact settlesSame _
  | array elements ih =>
    cases shows with
    | array held all =>
      obtain ⟨c, stored, same, first⟩ := atNode image held
      have split : F.children a = [] ++ F.children a := rfl
      have inner := settlesArray image split all fun e inside a => ih e inside
      refine settlesLater ?_
      simp only [emitValueAt, emitValue, atCellSome stored, same, first]
      exact settlesWith also (settlesSame _) (settlesWith also inner (settlesSame _))
  | object members ih =>
    cases shows with
    | object held keys all =>
      obtain ⟨c, stored, same, first⟩ := atNode image held
      have split : F.children a = [] ++ F.children a := rfl
      have inner := settlesObject image split keys all fun e inside a => ih e inside
      refine settlesLater ?_
      simp only [emitValueAt, emitValue, atCellSome stored, same, first]
      exact settlesWith also (settlesSame _) (settlesWith also inner (settlesSame _))

section Indented
variable {space : Text}

theorem settlesArrayIndented (image : Image hasChildren m F) {level : Nat} {q : Addr} {front list : List Addr}
    {elements : List (JsonNode ν)} (split : F.children q = front ++ list) (all : List.Forall₂ (Shows F) list elements)
    (ih : ∀ e ∈ elements, ∀ a, Shows F a e → Settles (fun passes => emitValueIndentedAt doubles m space passes (level+1) a)
      (emitValueIndented doubles space (level+1) e)) :
    Settles (fun passes => emitArrayIndentedAt doubles m space passes level list.head?)
      (emitElementsIndented doubles space level elements) := by
  induction all generalizing front with
  | nil =>
    refine ⟨0,fun passes _ => ?_⟩
    cases passes with
    | zero | succ => simp only [List.head?_nil, emitArrayIndentedAt, emitElementsIndented]
  | @cons c e list elements first others ih' =>
    obtain ⟨ihFirst, ihOthers⟩ := List.forall_mem_cons.mp ih
    obtain ⟨cell, stored, after, _⟩ := childCell image split
    have rest := ih' (by simp [split] : F.children q = (front ++ [c]) ++ list) ihOthers
    refine settlesLater ?_
    simp only [List.head?_cons, emitArrayIndentedAt, emitElementsIndented, atCellSome stored, after, headNone others]
    exact settlesWith also (settlesSame _) (settlesWith also (ihFirst c first) (settlesWith also (settlesSame _) rest))

theorem settlesObjectIndented (image : Image hasChildren m F) {level : Nat} {q : Addr} {front list : List Addr}
    {members : List (CText × JsonNode ν)} (split : F.children q = front ++ list)
    (keys : List.Forall₂ (fun c k => keyOf F c = some k) list (members.map Prod.fst))
    (all : List.Forall₂ (Shows F) list (members.map Prod.snd))
    (ih : ∀ e ∈ members, ∀ a, Shows F a e.2 → Settles (fun passes => emitValueIndentedAt doubles m space passes (level+1) a)
      (emitValueIndented doubles space (level+1) e.2)) :
    Settles (fun passes => emitObjectIndentedAt doubles m space passes level list.head?)
      (emitMembersIndented doubles space level members) := by
  induction members generalizing front list with
  | nil =>
    cases all
    refine ⟨0,fun passes _ => ?_⟩
    cases passes with
    | zero | succ => simp only [List.head?_nil, emitObjectIndentedAt, emitMembersIndented]
  | cons member members ih' =>
    obtain ⟨ihFirst, ihOthers⟩ := List.forall_mem_cons.mp ih
    cases all with
    | @cons c _ list _ first others =>
      cases keys with
      | cons key keys =>
        obtain ⟨cell, stored, after, held⟩ := childCell image split
        rw [keyOf, held, Option.bind_some] at key
        have rest := ih' (by simp [split] : F.children q = (front ++ [c]) ++ list) keys others ihOthers
        have last : list.head?.isNone = members.isEmpty := (headNone others).trans List.isEmpty_map
        refine settlesLater ?_
        simp only [List.head?_cons, emitObjectIndentedAt, emitMembersIndented, atCellSome stored, after, last, key, emitKey]
        exact settlesWith also (settlesSame _) (settlesWith also (settlesSame _) (settlesWith also (settlesSame _)
          (settlesWith also (ihFirst c first) (settlesWith also (settlesSame _) rest))))

theorem settlesValueIndented (image : Image hasChildren m F) (node : JsonNode ν) {a : Addr} (level : Nat)
    (shows : Shows F a node) :
    Settles (fun passes => emitValueIndentedAt doubles m space passes level a) (emitValueIndented doubles space level node) := by
  induction node generalizing a level with
  | null | bool | string | number =>
    cases shows with
    | _ held =>
      obtain ⟨c, stored, same, _⟩ := atNode image held
      refine settlesLater ?_
      simp only [emitValueIndentedAt, emitValueIndented, atCellSome stored, same]
      exact settlesSame _
  | array elements ih =>
    cases shows with
    | array held all =>
      obtain ⟨c, stored, same, first⟩ := atNode image held
      have split : F.children a = [] ++ F.children a := rfl
      have inner := settlesArrayIndented image split all fun e inside a => ih e inside (level+1)
      refine settlesLater ?_
      simp only [emitValueIndentedAt, emitValueIndented, atCellSome stored, same, first, headNone all]
      split
      case isTrue => exact settlesSame _
      case isFalse => exact settlesWith also (settlesSame _) (settlesWith also inner (settlesSame _))
  | object members ih =>
    cases shows with
    | object held keys all =>
      obtain ⟨c, stored, same, first⟩ := atNode image held
      have split : F.children a = [] ++ F.children a := rfl
      have inner := settlesObjectIndented image split keys all fun e inside a => ih e inside (level+1)
      have last : (F.children a).head?.isNone = members.isEmpty := (headNone all).trans List.isEmpty_map
      refine settlesLater ?_
      simp only [emitValueIndentedAt, emitValueIndented, atCellSome stored, same, first, last]
      split
      case isTrue => exact settlesSame _
      case isFalse => exact settlesWith also (settlesSame _) (settlesWith also inner (settlesSame _))

end Indented

theorem settlesText (image : Image hasChildren m F) {node : JsonNode ν} {a : Addr} (shows : Shows F a node)
    (space : Option CText) :
    Settles (fun passes => jsonStringifyAt doubles m passes a space) (jsonStringify doubles node space) := by
  unfold jsonStringifyAt jsonStringify
  cases space with
  | none => exact settlesWith (fun emit _ => (emit SB.sbInit).bind SB.sbFinish) (settlesValue image node shows) (settlesSame ())
  | some space =>
    exact settlesWith (fun emit _ => (emit SB.sbInit).bind SB.sbFinish) (settlesValueIndented image node 0 shows) (settlesSame ())

end Settling

theorem properStrings {node : JsonNode ν} {a : Addr} (shows : Shows F a node) (proper : Proper F a) :
    ∀ s ∈ strings node, Valid s := by
  induction node generalizing a with
  | null | bool | number => simp [strings]
  | string string' =>
    cases shows with
    | string held =>
      have fine := proper a (Family.belowSelf a) _ held
      exact List.forall_mem_singleton.mpr (fine.string _ rfl)
  | array elements ih =>
    cases shows with
    | array held all =>
      refine (allElements elements).mpr fun e inside => ?_
      obtain ⟨c, member, shown⟩ := forallRight all e inside
      exact ih e inside shown (((properCases held).mp proper).2 c member)
  | object members ih =>
    cases shows with
    | object held keys all =>
      have each := ((properCases held).mp proper).2
      refine (allMembers members).mpr fun e inside => ⟨?_,?_⟩
      · obtain ⟨c, member, key⟩ := forallRight keys e.1 (List.mem_map_of_mem inside)
        obtain ⟨dc, heldC, key'⟩ := Option.bind_eq_some_iff.mp key
        exact (each c member c (Family.belowSelf c) dc heldC).key e.1 key'
      · obtain ⟨c, member, shown⟩ := forallRight all e.2 (List.mem_map_of_mem inside)
        exact ih e inside shown (each c member)

end Values

theorem forallUnique {α β : Type} {R : α → β → Prop} {list : List α} {bs bs' : List β} (one : List.Forall₂ R list bs)
    (two : List.Forall₂ R list bs') (each : ∀ b ∈ bs, ∀ a b', R a b → R a b' → b' = b) : bs' = bs := by
  induction one generalizing bs' with
  | nil =>
    cases two
    rfl
  | cons here _ ih =>
    cases two with
    | cons here' others =>
      rw [each _ List.mem_cons_self _ _ here here', ih others fun b inside => each b (List.mem_cons_of_mem _ inside)]

theorem showsUnique {ν : Type} {F : Family (NodeData ν)} {node node' : JsonNode ν} {a : Addr} (one : Shows F a node)
    (two : Shows F a node') : node' = node := by
  induction node generalizing a node' with
  | null | bool | string | number =>
    cases one with
    | _ held => cases two with
      | null held' | bool held' | string held' | number held' | array held' | object held' =>
        cases held.symm.trans held'
        try rfl
  | array elements ih =>
    cases one with
    | array held all => cases two with
      | null held' | bool held' | string held' | number held' | object held' => cases held.symm.trans held'
      | array held' all' => rw [forallUnique all all' fun e inside c e' => ih e inside]
  | object members ih =>
    cases one with
    | object held keys all => cases two with
      | null held' | bool held' | string held' | number held' | array held' => cases held.symm.trans held'
      | @object _ _ members' held' keys' all' =>
        have names := forallUnique keys keys' fun k _ c k' key key' => Option.some.inj (key'.symm.trans key)
        have values := forallUnique all all' fun e inside c e' => by
          obtain ⟨m, member, rfl⟩ := List.mem_map.mp inside
          exact ih m member
        have pairs : members' = members := by
          rw [← List.zip_unzip members', ← List.zip_unzip members, List.unzip_eq_map, List.unzip_eq_map, names, values]
        rw [pairs]

/- What a program has made and `json_check` passes is written if it has an indentation that can
be, and decoded into a new node that shows the same value unless a string holds the byte 0x1F. -/
theorem stringifyReached {ν : Type} (doubles : Doubles ν) {calls : List (Call ν)} {m : Memory (NodeData ν)}
    (reached : Reached doubles calls m) {a : Addr} (live : m.cells a ≠ none) (space : Option CText)
    (spaced : ∀ text ∈ space, Spaces text.bytes) : ∃ F node, Grown doubles calls F ∧ Image hasChildren m F ∧ Shows F a node ∧
      Settles (fun passes => jsonStringifyAt doubles m passes a space) (jsonStringify doubles node space) ∧
      (Settles (fun passes => jsonCheck passes a m) (some none) → Indents space node →
        ∃ json, jsonStringify doubles node space = some json ∧
          ((∀ s ∈ strings node, Clean s) → ∃ m' F', Image hasChildren m' F' ∧ New m.fresh F F' ∧
            Shows F' m.fresh (renumber doubles node) ∧
            Settles (fun passes => jsonDecodeNode doubles passes json.memory m) (.done m.fresh [0] m')) ∧
          ((¬∀ s ∈ strings node, Clean s) → ∃ m', Image hasChildren m' F ∧
            Settles (fun passes => jsonDecodeNode doubles passes json.memory m) (.failed m'))) := by
  obtain ⟨F, grown, image, keyed⟩ := reachedImage reached
  obtain ⟨tree, denotes⟩ := someTree ((liveIff image).mp live)
  obtain ⟨node, shows⟩ := someShown keyed denotes
  obtain ⟨found, enough, checked, exact, _⟩ := answersTree image keyed tree denotes
  refine ⟨F,node,grown,image,shows,settlesText image shows space,fun passed indents => ?_⟩
  have fine : some found = some none := settlesOnce ⟨enough,checked⟩ passed
  have proper : Proper F a := exact.mp (Option.some.inj fine)
  rcases stringifyRead doubles node space spaced with ⟨_, _, json, finished, clean, dirty⟩ | ⟨invalid, _⟩
  · exact ⟨json,finished,fun all => decodeBuilds image (clean all),fun not => decodeCleans image (dirty not)⟩
  · exact absurd ⟨properStrings shows proper,indents⟩ invalid

def stringsCalls : List (Call CText) := [.mknode .array,.mknode (.string letter),.appendElement 0 1,.mknode (.string unit)]

def stringsMemory : Memory (NodeData CText) := (performed texts 9 stringsCalls Memory.empty).getD Memory.empty

theorem stringsReached : Reached texts stringsCalls stringsMemory := givenReached (by decide +kernel)

theorem arrayLive : stringsMemory.cells 0 ≠ none := Option.isSome_iff_ne_none.mp (by decide +kernel)

theorem unitLive : stringsMemory.cells 2 ≠ none := Option.isSome_iff_ne_none.mp (by decide +kernel)

theorem unindented (node : JsonNode CText) : Indents none node := fun _ _ none => nomatch none

/- Both are checked and written. The array is decoded again, the string is refused. -/
theorem stringifyReachedStrings :
    (∃ json m' F', Settles (fun passes => jsonStringifyAt texts stringsMemory passes 0 none) (some json) ∧
      Image hasChildren m' F' ∧ Shows F' 3 (.array [.string letter]) ∧
      Settles (fun passes => jsonDecodeNode texts passes json.memory stringsMemory) (.done 3 [0] m')) ∧
    ∃ json m', Settles (fun passes => jsonStringifyAt texts stringsMemory passes 2 none) (some json) ∧
      Settles (fun passes => jsonDecodeNode texts passes json.memory stringsMemory) (.failed m') := by
  have spaced : ∀ text ∈ (none : Option CText), Spaces text.bytes := by simp
  constructor
  · obtain ⟨F, node, _, image, shows, written, passed⟩ := stringifyReached texts stringsReached arrayLive none spaced
    have children := childrenRead image (by decide +kernel : childrenAt 9 0 stringsMemory = some [1])
    have array : F.data 0 = some ⟨none,.array⟩ := dataRead image (by decide +kernel)
    have string : F.data 1 = some ⟨none,.string letter⟩ := dataRead image (by decide +kernel)
    have here : node = .array [.string letter] :=
      showsUnique (.array array (by rw [children]; exact .cons (.string string) .nil)) shows
    have checked : jsonCheck 9 0 stringsMemory = some none := by decide +kernel
    obtain ⟨json, text, clean, _⟩ := passed ⟨9,fun passes large => checkMore large checked⟩ (unindented node)
    rw [text] at written
    rw [here] at clean
    obtain ⟨m', F', image', _, shows', decoded⟩ := clean (by simp [strings, elementsStrings, Clean, letter])
    exact ⟨json,m',F',written,image',shows',decoded⟩
  · obtain ⟨F, node, _, image, shows, written, passed⟩ := stringifyReached texts stringsReached unitLive none spaced
    have string : F.data 2 = some ⟨none,.string unit⟩ := dataRead image (by decide +kernel)
    have here : node = .string unit := showsUnique (.string string) shows
    have checked : jsonCheck 9 2 stringsMemory = some none := by decide +kernel
    obtain ⟨json, text, _, dirty⟩ := passed ⟨9,fun passes large => checkMore large checked⟩ (unindented node)
    rw [text] at written
    rw [here] at dirty
    obtain ⟨m', _, refused⟩ := dirty (by simp [strings, Clean, unit])
    exact ⟨json,m',written,refused⟩

end PennDaq.JsonShown
