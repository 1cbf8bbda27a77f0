import PennDaq.JsonValues
import PennDaq.JsonGrammar
import PennDaq.Lib.Building

/-! `json_decode` and what it calls, with the nodes that they make and delete. -/
namespace PennDaq.JsonBuilding
open Lib.Forest Lib.LinkedForest Lib.ForestImages Lib.ForestRemoval Lib.ForestDeletion Lib.ForestTrees
open Lib.Cursor Lib.Bracketed Lib.Building
open PennDaq.Utf8 PennDaq.JsonNumbers PennDaq.JsonText PennDaq.JsonStrings PennDaq.JsonParse PennDaq.JsonMemory
open PennDaq.JsonValues

abbrev Build (ν α : Type) := Builder UInt8 (Memory (NodeData ν)) α

section Decoding
variable {ν : Type}

def parseArrayNode (passes : Nat) (value : Build ν Addr) : Build ν Addr := do
  let ret ← make jsonMkarray
  cleaning (jsonDelete passes (some ret)) (do
    buildSequence arrayMarks value (jsonAppendElement ret)
    return ret)

def parseMemberNode (value : Build ν Addr) : Build ν (CText × Addr) := do
  let key ← lift parseString
  lift skipSpace
  lift (expect ':'.toUInt8)
  lift skipSpace
  let value ← value
  return (key,value)

def parseObjectNode (passes : Nat) (value : Build ν Addr) : Build ν Addr := do
  let ret ← make jsonMkobject
  cleaning (jsonDelete passes (some ret)) (do
    buildSequence objectMarks (parseMemberNode value) fun member => appendMember ret member.1 member.2
    return ret)

variable (doubles : Doubles ν)

def parseValueNode (passes : Nat) : Nat → Build ν Addr
  | 0 => lose
  | depth+1 => do
    let c ← lift peek
    if c = 'n'.toUInt8 then
      lift (literal null)
      make jsonMknull
    else if c = 'f'.toUInt8 then
      lift (literal false')
      make (jsonMkbool false)
    else if c = 't'.toUInt8 then
      lift (literal true')
      make (jsonMkbool true)
    else if c = '"'.toUInt8 then
      let str ← lift parseString
      make (jsonMkstring str)
    else if c = '['.toUInt8 then
      parseArrayNode passes (parseValueNode passes depth)
    else if c = '{'.toUInt8 then
      parseObjectNode passes (parseValueNode passes depth)
    else
      let num ← lift (parseNumber doubles.strtod)
      make (jsonMknumber num)

def jsonDecodeNode (passes : Nat) (json : Text) : Memory (NodeData ν) → Built UInt8 (Memory (NodeData ν)) Addr :=
  (do
    lift skipSpace
    let ret ← parseValueNode doubles passes json.length
    lift skipSpace
    let c ← lift peek
    if c = 0 then return ret else cleaning (jsonDelete passes (some ret)) (lift fail) : Build ν Addr) json

end Decoding

section Building
variable {ν : Type} {m : Memory (NodeData ν)} {F F' : Family (NodeData ν)}

theorem showsLive {a : Addr} {node : JsonNode ν} (shows : Shows F a node) : F.data a ≠ none := by
  cases shows with
  | null held | bool held | string held | number held | array held | object held =>
    exact fun none => nomatch held.symm.trans none

theorem showsFrame {a : Addr} {node : JsonNode ν} (shows : Shows F a node)
    (same : ∀ x, F.Below a x → F'.data x = F.data x ∧ F'.children x = F.children x) : Shows F' a node := by
  obtain ⟨tree, denotes⟩ := someTree (showsLive shows)
  exact showsSame denotes (denotesFrame denotes same) shows

theorem showsRekeyed {a : Addr} {node : JsonNode ν} {d d' : NodeData ν} (shows : Shows F a node) (held : F.data a = some d)
    (same : d'.value = d.value) : Shows (F.plant a d') a node := by
  have kept : ∀ c ∈ F.children a, ∀ e, Shows F c e → Shows (F.plant a d') c e := fun c member e shown =>
    showsFrame shown fun x below => by
      have other : x ≠ a := fun here => Family.notAboveSelf member (here ▸ below)
      exact ⟨if_neg other,rfl⟩
  have held' : (F.plant a d').data a = some ⟨d'.key,d.value⟩ := by
    rw [← same]
    exact if_pos rfl
  cases shows with
  | null heldS =>
    cases held.symm.trans heldS
    exact .null held'
  | bool heldS =>
    cases held.symm.trans heldS
    exact .bool held'
  | string heldS =>
    cases held.symm.trans heldS
    exact .string held'
  | number heldS =>
    cases held.symm.trans heldS
    exact .number held'
  | array heldS all =>
    cases held.symm.trans heldS
    exact .array held' (forallMembers all fun c member e _ => kept c member e)
  | object heldS keys all =>
    cases held.symm.trans heldS
    refine .object held' (forallMembers keys fun c member k _ key => ?_) (forallMembers all fun c member e _ => kept c member e)
    have other : c ≠ a := fun here => Family.notOwnChild a (here ▸ member)
    rw [keyOf] at key ⊢
    rwa [show (F.plant a d').data c = F.data c from if_neg other]

theorem assertedRoot (image : Image hasChildren m F) {tag : Value ν → Bool} {parent child : Addr} {d : NodeData ν}
    (live : F.data parent = some d) (tagged : tag d.value = true) (root : F.Root child) (live' : F.data child ≠ none) :
    asserted tag parent child m = some () := by
  obtain ⟨p, stored⟩ := image.live (fun none => nomatch live.symm.trans none)
  obtain ⟨c, stored'⟩ := image.live live'
  have same : p.data = d := Option.some.inj ((image.right parent p stored).data.symm.trans live)
  rw [asserted, stored, Option.bind_eq_bind, Option.bind_some, stored', Option.bind_some]
  exact if_pos ⟨same ▸ tagged,(rootIff image stored').mpr root⟩

theorem newRelabel {fresh : Nat} {d d' : NodeData ν} (new : New fresh F F') (held : F'.data fresh = some d) :
    New fresh F (F'.plant fresh d') := by
  refine ⟨⟨fun a low => ?_,new.extended.children,new.extended.apart⟩,fun a high live => ?_,new.root⟩
  · exact (if_neg (Nat.ne_of_lt low)).trans (new.extended.data a low)
  · refine new.owned a high ?_
    rcases eq_or_ne a fresh with rfl | other
    · exact fun none => nomatch held.symm.trans none
    · exact fun none => live ((if_neg other).trans none)

def Builds (value : Reader UInt8 (JsonNode ν)) (value' : Nat → Build ν Addr) : Prop :=
  ∀ (m : Memory (NodeData ν)) (F : Family (NodeData ν)) (s : Text), Image hasChildren m F →
    Mirrors (value s) (fun n => value' n s m)
      (fun node a m' => a = m.fresh ∧ ∃ F', Image hasChildren m' F' ∧ New m.fresh F F' ∧ Shows F' m.fresh node)
      (fun m' => Image hasChildren m' F)

theorem buildsLeaf (image : Image hasChildren m F) {s : Text} {node : JsonNode ν} {value : Value ν}
    (shows : ∀ F' : Family (NodeData ν), F'.data m.fresh = some ⟨none,value⟩ → Shows F' m.fresh node) :
    Mirrors ((pure node : Reader UInt8 (JsonNode ν)) s) (fun _ => (make (mknode value) : Build ν Addr) s m)
      (fun node a m' => a = m.fresh ∧ ∃ F', Image hasChildren m' F' ∧ New m.fresh F F' ∧ Shows F' m.fresh node)
      (fun m' => Image hasChildren m' F) := by
  obtain ⟨address, _, image'⟩ := allocImage image ⟨none,value⟩
  refine ⟨m.fresh,(mknode value m).2,⟨rfl,_,image',newPlant image _,shows _ (if_pos rfl)⟩,settlesSame _⟩

theorem putNew {F₀ : Family (NodeData ν)} {ret : Addr} {d : NodeData ν} {node : JsonNode ν} (room : hasChildren d = true)
    (image : Image hasChildren m F) (new : New ret F₀ F) (live : F.data ret = some d) {m₁ : Memory (NodeData ν)}
    (image₁ : Image hasChildren m₁ F') (new₁ : New m.fresh F F') (shows₁ : Shows F' m.fresh node) :
    ∃ m₂ F₂, appendNode hasChildren ret m.fresh m₁ = some m₂ ∧ Image hasChildren m₂ F₂ ∧ New ret F₀ F₂ ∧
      F₂.data ret = some d ∧ F₂.children ret = F.children ret ++ [m.fresh] ∧ F₂.data = F'.data ∧
      (∀ c ∈ F.children ret, ∀ e, Shows F c e → Shows F₂ c e) ∧ Shows F₂ m.fresh node := by
  have below : ret < m.fresh := liveBelowFresh image (fun none => nomatch live.symm.trans none)
  have root := extendsRoot new₁.extended below new.root
  obtain ⟨m₂, F₂, done, _, image₂, new₂, data₂, here₂, elsewhere₂, _⟩ :=
    appendNew room image new live image₁ new₁ (showsLive shows₁)
  have kept : ∀ a e, a ≠ ret → Shows F' a e → Shows F₂ a e := fun a e other shown =>
    showsFrame shown fun x path => ⟨congrFun data₂ x,elsewhere₂ x fun same => other (belowRoot root (same ▸ path)).symm⟩
  refine ⟨m₂,F₂,done,image₂,new₂,by rw [data₂, new₁.extended.data ret below, live],here₂,data₂,fun c member e shown => ?_,
    kept _ _ (Nat.ne_of_gt below) shows₁⟩
  refine kept c e (fun same => Family.notOwnChild ret (same ▸ member)) (showsFrame shown fun x path => ?_)
  have inside := liveBelowFresh image (Family.belowLive (showsLive shown) path)
  exact ⟨new₁.extended.data x inside,new₁.extended.children x inside⟩

/- What `json_delete` is called with when the reading fails. -/
def Partial (F : Family (NodeData ν)) (ret : Addr) (m' : Memory (NodeData ν)) : Prop :=
  ∃ F', Image hasChildren m' F' ∧ New ret F F' ∧ F'.data ret ≠ none

theorem cleanPartial (vacant : ∀ a, m.fresh ≤ a → F.data a = none) {m' : Memory (NodeData ν)} (part : Partial F m.fresh m') :
    ∃ m'', Image hasChildren m'' F ∧ Settles (fun n => jsonDelete n (some m.fresh) m') (some m'') := by
  obtain ⟨F', image', new, live⟩ := part
  obtain ⟨m'', _, image'', settled⟩ := deleteImage image' (fun d => (rfl : hasChildren (forgetKey d) = _)) live
  rw [newWithout new vacant] at image''
  exact ⟨m'',image'',settled⟩

def ArrayBuilt (F : Family (NodeData ν)) (ret : Addr) (elements : List (JsonNode ν)) (m' : Memory (NodeData ν)) : Prop :=
  ∃ F', Image hasChildren m' F' ∧ New ret F F' ∧ F'.data ret = some ⟨none,.array⟩ ∧
    List.Forall₂ (Shows F') (F'.children ret) elements

theorem buildsElement {ret : Addr} {value : Reader UInt8 (JsonNode ν)} {value' : Nat → Build ν Addr}
    (builds : Builds value value') (elements : List (JsonNode ν)) (m : Memory (NodeData ν)) (s : Text)
    (built : ArrayBuilt F ret elements m) : Mirrors (value s) (fun n => value' n s m)
      (fun node a m₁ => ∃ m₂, jsonAppendElement ret a m₁ = some m₂ ∧ ArrayBuilt F ret (elements ++ [node]) m₂)
      (Partial F ret) := by
  obtain ⟨F', image, new, live, all⟩ := built
  refine mirrorsWeaken (builds m F' s image) (fun node a m₁ made => ?_) fun m₁ image₁ => ?_
  · obtain ⟨rfl, F₁, image₁, new₁, shows₁⟩ := made
    obtain ⟨m₂, F₂, done, image₂, new₂, live₂, here₂, _, kept, shows₂⟩ := putNew rfl image new live image₁ new₁ shows₁
    have below : ret < m.fresh := liveBelowFresh image (fun none => nomatch live.symm.trans none)
    have live₁ : F₁.data ret = some ⟨none,.array⟩ := (new₁.extended.data ret below).trans live
    refine ⟨m₂,?_,F₂,image₂,new₂,live₂,?_⟩
    · rw [jsonAppendElement, assertedRoot image₁ live₁ rfl new₁.root (showsLive shows₁)]
      exact done
    · rw [here₂]
      exact List.rel_append (forallMembers all fun c member e _ => kept c member e) (.cons shows₂ .nil)
  · exact ⟨F',image₁,new,fun none => nomatch live.symm.trans none⟩

theorem buildsWithin {α : Type} {reader : Reader UInt8 (List α)} {inner : Nat → Addr → Build ν Unit} {value : Value ν}
    {f : List α → JsonNode ν} {built : List α → Memory (NodeData ν) → Prop} (image : Image hasChildren m F) {s : Text}
    (within : Mirrors (reader s) (fun n => inner n m.fresh s (mknode value m).2) (fun values _ m' => built values m')
      (Partial F m.fresh))
    (shows : ∀ values m', built values m' → ∃ F', Image hasChildren m' F' ∧ New m.fresh F F' ∧ Shows F' m.fresh (f values)) :
    Mirrors ((reader >>= fun values => pure (f values)) s)
      (fun n => (do
        let ret ← make (mknode value)
        cleaning (jsonDelete n (some ret)) (do
          inner n ret
          return ret) : Build ν Addr) s m)
      (fun node a m' => a = m.fresh ∧ ∃ F', Image hasChildren m' F' ∧ New m.fresh F F' ∧ Shows F' m.fresh node)
      (fun m' => Image hasChildren m' F) := by
  refine @mirrorsCleaning _ _ _ _ _ _ s (mknode value m).2 (reader >>= fun values => pure (f values))
    (fun n => jsonDelete n (some m.fresh)) (fun n => inner n m.fresh >>= fun _ => pure m.fresh) _ ?_ fun m' part =>
      cleanPartial (imageVacant image) part
  exact mirrorsBind within fun values _ rest m' _ held => mirrorsPure ⟨rfl,shows values m' held⟩

theorem plantedChildless (image : Image hasChildren m F) (d : NodeData ν) : (F.plant m.fresh d).children m.fresh = [] :=
  (vacantApart (imageVacant image _ (Nat.le_refl _))).2

theorem buildsArray {value : Reader UInt8 (JsonNode ν)} {value' : Nat → Build ν Addr} (builds : Builds value value') :
    Builds (do
      let elements ← parseArray value
      return .array elements) fun n => parseArrayNode n (value' n) := by
  intro m F s image
  obtain ⟨_, _, image₀⟩ := allocImage image (⟨none,.array⟩ : NodeData ν)
  have start : ArrayBuilt F m.fresh [] (jsonMkarray m).2 := by
    refine ⟨_,image₀,newPlant image _,if_pos rfl,?_⟩
    rw [plantedChildless image]
    exact .nil
  refine buildsWithin image (mirrorsSequence ?_ (buildsElement builds) start s) ?_
  · intro elements m' built
    obtain ⟨F', image', new', live', _⟩ := built
    exact ⟨F',image',new',fun none => nomatch live'.symm.trans none⟩
  · intro elements m' built
    obtain ⟨F', image', new', live', all⟩ := built
    exact ⟨F',image',new',.array live' all⟩

def ObjectBuilt (F : Family (NodeData ν)) (ret : Addr) (members : List (CText × JsonNode ν)) (m' : Memory (NodeData ν)) : Prop :=
  ∃ F', Image hasChildren m' F' ∧ New ret F F' ∧ F'.data ret = some ⟨none,.object⟩ ∧
    List.Forall₂ (fun c k => keyOf F' c = some k) (F'.children ret) (members.map Prod.fst) ∧
    List.Forall₂ (Shows F') (F'.children ret) (members.map Prod.snd)

theorem buildsMember {ret : Addr} {value : Reader UInt8 (JsonNode ν)} {value' : Nat → Build ν Addr}
    (builds : Builds value value') (members : List (CText × JsonNode ν)) (m : Memory (NodeData ν)) (s : Text)
    (built : ObjectBuilt F ret members m) : Mirrors (parseMember value s) (fun n => parseMemberNode (value' n) s m)
      (fun member member' m₁ => ∃ m₂, appendMember ret member'.1 member'.2 m₁ = some m₂ ∧
        ObjectBuilt F ret (members ++ [member]) m₂)
      (Partial F ret) := by
  obtain ⟨F', image, new, live, keys, all⟩ := built
  have part : ∀ m₁, Image hasChildren m₁ F' → Partial F ret m₁ := fun m₁ image₁ =>
    ⟨F',image₁,new,fun none => nomatch live.symm.trans none⟩
  unfold parseMember parseMemberNode
  refine mirrorsRead (fun _ => part m image) fun key s₁ _ => ?_
  refine mirrorsRead (fun _ => part m image) fun _ s₂ _ => ?_
  refine mirrorsRead (fun _ => part m image) fun _ s₃ _ => ?_
  refine mirrorsRead (fun _ => part m image) fun _ s₄ _ => ?_
  have read := mirrorsWeaken (builds m F' s₄ image) (fun _ _ _ made => made) part
  refine mirrorsBind read fun node a rest m₁ _ made => mirrorsPure ?_
  obtain ⟨rfl, F₁, image₁, new₁, shows₁⟩ := made
  obtain ⟨d, held⟩ := Option.ne_none_iff_exists'.mp (showsLive shows₁)
  obtain ⟨m₁', done₁, _, image₁'⟩ := relabelImage image₁ held (fun d => { d with key := some key }) rfl
  have shows₁' := showsRekeyed shows₁ held (rfl : ({ d with key := some key } : NodeData ν).value = d.value)
  obtain ⟨m₂, F₂, done, image₂, new₂, live₂, here₂, data₂, kept, shows₂⟩ :=
    putNew rfl image new live image₁' (newRelabel new₁ held) shows₁'
  refine ⟨m₂,?_,F₂,image₂,new₂,live₂,?_,?_⟩
  · rw [appendMember, setKey, done₁]
    exact done
  · rw [here₂, List.map_append]
    refine List.rel_append (forallMembers keys fun c member k _ named => ?_) (.cons ?_ .nil)
    · have inside := liveBelowFresh image (F'.inside ret c member).2
      rw [keyOf, data₂, show (F₁.plant m.fresh { d with key := some key }).data c = F₁.data c from if_neg (Nat.ne_of_lt inside),
        new₁.extended.data c inside]
      exact named
    · rw [keyOf, data₂, show (F₁.plant m.fresh { d with key := some key }).data m.fresh = some { d with key := some key } from
        if_pos rfl]
      rfl
  · rw [here₂, List.map_append]
    exact List.rel_append (forallMembers all fun c member e _ => kept c member e) (.cons shows₂ .nil)

theorem buildsObject {value : Reader UInt8 (JsonNode ν)} {value' : Nat → Build ν Addr} (builds : Builds value value') :
    Builds (do
      let members ← parseObject value
      return .object members) fun n => parseObjectNode n (value' n) := by
  intro m F s image
  obtain ⟨_, _, image₀⟩ := allocImage image (⟨none,.object⟩ : NodeData ν)
  have start : ObjectBuilt F m.fresh [] (jsonMkobject m).2 := by
    refine ⟨_,image₀,newPlant image _,if_pos rfl,?_,?_⟩
    · rw [plantedChildless image]
      exact .nil
    · rw [plantedChildless image]
      exact .nil
  refine buildsWithin image (mirrorsSequence ?_ (buildsMember builds) start s) ?_
  · intro members m' built
    obtain ⟨F', image', new', live', _, _⟩ := built
    exact ⟨F',image',new',fun none => nomatch live'.symm.trans none⟩
  · intro members m' built
    obtain ⟨F', image', new', live', keys, all⟩ := built
    exact ⟨F',image',new',.object live' keys all⟩

theorem buildsValue (doubles : Doubles ν) (depth : Nat) :
    Builds (parseValue doubles depth) fun n => parseValueNode doubles n depth := by
  induction depth with
  | zero => exact fun m F s image => trivial
  | succ depth ih =>
    intro m F s image
    unfold parseValue parseValueNode
    refine mirrorsRead (fun _ => image) fun c s₁ _ => ?_
    refine mirrorsIf (fun _ => ?_) fun _ => mirrorsIf (fun _ => ?_) fun _ => mirrorsIf (fun _ => ?_) fun _ =>
      mirrorsIf (fun _ => ?_) fun _ => mirrorsIf (fun _ => ?_) fun _ => mirrorsIf (fun _ => ?_) fun _ => ?_
    · exact mirrorsRead (fun _ => image) fun _ rest _ => buildsLeaf image fun F' held => .null held
    · exact mirrorsRead (fun _ => image) fun _ rest _ => buildsLeaf image fun F' held => .bool held
    · exact mirrorsRead (fun _ => image) fun _ rest _ => buildsLeaf image fun F' held => .bool held
    · exact mirrorsRead (fun _ => image) fun str rest _ => buildsLeaf image fun F' held => .string held
    · exact buildsArray ih m F s₁ image
    · exact buildsObject ih m F s₁ image
    · exact mirrorsRead (fun _ => image) fun num rest _ => buildsLeaf image fun F' held => .number held

theorem decodeMirrors (doubles : Doubles ν) (image : Image hasChildren m F) (json : Text) :
    Mirrors (jsonDecode doubles json) (fun n => jsonDecodeNode doubles n json m)
      (fun node a m' => a = m.fresh ∧ ∃ F', Image hasChildren m' F' ∧ New m.fresh F F' ∧ Shows F' m.fresh node)
      (fun m' => Image hasChildren m' F) := by
  unfold jsonDecode jsonDecodeNode
  refine mirrorsRead (fun _ => image) fun _ s₁ _ => ?_
  refine mirrorsBind (buildsValue doubles json.length m F s₁ image) fun node a s₂ m' _ made => ?_
  obtain ⟨rfl, F', image', new, shows⟩ := made
  have part : Partial F m.fresh m' := ⟨F',image',new,showsLive shows⟩
  refine mirrorsRead (fun failed => absurd failed (skipNeverFails _ _)) fun _ s₃ _ => ?_
  have peeks : peek s₃ ≠ .failed := by
    cases s₃ with
    | nil | cons => exact fun failed => nomatch failed
  refine mirrorsRead (fun failed => absurd failed peeks) fun c s₄ _ => mirrorsIf (fun _ => ?_) fun _ => ?_
  · exact mirrorsPure ⟨rfl,F',image',new,shows⟩
  · refine @mirrorsCleaning _ _ _ _ _ (Partial F m.fresh) s₄ m' fail (fun n => jsonDelete n (some m.fresh)) (fun _ => lift fail) _
      ⟨m',part,settlesSame _⟩ fun m'' part' => cleanPartial (imageVacant image) part'

theorem decodeBuilds {doubles : Doubles ν} (image : Image hasChildren m F) {json : Text} {node : JsonNode ν} {rest : Text}
    (read : jsonDecode doubles json = .done node rest) : ∃ m' F', Image hasChildren m' F' ∧ New m.fresh F F' ∧
      Shows F' m.fresh node ∧ Settles (fun n => jsonDecodeNode doubles n json m) (.done m.fresh rest m') := by
  have mirrors := decodeMirrors doubles image json
  rw [read] at mirrors
  obtain ⟨a, m', ⟨rfl, F', image', new, shows⟩, done⟩ := mirrors
  exact ⟨m',F',image',new,shows,done⟩

theorem decodeCleans {doubles : Doubles ν} (image : Image hasChildren m F) {json : Text}
    (read : jsonDecode doubles json = .failed) :
    ∃ m', Image hasChildren m' F ∧ Settles (fun n => jsonDecodeNode doubles n json m) (.failed m') := by
  have mirrors := decodeMirrors doubles image json
  rwa [read] at mirrors

end Building

end PennDaq.JsonBuilding
