import PennDaq.JsonBuilding
import PennDaq.JsonDocuments

/-! Programs that call the JSON library in any order: what memory they reach. -/
namespace PennDaq.JsonRuns
open Lib.Forest Lib.LinkedForest Lib.ForestImages Lib.ForestRemoval Lib.ForestDeletion Lib.ForestTrees Lib.Building
open PennDaq.Utf8 PennDaq.JsonNumbers PennDaq.JsonText PennDaq.JsonParse PennDaq.JsonGrammar PennDaq.JsonDocuments
open PennDaq.JsonMemory PennDaq.JsonValues PennDaq.JsonBuilding

section Calls
variable {ν : Type}

inductive Call (ν : Type) where
  | mknode (value : Value ν)
  | appendElement (array element : Addr)
  | prependElement (array element : Addr)
  | appendMember (object : Addr) (key : CText) (value : Addr)
  | prependMember (object : Addr) (key : CText) (value : Addr)
  | removeFromParent (node : Addr)
  | delete (node : Option Addr)
  | mkcopy (head : Addr)
  | decode (json : CText)

def run (doubles : Doubles ν) (passes : Nat) : Call ν → Memory (NodeData ν) → Option (Memory (NodeData ν))
  | .mknode value, m => some (mknode value m).2
  | .appendElement array element, m => jsonAppendElement array element m
  | .prependElement array element, m => jsonPrependElement array element m
  | .appendMember object key value, m => jsonAppendMember object key value m
  | .prependMember object key value, m => jsonPrependMember object key value m
  | .removeFromParent node, m => jsonRemoveFromParent node m
  | .delete node, m => jsonDelete passes node m
  | .mkcopy head, m => (jsonMkcopy passes head m).map Prod.snd
  | .decode json, m => (jsonDecodeNode doubles passes json.memory m).state

def Above (m : Memory (NodeData ν)) (a x : Addr) : Prop :=
  Relation.ReflTransGen (fun c p => (m.cells c).map Cell.parent = some (some p)) a x

/- What the library takes for granted: the pointers are to nodes, and no node is put below
itself. -/
def Sound (m : Memory (NodeData ν)) : Call ν → Prop
  | .mknode _ | .decode _ => True
  | .appendElement parent child | .prependElement parent child | .appendMember parent _ child
  | .prependMember parent _ child => m.cells parent ≠ none ∧ m.cells child ≠ none ∧ ¬Above m parent child
  | .removeFromParent node | .mkcopy node => m.cells node ≠ none
  | .delete node => ∀ a ∈ node, m.cells a ≠ none

/- What it asserts. -/
def Asserted (m : Memory (NodeData ν)) : Call ν → Prop
  | .appendElement parent child | .prependElement parent child => asserted Value.isArray parent child m ≠ none
  | .appendMember parent _ child | .prependMember parent _ child => asserted Value.isObject parent child m ≠ none
  | _ => True

inductive Effect (doubles : Doubles ν) : Call ν → Family (NodeData ν) → Family (NodeData ν) → Prop where
  | mknode {F a value} (vacant : F.data a = none) : Effect doubles (.mknode value) F (F.plant a ⟨none,value⟩)
  | appendElement {F array element d} (live : F.data array = some d) (tag : d.value.isArray = true)
    (adoptable : F.Adoptable array element (F.children array ++ [element])) :
    Effect doubles (.appendElement array element) F (F.adopt adoptable)
  | prependElement {F array element d} (live : F.data array = some d) (tag : d.value.isArray = true)
    (adoptable : F.Adoptable array element (element::F.children array)) :
    Effect doubles (.prependElement array element) F (F.adopt adoptable)
  | appendMember {F object key value d d'} (live : F.data object = some d') (tag : d'.value.isObject = true)
    (held : F.data value = some d)
    (adoptable : (F.plant value { d with key := some key }).Adoptable object value (F.children object ++ [value])) :
    Effect doubles (.appendMember object key value) F ((F.plant value { d with key := some key }).adopt adoptable)
  | prependMember {F object key value d d'} (live : F.data object = some d') (tag : d'.value.isObject = true)
    (held : F.data value = some d)
    (adoptable : (F.plant value { d with key := some key }).Adoptable object value (value::F.children object)) :
    Effect doubles (.prependMember object key value) F ((F.plant value { d with key := some key }).adopt adoptable)
  | removeRoot {F node} (root : F.Root node) : Effect doubles (.removeFromParent node) F F
  | removeChild {F node d} (child : ¬F.Root node) (held : F.data node = some d) :
    Effect doubles (.removeFromParent node) F ((F.orphan node).plant node (forgetKey d))
  | deleteNothing {F} : Effect doubles (.delete none) F F
  | delete {F node} : Effect doubles (.delete (some node)) F (without F node)
  | mkcopy {F F' head fresh tree} (vacant : ∀ a, fresh ≤ a → F.data a = none) (denotes : Denotes F head tree)
    (new : New fresh F F') (denotes' : Denotes F' fresh tree) : Effect doubles (.mkcopy head) F F'
  | decode {F F' json fresh node} (vacant : ∀ a, fresh ≤ a → F.data a = none)
    (offered : DocumentText doubles node json.bytes) (new : New fresh F F') (shows : Shows F' fresh node) :
    Effect doubles (.decode json) F F'
  | decodeRefused {F json} (refused : ¬∃ node, DocumentText doubles node json.bytes) : Effect doubles (.decode json) F F

end Calls

section Refinement
variable {ν : Type} {doubles : Doubles ν} {m : Memory (NodeData ν)} {F F' : Family (NodeData ν)}

theorem aboveIff (image : Image hasChildren m F) {a x : Addr} : Above m a x ↔ F.Below x a := by
  unfold Above Family.Below
  rw [← Relation.reflTransGen_swap]
  have same : Function.swap (fun c p => (m.cells c).map Cell.parent = some (some p)) = fun q c => c ∈ F.children q := by
    funext q c
    exact propext (parentIff image)
  rw [same]

theorem callRefines (image : Image hasChildren m F) {call : Call ν} (sound : Sound m call) (asserts : Asserted m call) :
    ∃ m' F', Effect doubles call F F' ∧ Image hasChildren m' F' ∧
      Settles (fun passes => run doubles passes call m) (some m') := by
  cases call with
  | mknode value =>
    obtain ⟨_, vacant, image'⟩ := allocImage image ⟨none,value⟩
    exact ⟨_,_,.mknode vacant,image',0,fun _ _ => rfl⟩
  | appendElement array element =>
    obtain ⟨done, d, live, tag, root, live'⟩ := assertedSome image asserts
    have apart : ¬F.Below element array := fun below => sound.2.2 ((aboveIff image).mpr below)
    have adoptable := appendable root (fun none => nomatch live.symm.trans none) live' apart
    obtain ⟨m', done', _, image'⟩ := appendNodeImage image live (arrayChildren tag) adoptable
    refine ⟨m',_,.appendElement live tag adoptable,image',0,fun _ _ => ?_⟩
    dsimp only
    rw [run, jsonAppendElement, done]
    exact done'
  | prependElement array element =>
    obtain ⟨done, d, live, tag, root, live'⟩ := assertedSome image asserts
    have apart : ¬F.Below element array := fun below => sound.2.2 ((aboveIff image).mpr below)
    have adoptable := prependable root (fun none => nomatch live.symm.trans none) live' apart
    obtain ⟨m', done', _, image'⟩ := prependNodeImage image live (arrayChildren tag) adoptable
    refine ⟨m',_,.prependElement live tag adoptable,image',0,fun _ _ => ?_⟩
    dsimp only
    rw [run, jsonPrependElement, done]
    exact done'
  | appendMember object key value =>
    obtain ⟨done, d, live, tag, root, live'⟩ := assertedSome image asserts
    have apart : ¬F.Below value object := fun below => sound.2.2 ((aboveIff image).mpr below)
    obtain ⟨dv, held⟩ := Option.ne_none_iff_exists'.mp live'
    obtain ⟨m₁, done₁, _, image₁, live₁, adoptable⟩ := setKeyImage image key live held root apart
    have last := adoptable _ (List.perm_append_singleton value (F.children object))
    obtain ⟨m', done', _, image'⟩ := appendNodeImage image₁ live₁ (objectChildren tag) last
    refine ⟨m',_,.appendMember live tag held last,image',0,fun _ _ => ?_⟩
    dsimp only
    rw [run, jsonAppendMember, done, Option.bind_eq_bind, Option.bind_some, appendMember, done₁]
    exact done'
  | prependMember object key value =>
    obtain ⟨done, d, live, tag, root, live'⟩ := assertedSome image asserts
    have apart : ¬F.Below value object := fun below => sound.2.2 ((aboveIff image).mpr below)
    obtain ⟨dv, held⟩ := Option.ne_none_iff_exists'.mp live'
    obtain ⟨m₁, done₁, _, image₁, live₁, adoptable⟩ := setKeyImage image key live held root apart
    have first := adoptable _ (List.Perm.refl _)
    obtain ⟨m', done', _, image'⟩ := prependNodeImage image₁ live₁ (objectChildren tag) first
    refine ⟨m',_,.prependMember live tag held first,image',0,fun _ _ => ?_⟩
    dsimp only
    rw [run, jsonPrependMember, done, Option.bind_eq_bind, Option.bind_some, done₁]
    exact done'
  | removeFromParent node =>
    obtain ⟨d, held⟩ := Option.ne_none_iff_exists'.mp ((liveIff image).mp sound)
    obtain ⟨m', done, _, kept, removed⟩ := removeImage image (fun d => (rfl : hasChildren (forgetKey d) = _)) held
    rcases Classical.em (F.Root node) with root | child
    · exact ⟨m',F,.removeRoot root,kept root ▸ image,0,fun _ _ => done⟩
    · exact ⟨m',_,.removeChild child held,removed child,0,fun _ _ => done⟩
  | delete node =>
    cases node with
    | none => exact ⟨m,F,.deleteNothing,image,0,fun _ _ => rfl⟩
    | some node =>
      obtain ⟨m', _, image', enough, done⟩ :=
        deleteImage image (fun d => (rfl : hasChildren (forgetKey d) = _)) ((liveIff image).mp (sound node rfl))
      exact ⟨m',_,.delete,image',enough,done⟩
  | mkcopy head =>
    obtain ⟨tree, denotes⟩ := someTree ((liveIff image).mp sound)
    obtain ⟨m', F', _, image', new, denotes', enough, done⟩ := copiesTree tree m F head image denotes
    refine ⟨m',F',.mkcopy (imageVacant image) denotes new denotes',image',enough,fun passes large => ?_⟩
    dsimp only
    rw [run, jsonMkcopy, done passes large]
    rfl
  | decode json =>
    rcases Classical.em (∃ node, DocumentText doubles node json.bytes) with ⟨node, offered⟩ | refused
    · obtain ⟨m', F', image', new, shows, enough, done⟩ := decodeBuilds image (decodeTakes offered)
      refine ⟨m',F',.decode (imageVacant image) offered new shows,image',enough,fun passes large => ?_⟩
      exact congrArg Built.state (done passes large)
    · obtain ⟨m', image', enough, done⟩ := decodeCleans image (decodeFails refused)
      exact ⟨m',F,.decodeRefused refused,image',enough,fun passes large => congrArg Built.state (done passes large)⟩

theorem callRefused {call : Call ν} (refused : ¬Asserted m call) (passes : Nat) : run doubles passes call m = none := by
  cases call with
  | appendElement | prependElement | appendMember | prependMember =>
    have none := not_not.mp refused
    first
      | rw [run, jsonAppendElement, none]
        rfl
      | rw [run, jsonPrependElement, none]
        rfl
      | rw [run, jsonAppendMember, none]
        rfl
      | rw [run, jsonPrependMember, none]
        rfl
  | mknode | removeFromParent | delete | mkcopy | decode => exact absurd trivial refused

theorem keyedNew (image' : Image hasChildren m F') (keyed : Keyed F) {fresh : Nat}
    (vacant : ∀ a, fresh ≤ a → F.data a = none) (new : New fresh F F') {node : JsonNode ν} (shows : Shows F' fresh node) :
    Keyed F' := by
  intro q c dq dc heldQ object member heldC
  rcases Nat.lt_or_ge q fresh with old | high
  · rw [new.extended.children q old] at member
    rw [new.extended.data q old] at heldQ
    have inside : c < fresh := Nat.lt_of_not_le fun above => (F.inside q c member).2 (vacant c above)
    rw [new.extended.data c inside] at heldC
    exact keyed q c dq dc heldQ object member heldC
  · obtain ⟨node', shows'⟩ := showsBelow image' shows (new.owned q high fun none => nomatch heldQ.symm.trans none)
    exact showsKeys shows' heldQ object member heldC

theorem keyedEffect {call : Call ν} (effect : Effect doubles call F F') (image' : Image hasChildren m F') (keyed : Keyed F) :
    Keyed F' := by
  cases effect with
  | @mknode _ a value vacant =>
    intro q c dq dc heldQ object member heldC
    obtain ⟨live, live'⟩ := F.inside q c member
    have other : q ≠ a := fun same => live (same ▸ vacant)
    have other' : c ≠ a := fun same => live' (same ▸ vacant)
    exact keyed q c dq dc ((if_neg other).symm.trans heldQ) object member ((if_neg other').symm.trans heldC)
  | appendElement live tag adoptable =>
    exact keyedAdopt keyed adoptable live fun object => absurd object (arrayNotObject tag)
  | prependElement live tag adoptable =>
    exact keyedAdopt keyed adoptable live fun object => absurd object (arrayNotObject tag)
  | appendMember live tag held adoptable => exact keyedMember keyed held adoptable
  | prependMember live tag held adoptable => exact keyedMember keyed held adoptable
  | removeRoot root => exact keyed
  | @removeChild _ node d child held =>
    have left : Keyed (F.orphan node) := fun q c dq dc heldQ object member heldC =>
      keyed q c dq dc heldQ object (Family.leftMember.mp member).2 heldC
    exact keyedPlant left held rfl (Or.inr (F.orphanRoot node))
  | deleteNothing => exact keyed
  | @delete _ node =>
    intro q c dq dc heldQ object member heldC
    obtain ⟨member', stays⟩ := Family.keptMember.mp member
    have stays' : ¬F.Below node q := fun below => stays (.tail below member')
    exact keyed q c dq dc ((if_neg stays').symm.trans heldQ) object member' ((if_neg stays).symm.trans heldC)
  | mkcopy vacant denotes new denotes' =>
    obtain ⟨node, shows⟩ := someShown keyed denotes
    exact keyedNew image' keyed vacant new (showsSame denotes denotes' shows)
  | decode vacant offered new shows => exact keyedNew image' keyed vacant new shows
  | decodeRefused => exact keyed

end Refinement

section Runs
variable {ν : Type} {doubles : Doubles ν} {calls : List (Call ν)} {m : Memory (NodeData ν)}

inductive Reached (doubles : Doubles ν) : List (Call ν) → Memory (NodeData ν) → Prop where
  | start : Reached doubles [] Memory.empty
  | next {calls m call m'} (before : Reached doubles calls m) (sound : Sound m call)
    (done : Settles (fun passes => run doubles passes call m) (some m')) : Reached doubles (calls ++ [call]) m'

inductive Grown (doubles : Doubles ν) : List (Call ν) → Family (NodeData ν) → Prop where
  | start : Grown doubles [] Family.empty
  | next {calls F call F'} (before : Grown doubles calls F) (effect : Effect doubles call F F') :
    Grown doubles (calls ++ [call]) F'

theorem emptyImage : Image hasChildren Memory.empty (Family.empty : Family (NodeData ν)) :=
  ⟨fun _ _ => rfl,fun _ _ stored => nomatch stored⟩

theorem emptyKeyed : Keyed (Family.empty : Family (NodeData ν)) := fun _ _ _ _ held => nomatch held

theorem settlesOnce {β : Type} {f : Nat → β} {b b' : β} (one : Settles f b) (two : Settles f b') : b = b' := by
  obtain ⟨enough, done⟩ := one
  obtain ⟨enough', done'⟩ := two
  exact (done _ (Nat.le_max_left enough enough')).symm.trans (done' _ (Nat.le_max_right enough enough'))

theorem reachedImage (reached : Reached doubles calls m) :
    ∃ F, Grown doubles calls F ∧ Image hasChildren m F ∧ Keyed F := by
  induction reached with
  | start => exact ⟨_,.start,emptyImage,emptyKeyed⟩
  | @next calls m call m' _ sound done ih =>
    obtain ⟨F, grown, image, keyed⟩ := ih
    have asserts : Asserted m call := by
      by_contra refused
      obtain ⟨enough, done⟩ := done
      cases (callRefused refused enough).symm.trans (done enough (Nat.le_refl _))
    obtain ⟨m'', F', effect, image', done'⟩ := @callRefines _ doubles _ _ image _ sound asserts
    rw [Option.some.inj (settlesOnce done done')]
    exact ⟨F',.next grown effect,image',keyedEffect effect image' keyed⟩

/- In all that a program does, the nodes in memory are the family that its calls are to make,
and each call comes to an end but for a failed assertion. -/
theorem runsRefine (reached : Reached doubles calls m) :
    (∃ F, Grown doubles calls F ∧ Image hasChildren m F ∧ Keyed F) ∧ ∀ call, Sound m call →
      (Asserted m call ↔ ∃ m', Settles (fun passes => run doubles passes call m) (some m')) := by
  obtain ⟨F, grown, image, keyed⟩ := reachedImage reached
  refine ⟨⟨F,grown,image,keyed⟩,fun call sound => ⟨fun asserts => ?_,fun returns => ?_⟩⟩
  · obtain ⟨m', _, _, _, done⟩ := @callRefines _ doubles _ _ image _ sound asserts
    exact ⟨m',done⟩
  · obtain ⟨m', enough, done⟩ := returns
    by_contra refused
    cases (callRefused refused enough).symm.trans (done enough (Nat.le_refl _))

/- A document is decoded into a new root that shows its value, with all that is new below it.
Of another text there is no node left. -/
theorem decodeReached (reached : Reached doubles calls m) (json : CText) : ∃ F, Grown doubles calls F ∧ Image hasChildren m F ∧
    (∀ node, DocumentText doubles node json.bytes → ∃ m' F', Image hasChildren m' F' ∧ New m.fresh F F' ∧
      Shows F' m.fresh node ∧ Settles (fun n => jsonDecodeNode doubles n json.memory m) (.done m.fresh [0] m')) ∧
    ((¬∃ node, DocumentText doubles node json.bytes) → ∃ m', Image hasChildren m' F ∧
      Settles (fun n => jsonDecodeNode doubles n json.memory m) (.failed m')) := by
  obtain ⟨F, grown, image, _⟩ := reachedImage reached
  refine ⟨F,grown,image,fun node offered => ?_,fun refused => ?_⟩
  · exact decodeBuilds image (decodeTakes offered)
  · exact decodeCleans image (decodeFails refused)

end Runs

section Programs
variable {ν : Type} {doubles : Doubles ν} {calls : List (Call ν)} {m m' : Memory (NodeData ν)}

def rootApart (m : Memory (NodeData ν)) (parent child : Addr) : Bool :=
  (m.cells parent).map Cell.parent = some none && (m.cells child).isSome && parent != child

def soundStep (m : Memory (NodeData ν)) : Call ν → Bool
  | .mknode _ => true
  | .appendElement parent child | .prependElement parent child | .appendMember parent _ child
  | .prependMember parent _ child => rootApart m parent child
  | .removeFromParent node | .mkcopy node => (m.cells node).isSome
  | .delete node => node.all fun a => (m.cells a).isSome
  | .decode _ => false

def performed (doubles : Doubles ν) (passes : Nat) : List (Call ν) → Memory (NodeData ν) → Option (Memory (NodeData ν))
  | [], m => some m
  | call::later, m => if soundStep m call then (run doubles passes call m).bind (performed doubles passes later) else none

theorem rootSound {parent child : Addr} (apart : rootApart m parent child = true) :
    m.cells parent ≠ none ∧ m.cells child ≠ none ∧ ¬Above m parent child := by
  simp only [rootApart, Bool.and_eq_true, decide_eq_true_eq, bne_iff_ne] at apart
  obtain ⟨⟨root, live⟩, other⟩ := apart
  refine ⟨fun none => ?_,Option.isSome_iff_ne_none.mp live,fun above => ?_⟩
  · rw [none] at root
    cases root
  · rcases Relation.ReflTransGen.cases_head above with same | ⟨p, up, -⟩
    · exact other same
    · cases root.symm.trans up

theorem stepSound {call : Call ν} (sound : soundStep m call = true) : Sound m call := by
  cases call with
  | mknode | decode => trivial
  | appendElement | prependElement | appendMember | prependMember => exact rootSound sound
  | removeFromParent | mkcopy => exact Option.isSome_iff_ne_none.mp sound
  | delete node => exact fun a here => Option.isSome_iff_ne_none.mp (Option.all_eq_true _ _ |>.mp sound a here)

theorem runSettles {passes : Nat} {call : Call ν} (sound : soundStep m call = true)
    (done : run doubles passes call m = some m') : Settles (fun passes => run doubles passes call m) (some m') := by
  refine ⟨passes,fun more large => ?_⟩
  cases call with
  | decode => cases sound
  | delete node =>
    cases node with
    | none => exact done
    | some node => exact deleteMore large done
  | mkcopy head =>
    obtain ⟨result, copied, rfl⟩ := Option.map_eq_some_iff.mp done
    exact Option.map_eq_some_iff.mpr ⟨result,copyMore large copied,rfl⟩
  | mknode | appendElement | prependElement | appendMember | prependMember | removeFromParent => exact done

theorem performedReached {passes : Nat} {later : List (Call ν)} (before : Reached doubles calls m)
    (done : performed doubles passes later m = some m') : Reached doubles (calls ++ later) m' := by
  induction later generalizing calls m with
  | nil =>
    cases done
    rwa [List.append_nil]
  | cons call later ih =>
    rw [performed] at done
    split at done
    case isFalse => cases done
    case isTrue sound =>
      obtain ⟨m₁, one, done⟩ := Option.bind_eq_some_iff.mp done
      have reached := ih (.next before (stepSound sound) (runSettles sound one)) done
      rwa [List.append_assoc] at reached

end Programs

theorem givenReached {passes : Nat} {calls : List (Call CText)}
    (goes : (performed texts passes calls Memory.empty).isSome = true) :
    Reached texts calls ((performed texts passes calls Memory.empty).getD Memory.empty) := by
  obtain ⟨m, done⟩ := Option.isSome_iff_exists.mp goes
  rw [done, Option.getD_some]
  exact performedReached .start done

theorem letterApart : 0 ∉ ([0x41] : Text) := by decide

def letter : CText := ⟨[0x41],letterApart⟩

theorem otherApart : 0 ∉ ([0x42] : Text) := by decide

def otherLetter : CText := ⟨[0x42],otherApart⟩

def boardCalls : List (Call CText) :=
  [.mknode .object,.mknode .array,.mknode (.string letter),.appendElement 1 2,.appendMember 0 letter 1,.mkcopy 1,
    .appendMember 0 otherLetter 3]

def boardMemory : Memory (NodeData CText) := (performed texts 9 boardCalls Memory.empty).getD Memory.empty

theorem boardReached : Reached texts boardCalls boardMemory := givenReached (by decide +kernel)

/- The object can be deleted. The copied string is in its array, so that it cannot be appended. -/
theorem runsRefineBoard :
    (∃ F, Grown texts boardCalls F ∧ Image hasChildren boardMemory F ∧ Keyed F ∧ F.children 0 = [1,3] ∧
      F.children 3 = [4] ∧ F.data 3 = some ⟨some otherLetter,.array⟩ ∧ F.data 4 = some ⟨none,.string letter⟩) ∧
    (∃ m', Settles (fun passes => run texts passes (.delete (some 0)) boardMemory) (some m')) ∧
    ¬∃ m', Settles (fun passes => run texts passes (.appendMember 0 letter 4) boardMemory) (some m') := by
  obtain ⟨⟨F, grown, image, keyed⟩, returns⟩ := runsRefine boardReached
  refine ⟨⟨F,grown,image,keyed,?_,?_,?_,?_⟩,?_,?_⟩
  · exact childrenRead image (by decide +kernel : childrenAt 9 0 boardMemory = some [1,3])
  · exact childrenRead image (by decide +kernel : childrenAt 9 3 boardMemory = some [4])
  · exact dataRead image (by decide +kernel)
  · exact dataRead image (by decide +kernel)
  · exact (returns (.delete (some 0)) (stepSound (by decide +kernel))).mp trivial
  · refine mt (returns (.appendMember 0 letter 4) (stepSound (by decide +kernel))).mpr ?_
    exact fun asserts => asserts (by decide +kernel)

theorem bracketApart : 0 ∉ ['['.toUInt8] := by decide

/- An array that is not closed, behind all that. -/
theorem decodeReachedBracket : ∃ (F : Family (NodeData CText)) (m' : Memory (NodeData CText)), Image hasChildren boardMemory F ∧
    Image hasChildren m' F ∧ Settles (fun n => jsonDecodeNode texts n ['['.toUInt8,0] boardMemory) (.failed m') := by
  obtain ⟨F, _, image, _, refused⟩ := decodeReached boardReached ⟨_,bracketApart⟩
  have none : ¬∃ node, DocumentText texts node ['['.toUInt8] := by
    intro offered
    obtain ⟨node, offered⟩ := offered
    have read := @decodeTakes _ texts ⟨_,bracketApart⟩ node offered
    have failed : jsonDecode texts ['['.toUInt8,0] = .failed := rfl
    cases read.symm.trans failed
  obtain ⟨m', image', done⟩ := refused none
  exact ⟨F,m',image,image',done⟩

end PennDaq.JsonRuns
