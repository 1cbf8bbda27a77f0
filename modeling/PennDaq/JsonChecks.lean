import PennDaq.JsonRuns
import PennDaq.JsonWriting

/-! `json_check`: what it finds in the memory that a program has reached. -/
namespace PennDaq.JsonChecks
open Lib.Forest Lib.LinkedForest Lib.ForestImages Lib.ForestTrees
open PennDaq.Utf8 PennDaq.JsonNumbers PennDaq.JsonText PennDaq.JsonWriting PennDaq.JsonDocuments
open PennDaq.JsonMemory PennDaq.JsonValues PennDaq.JsonRuns

inductive Problem where
  | invalidKey
  | invalidString
  | noTail
  | noHead
  | headHasPrev
  | ownChild
  | nextIsChild
  | nextIsHead
  | otherParent
  | nextNotBack
  | elementHasKey
  | memberHasNoKey
  | otherTail
  deriving DecidableEq

def Problem.errmsg : Problem → String
  | .invalidKey => "key contains invalid UTF-8"
  | .invalidString => "string_ contains invalid UTF-8"
  | .noTail => "tail is NULL, but head is not"
  | .noHead => "head is NULL, but tail is not"
  | .headHasPrev => "First child's prev pointer is not NULL"
  | .ownChild => "node is its own child"
  | .nextIsChild => "child->next == child (cycle)"
  | .nextIsHead => "child->next == head (cycle)"
  | .otherParent => "child does not point back to parent"
  | .nextNotBack => "child->next does not point back to child"
  | .elementHasKey => "Array element's key is not NULL"
  | .memberHasNoKey => "Object member's key is NULL"
  | .otherTail => "tail does not match pointer found by starting at head and following next links"

abbrev Check := Option (Option Problem)

def problemIf (p : Bool) (problem : Problem) : Check := some (if p then some problem else none)

def otherwise (first later : Check) : Check := first.bind fun found => if found.isSome then some found else later

def textProblem (problem : Problem) (s : CText) : Check :=
  (utf8Validate s.memory).map fun valid => if valid then none else some problem

def keyProblem : Option CText → Check
  | none => some none
  | some key => textProblem .invalidKey key

section Walk
variable {ν : Type}

def backProblem (child : Addr) (m : Memory (NodeData ν)) : Option Addr → Check
  | none => some none
  | some next => (m.cells next).bind fun n => problemIf (n.prev != some child) .nextNotBack

def childProblem (node head child : Addr) (value : Value ν) (c : Cell (NodeData ν)) (m : Memory (NodeData ν)) : Check :=
  otherwise (problemIf (child == node) .ownChild)
    (otherwise (problemIf (c.next == some child) .nextIsChild)
    (otherwise (problemIf (c.next == some head) .nextIsHead)
    (otherwise (problemIf (c.parent != some node) .otherParent)
    (otherwise (backProblem child m c.next)
    (otherwise (problemIf (value.isArray && c.data.key.isSome) .elementHasKey)
      (problemIf (value.isObject && c.data.key.isNone) .memberHasNoKey))))))

def endsProblem (c : Cell (NodeData ν)) (m : Memory (NodeData ν)) (walk : Addr → Addr → Check) : Check :=
  match c.head, c.tail with
  | none, none => some none
  | some _, none => some (some .noTail)
  | none, some _ => some (some .noHead)
  | some head, some tail => (m.cells head).bind fun h =>
    otherwise (problemIf h.prev.isSome .headHasPrev) (walk head tail)

mutual

def jsonCheck : Nat → Addr → Memory (NodeData ν) → Check
  | 0, _, _ => none
  | passes+1, node, m => do
    let c ← m.cells node
    otherwise (keyProblem c.data.key) (match c.data.value with
      | .null | .bool _ | .number _ => some none
      | .string string' => textProblem .invalidString string'
      | .array | .object => endsProblem c m fun head tail =>
        checkChildren passes node head tail c.data.value none (some head) m)

def checkChildren : Nat → Addr → Addr → Addr → Value ν → Option Addr → Option Addr → Memory (NodeData ν) → Check
  | _, _, _, tail, _, last, none, _ => problemIf (last != some tail) .otherTail
  | 0, _, _, _, _, _, some _, _ => none
  | passes+1, node, head, tail, value, _, some child, m => do
    let c ← m.cells child
    otherwise (childProblem node head child value c m) (otherwise (jsonCheck passes child m)
      (checkChildren passes node head tail value (some child) c.next m))

end

structure Fine (F : Family (NodeData ν)) (a : Addr) (d : NodeData ν) : Prop where
  key : ∀ key ∈ d.key, Valid key
  string : ∀ s, d.value = .string s → Valid s
  elements : d.value.isArray = true → ∀ c ∈ F.children a, ∀ dc ∈ F.data c, dc.key = none

def Proper (F : Family (NodeData ν)) (a : Addr) : Prop := ∀ x, F.Below a x → ∀ d ∈ F.data x, Fine F x d

def Textual (found : Option Problem) : Prop :=
  ∀ problem ∈ found, problem = .invalidKey ∨ problem = .invalidString ∨ problem = .elementHasKey

def Answers (check : Nat → Check) (p : Prop) : Prop :=
  ∃ found enough, (∀ passes, enough ≤ passes → check passes = some found) ∧ (found = none ↔ p) ∧ Textual found

theorem textualNone : Textual none := fun _ inside => nomatch inside

theorem answersNone {p : Prop} (fine : p) : Answers (fun _ => some none) p :=
  ⟨none,0,fun _ _ => rfl,by simp [fine],textualNone⟩

theorem answersSame {check check' : Nat → Check} {p p' : Prop} (answers : Answers check p) (same : p ↔ p')
    (checks : ∀ passes, check' passes = check passes) : Answers check' p' := by
  obtain ⟨found, enough, done, exact, textual⟩ := answers
  exact ⟨found,enough,fun passes large => (checks passes).trans (done passes large),exact.trans same,textual⟩

theorem answersIf (b : Bool) {problem : Problem} (textual : Textual (some problem)) :
    Answers (fun _ => problemIf b problem) (b = false) := by
  refine ⟨if b then some problem else none,0,fun _ _ => rfl,?_,?_⟩
  · cases b with
    | false | true => simp
  · cases b with
    | false => exact textualNone
    | true => exact textual

theorem otherwiseNot {b : Bool} (never : b = false) (problem : Problem) (later : Check) :
    otherwise (problemIf b problem) later = later := by
  rw [never]
  rfl

theorem answersOtherwise {first later : Nat → Check} {p q : Prop} (one : Answers first p) (two : Answers later q) :
    Answers (fun passes => otherwise (first passes) (later passes)) (p ∧ q) := by
  obtain ⟨found, enough, done, exact, textual⟩ := one
  obtain ⟨found', enough', done', exact', textual'⟩ := two
  refine ⟨if found.isSome then found else found',enough+enough',fun passes large => ?_,?_,?_⟩
  · dsimp only
    rw [done passes (by omega), done' passes (by omega), otherwise, Option.bind_some]
    split
    case isTrue => rfl
    case isFalse => rfl
  · cases found with
    | none => simpa [← exact] using exact'
    | some problem =>
      have not : ¬p := fun held => nomatch exact.mpr held
      simp [not]
  · cases found with
    | none => exact textual'
    | some problem => exact textual

theorem answersText {problem : Problem} (textual : Textual (some problem)) (s : CText) :
    Answers (fun _ => textProblem problem s) (Valid s) := by
  have enough : s.bytes.length < s.memory.length := by simp [CText.memory]
  obtain ⟨answer, validated, exact⟩ := utf8ValidateFromExact s.apart enough
  have same : utf8Validate s.memory = some answer := validated
  refine answersSame (answersIf (!answer) textual) (Iff.trans ?_ exact) fun _ => ?_
  · simp
  · rw [textProblem, same, problemIf]
    cases answer with
    | false | true => rfl

theorem answersKey (key : Option CText) : Answers (fun _ => keyProblem key) (∀ k ∈ key, Valid k) := by
  cases key with
  | none => exact answersNone fun _ inside => nomatch inside
  | some key => exact answersSame (answersText (by simp [Textual]) key) (by simp) fun _ => rfl

variable {m : Memory (NodeData ν)} {F : Family (NodeData ν)}

theorem answersLater {check : Nat → Check} {p : Prop} (answers : Answers (fun passes => check (passes+1)) p) :
    Answers check p := by
  obtain ⟨found, enough, done, exact, textual⟩ := answers
  refine ⟨found,enough+1,fun passes large => ?_,exact,textual⟩
  cases passes with
  | zero => omega
  | succ passes => exact done passes (by omega)

theorem properCases {a : Addr} {d : NodeData ν} (held : F.data a = some d) :
    Proper F a ↔ Fine F a d ∧ ∀ c ∈ F.children a, Proper F c := by
  constructor
  · intro proper
    refine ⟨proper a (Family.belowSelf a) d held,fun c member x below => ?_⟩
    exact proper x (Family.belowChild member below)
  · intro both x below
    obtain ⟨fine, each⟩ := both
    rcases Family.belowCases.mp below with rfl | ⟨c, member, path⟩
    · intro d' held'
      cases held.symm.trans held'
      exact fine
    · exact each c member x path

theorem answersChild (image : Image hasChildren m F) (keyed : Keyed F) {node child : Addr} {front back : List Addr}
    {d : NodeData ν} (held : F.data node = some d) (split : F.children node = front ++ child::back) {head : Addr}
    (first : (F.children node).head? = some head) {c : Cell (NodeData ν)} (stored : m.cells child = some c) :
    Answers (fun _ => childProblem node head child d.value c m) (d.value.isArray = true → c.data.key = none) := by
  have right := image.right child c stored
  obtain ⟨up, _, after⟩ := right.child node front back split
  have member : child ∈ F.children node := by simp [split]
  have once := F.once node
  have notOwn : child ≠ node := fun same => Family.notOwnChild node (same ▸ member)
  -- The siblings are distinct, so that no loop of the list is found.
  have notSelf : c.next ≠ some child := by
    intro same
    rw [after] at same
    rw [split] at once
    have inside := List.mem_of_mem_head? same
    exact absurd inside (List.nodup_cons.mp (List.nodup_append.mp once).2.1).1
  have notHead : c.next ≠ some head := by
    intro same
    rw [after] at same
    have inside := List.mem_of_mem_head? same
    rw [split] at once first
    cases front with
    | nil =>
      cases first
      exact absurd inside (List.nodup_cons.mp once).1
    | cons f front =>
      cases first
      exact absurd (List.mem_append_right _ (List.mem_cons_of_mem _ inside)) (List.nodup_cons.mp once).1
  have backs : backProblem child m c.next = some none := by
    rw [after]
    cases back with
    | nil => rfl
    | cons b back =>
      have split' : F.children node = (front ++ [child]) ++ b::back := by simp [split]
      obtain ⟨cell, stored'⟩ := image.live (F.inside node b (by simp [split])).2
      obtain ⟨_, before, _⟩ := (image.right b cell stored').child node _ back split'
      rw [List.head?_cons, backProblem, stored', Option.bind_some, before]
      simp [problemIf]
  have hasKey : (d.value.isObject && c.data.key.isNone) = false := by
    rw [Bool.and_eq_false_iff]
    cases object : d.value.isObject with
    | false => exact Or.inl rfl
    | true =>
      refine Or.inr ?_
      rw [Option.isNone_eq_false_iff, Option.isSome_iff_ne_none]
      exact keyed node child d c.data held object member right.data
  refine answersSame (answersIf (d.value.isArray && c.data.key.isSome) (by simp [Textual] : Textual (some .elementHasKey))) ?_ ?_
  · rw [Bool.and_eq_false_iff, Option.isSome_eq_false_iff, Option.isNone_iff_eq_none]
    cases d.value.isArray with
    | false | true => simp
  · intro _
    rw [childProblem, otherwiseNot (by simpa using notOwn), otherwiseNot (by simpa using notSelf),
      otherwiseNot (by simpa using notHead), otherwiseNot (by simp [up]), backs]
    rw [hasKey]
    cases d.value.isArray && c.data.key.isSome with
    | false | true => rfl

theorem answersChildren (image : Image hasChildren m F) (keyed : Keyed F) {node head tail : Addr} {d : NodeData ν}
    (held : F.data node = some d) (first : (F.children node).head? = some head)
    (last : (F.children node).getLast? = some tail) {trees : List (Branch (NodeData ν))}
    (ih : ∀ t ∈ trees, ∀ a, Denotes F a t → Answers (fun passes => jsonCheck passes a m) (Proper F a))
    {front list : List Addr} (split : F.children node = front ++ list) (denote : List.Forall₂ (Denotes F) list trees) :
    Answers (fun passes => checkChildren passes node head tail d.value front.getLast? list.head? m)
      (∀ c ∈ list, (d.value.isArray = true → ∀ dc ∈ F.data c, dc.key = none) ∧ Proper F c) := by
  induction list generalizing front trees with
  | nil =>
    rw [List.append_nil] at split
    refine answersSame (answersNone trivial) (by simp) fun passes => ?_
    rw [← split, last]
    cases passes with
    | zero | succ => simp [checkChildren, problemIf]
  | cons c list ih' =>
    cases denote with
    | @cons _ tree _ trees one others =>
      obtain ⟨checkOne, checkOthers⟩ := List.forall_mem_cons.mp ih
      have member : c ∈ F.children node := by simp [split]
      obtain ⟨cell, stored⟩ := image.live (F.inside node c member).2
      have right := image.right c cell stored
      obtain ⟨_, _, after⟩ := right.child node front list split
      have rest := ih' checkOthers (by simp [split] : F.children node = (front ++ [c]) ++ list) others
      rw [List.getLast?_concat] at rest
      have both := answersOtherwise (answersChild image keyed held split first stored)
        (answersOtherwise (checkOne c one) rest)
      refine answersLater (answersSame both ?_ fun passes => ?_)
      · rw [List.forall_mem_cons, right.data]
        simp [and_assoc]
      · rw [List.head?_cons, checkChildren, stored, Option.bind_eq_bind, Option.bind_some, after]

theorem fineValue {a : Addr} {d : NodeData ν} : Fine F a d ↔ (∀ key ∈ d.key, Valid key) ∧
    (∀ s, d.value = .string s → Valid s) ∧ (d.value.isArray = true → ∀ c ∈ F.children a, ∀ dc ∈ F.data c, dc.key = none) :=
  ⟨fun fine => ⟨fine.key,fine.string,fine.elements⟩,fun all => ⟨all.1,all.2.1,all.2.2⟩⟩

theorem answersLeaf {a : Addr} {d : NodeData ν} (held : F.data a = some d) (leaf : F.children a = []) {check : Nat → Check}
    {p : Prop} (answers : Answers check p) (same : p ↔ ∀ s, d.value = .string s → Valid s) :
    Answers (fun passes => otherwise (keyProblem d.key) (check passes)) (Proper F a) := by
  refine answersSame (answersOtherwise (answersKey d.key) answers) ?_ fun _ => rfl
  rw [properCases held, fineValue, leaf, same]
  simp

theorem properWithin {a : Addr} {d : NodeData ν} (held : F.data a = some d) (room : hasChildren d = true) :
    Proper F a ↔ (∀ key ∈ d.key, Valid key) ∧
      ∀ c ∈ F.children a, (d.value.isArray = true → ∀ dc ∈ F.data c, dc.key = none) ∧ Proper F c := by
  have noString : ∀ s, d.value ≠ .string s := by
    intro s value
    simp [hasChildren, value, Value.isArray, Value.isObject] at room
  rw [properCases held, fineValue]
  constructor
  · intro both
    obtain ⟨⟨key, _, elements⟩, each⟩ := both
    exact ⟨key,fun c member => ⟨fun array => elements array c member,each c member⟩⟩
  · intro both
    obtain ⟨key, each⟩ := both
    exact ⟨⟨key,fun s value => absurd value (noString s),fun array c member => (each c member).1 array⟩,
      fun c member => (each c member).2⟩

theorem answersEnds (image : Image hasChildren m F) (keyed : Keyed F) {a : Addr} {c : Cell (NodeData ν)}
    (stored : m.cells a = some c) (room : hasChildren c.data = true) {trees : List (Branch (NodeData ν))}
    (ih : ∀ t ∈ trees, ∀ a, Denotes F a t → Answers (fun passes => jsonCheck passes a m) (Proper F a))
    (denote : List.Forall₂ (Denotes F) (F.children a) trees) :
    Answers (fun passes => otherwise (keyProblem c.data.key) (endsProblem c m fun head tail =>
      checkChildren passes a head tail c.data.value none (some head) m)) (Proper F a) := by
  have right := image.right a c stored
  suffices walk : Answers (fun passes => endsProblem c m fun head tail =>
      checkChildren passes a head tail c.data.value none (some head) m)
      (∀ x ∈ F.children a, (c.data.value.isArray = true → ∀ dx ∈ F.data x, dx.key = none) ∧ Proper F x) from
    answersSame (answersOtherwise (answersKey c.data.key) walk) (properWithin right.data room).symm fun _ => rfl
  cases list : F.children a with
  | nil =>
    refine answersSame (answersNone trivial) (by simp) fun passes => ?_
    rw [endsProblem, right.head, right.tail, list]
    rfl
  | cons head list' =>
    obtain ⟨tail, last⟩ : ∃ tail, (F.children a).getLast? = some tail :=
      Option.ne_none_iff_exists'.mp (by simp [list])
    have first : (F.children a).head? = some head := by rw [list, List.head?_cons]
    obtain ⟨h, stored'⟩ := image.live (F.inside a head (by simp [list])).2
    obtain ⟨_, before, _⟩ := (image.right head h stored').child a [] list' list
    have split : F.children a = [] ++ head::list' := list
    rw [list] at denote
    have walk := answersChildren image keyed right.data first last ih split denote
    refine answersSame walk Iff.rfl fun passes => ?_
    rw [endsProblem, right.head, right.tail, first, last]
    dsimp only
    rw [stored', Option.bind_some, before]
    rfl

theorem answersTree (image : Image hasChildren m F) (keyed : Keyed F) (tree : Branch (NodeData ν)) {a : Addr}
    (denotes : Denotes F a tree) : Answers (fun passes => jsonCheck passes a m) (Proper F a) := by
  induction tree generalizing a with
  | node d trees ih =>
    cases denotes with
    | mk held all =>
      obtain ⟨c, stored⟩ := image.live (fun none => nomatch held.symm.trans none)
      have right := image.right a c stored
      obtain rfl : c.data = d := Option.some.inj (right.data.symm.trans held)
      have leaf : hasChildren c.data = false → F.children a = [] := right.leaf
      refine answersLater ?_
      cases value : c.data.value with
      | null | bool | number =>
        have leaf := right.leaf (by simp [hasChildren, value, Value.isArray, Value.isObject])
        refine answersSame (answersLeaf held leaf (answersNone trivial) (by simp [value])) Iff.rfl fun passes => ?_
        rw [jsonCheck, stored, Option.bind_eq_bind, Option.bind_some, value]
      | string string' =>
        have leaf := right.leaf (by simp [hasChildren, value, Value.isArray, Value.isObject])
        have textual : Textual (some .invalidString) := by simp [Textual]
        refine answersSame (answersLeaf held leaf (answersText textual string') (by simp [value])) Iff.rfl fun passes => ?_
        rw [jsonCheck, stored, Option.bind_eq_bind, Option.bind_some, value]
      | array | object =>
        refine answersSame (answersEnds image keyed stored (by simp [hasChildren, value, Value.isArray, Value.isObject]) ih all) Iff.rfl fun passes => ?_
        rw [jsonCheck, stored, Option.bind_eq_bind, Option.bind_some]
        simp only [value]

def Agrees (one two : Check) : Prop := ∀ found, one = some found → two = some found

theorem agreesOtherwise {first first' later later' : Check} (one : Agrees first first') (two : Agrees later later') :
    Agrees (otherwise first later) (otherwise first' later') := by
  intro found done
  obtain ⟨found₁, held, done⟩ := Option.bind_eq_some_iff.mp done
  refine Option.bind_eq_some_iff.mpr ⟨found₁,one _ held,?_⟩
  split at done
  case isTrue problem => exact (if_pos problem).trans done
  case isFalse fine => exact (if_neg fine).trans (two _ done)

theorem agreesEnds {c : Cell (NodeData ν)} {m : Memory (NodeData ν)} {walk walk' : Addr → Addr → Check}
    (agrees : ∀ head tail, Agrees (walk head tail) (walk' head tail)) : Agrees (endsProblem c m walk) (endsProblem c m walk') := by
  unfold endsProblem
  cases c.head with
  | none => cases c.tail with
    | none | some tail => exact fun _ done => done
  | some head => cases c.tail with
    | none => exact fun _ done => done
    | some tail =>
      intro found done
      obtain ⟨h, stored, done⟩ := Option.bind_eq_some_iff.mp done
      exact Option.bind_eq_some_iff.mpr ⟨h,stored,agreesOtherwise (fun _ same => same) (agrees head tail) found done⟩

theorem checkStep (passes : Nat) :
    (∀ node (m : Memory (NodeData ν)), Agrees (jsonCheck passes node m) (jsonCheck (passes+1) node m)) ∧
    (∀ node head tail value last child (m : Memory (NodeData ν)), Agrees
      (checkChildren passes node head tail value last child m) (checkChildren (passes+1) node head tail value last child m)) := by
  induction passes with
  | zero =>
    refine ⟨fun node m found done => ?_,fun node head tail value last child m found done => ?_⟩
    · cases done
    · cases child with
      | none => exact done
      | some => cases done
  | succ passes ih =>
    obtain ⟨ihNode, ihChildren⟩ := ih
    refine ⟨fun node m found done => ?_,fun node head tail value last child m found done => ?_⟩
    · rw [jsonCheck] at done ⊢
      obtain ⟨c, stored, done⟩ := Option.bind_eq_some_iff.mp done
      refine Option.bind_eq_some_iff.mpr ⟨c,stored,?_⟩
      refine agreesOtherwise (fun _ same => same) ?_ found done
      cases c.data.value with
      | null | bool | number | string => exact fun _ same => same
      | array | object => exact agreesEnds fun head tail => ihChildren node head tail _ none (some head) m
    · cases child with
      | none => exact done
      | some child =>
        rw [checkChildren] at done ⊢
        obtain ⟨c, stored, done⟩ := Option.bind_eq_some_iff.mp done
        refine Option.bind_eq_some_iff.mpr ⟨c,stored,?_⟩
        exact agreesOtherwise (fun _ same => same) (agreesOtherwise (ihNode child m)
          (ihChildren node head tail value (some child) c.next m)) found done

theorem checkMore {passes passes' : Nat} (more : passes ≤ passes') {node : Addr} {m : Memory (NodeData ν)}
    {found : Option Problem} (done : jsonCheck passes node m = some found) : jsonCheck passes' node m = some found := by
  induction more with
  | refl => exact done
  | step _ ih => exact (checkStep _).1 node m found ih

theorem checkSettled {passes enough : Nat} {node : Addr} {m : Memory (NodeData ν)} {found found' : Option Problem}
    (settled : ∀ passes, enough ≤ passes → jsonCheck passes node m = some found)
    (done : jsonCheck passes node m = some found') : found' = found :=
  Option.some.inj ((checkMore (Nat.le_max_right enough passes) done).symm.trans (settled _ (Nat.le_max_left enough passes)))

end Walk

/- Of a node that a program has made and not deleted, only the text can be wrong: a string not
in UTF-8, or an element of an array that has a key. -/
theorem checkExact {ν : Type} {doubles : Doubles ν} {calls : List (Call ν)} {m : Memory (NodeData ν)}
    (reached : Reached doubles calls m) {node : Addr} (live : m.cells node ≠ none) :
    ∃ F, Grown doubles calls F ∧ Image hasChildren m F ∧
      ∃ found enough, (∀ passes, enough ≤ passes → jsonCheck passes node m = some found) ∧
        (found = none ↔ Proper F node) ∧ Textual found := by
  obtain ⟨F, grown, image, keyed⟩ := reachedImage reached
  obtain ⟨tree, denotes⟩ := someTree ((liveIff image).mp live)
  exact ⟨F,grown,image,answersTree image keyed tree denotes⟩

def keyedCalls : List (Call CText) := boardCalls ++ [.mknode .array,.mkcopy 1,.appendElement 5 6]

def keyedMemory : Memory (NodeData CText) := (performed texts 9 keyedCalls Memory.empty).getD Memory.empty

theorem keyedReached : Reached texts keyedCalls keyedMemory := givenReached (by decide +kernel)

theorem liveZero : keyedMemory.cells 0 ≠ none := Option.isSome_iff_ne_none.mp (by decide +kernel)

theorem liveFive : keyedMemory.cells 5 ≠ none := Option.isSome_iff_ne_none.mp (by decide +kernel)

/- The object is as it should be, the array has an element with a key. -/
theorem checkExactKeyed :
    (∃ F, Grown texts keyedCalls F ∧ Proper F 0 ∧
      ∃ enough, ∀ passes, enough ≤ passes → jsonCheck passes 0 keyedMemory = some none) ∧
    ∃ F, Grown texts keyedCalls F ∧ ¬Proper F 5 ∧
      ∃ enough, ∀ passes, enough ≤ passes → jsonCheck passes 5 keyedMemory = some (some .elementHasKey) := by
  constructor
  · obtain ⟨F, grown, _, found, enough, done, exact, _⟩ := checkExact keyedReached liveZero
    obtain rfl := checkSettled done (by decide +kernel : jsonCheck 9 0 keyedMemory = some none)
    exact ⟨F,grown,exact.mp rfl,enough,done⟩
  · obtain ⟨F, grown, _, found, enough, done, exact, _⟩ := checkExact keyedReached liveFive
    obtain rfl := checkSettled done (by decide +kernel : jsonCheck 9 5 keyedMemory = some (some .elementHasKey))
    exact ⟨F,grown,mt exact.mpr (Option.some_ne_none _),enough,done⟩

end PennDaq.JsonChecks
