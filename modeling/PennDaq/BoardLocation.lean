import PennDaq.Lib.CString
import PennDaq.Lib.JsonArray

/-! Where the boards are: `RemoveFromConfig`, and the part of `UpdateLocation` that
changes the configuration document. -/
namespace PennDaq.BoardLocation
open Lib.CString
open Lib.JsonTree

def idString (id : BitVec 16) : String := String.ofList (hex4 id)

def sameId (a b : String) : Bool := a.toList.take 4 = b.toList.take 4

def matchCount (ids : List String) (node : Node) : Nat :=
  match getString node with
  | none => 0
  | some text => ids.countP (sameId · text)

/- Each match appends a null, but the old id is taken out once only. -/
def removeFecId (ids : List String) (fec : Json) : Option Json :=
  match matchCount ids (findMember (some fec) "id") with
  | 0 => some fec
  | count+1 => (removeMember "id" fec).bind (appendMembers (List.replicate (count+1) ("id",.null)))

def removeAt (n : Nat) (ids : List String) (array : Json) (k : Nat) : Option Json :=
  if matchCount ids (findElement (some array) k) ≠ 0 then replaceElement n k .null array else some array

def removeFromArray (n : Nat) (ids : List String) (array : Json) : Option Json :=
  (List.range n).foldlM (removeAt n ids) array

def removeFromFec (ids : List String) (fec : Json) : Option Json :=
  (removeFecId ids fec).bind (alterMember "dbs" (removeFromArray 4 ids))

def removeFromCrate (ids : List String) (crate : Json) : Option Json :=
  (alterMember "fecs" (changeElements fun j fec => if j < 16 then removeFromFec ids fec else some fec) crate).bind
    (alterMember "pmtics" (removeFromArray 16 ids))

def removeFromConfig (ids : List String) (doc : Json) : Option Json :=
  alterMember "crates" (changeElements fun _ crate => removeFromCrate ids crate) doc

structure Request where
  id : BitVec 16
  crate : Int
  slot : Nat
  position : Nat

def placeInCrate (r : Request) (crate : Json) : Option Json :=
  let id := Json.string (idString r.id)
  if r.position = 0 then
    modifyMember "fecs" (modifyElement r.slot fun fec =>
      (removeMember "id" fec).bind (appendMember "id" id)) crate
  else if r.position < 5 then
    modifyMember "fecs" (modifyElement r.slot
      (modifyMember "dbs" (replaceElement 4 (r.position-1) id))) crate
  else if r.position = 5 then modifyMember "pmtics" (replaceElement 16 r.slot id) crate
  else some crate

def displaced (r : Request) (crate : Node) : Option String :=
  let fec := findElement (findMember crate "fecs") r.slot
  if r.position = 0 then getString (findMember fec "id")
  else if r.position < 5 then getString (findElement (findMember fec "dbs") (r.position-1))
  else if r.position = 5 ∧ r.slot < 16 then getString (findElement (findMember crate "pmtics") r.slot)
  else none

def findCrate (doc : Json) (number : Int) : Option Nat :=
  let crates := findMember (some doc) "crates"
  (List.range (getNumMems crates).toNat).find? fun i =>
    getNumber (findMember (findElement crates i) "id") = number

structure Update where
  doc : Json
  thisCrate : Option Nat
  old : List String

/- A crate that is not there leaves the one of the request before. -/
def placeOne (u : Update) (r : Request) : Option Update := do
  let index ← (findCrate u.doc r.crate).or u.thisCrate
  let crate := findElement (findMember (some u.doc) "crates") index
  let doc ← modifyMember "crates" (modifyElement index (placeInCrate r)) u.doc
  return ⟨doc,some index,u.old ++ (displaced r crate).toList⟩

/- The arrays of strings have 96 places. -/
def updateLocation (requests : List Request) (doc : Json) : Option Json :=
  if requests.length ≤ 16*6 then do
    let doc ← removeFromConfig (requests.map fun r => idString r.id) doc
    let u ← requests.foldlM placeOne ⟨doc,none,[]⟩
    if u.old = [] then return u.doc else removeFromConfig u.old u.doc
  else none

inductive Place where
  | fec (j : Fin 16)
  | db (j : Fin 16) (k : Fin 4)
  | pmtic (j : Fin 16)
  deriving DecidableEq

abbrev Spot (n : Nat) := Fin n × Place

structure ShowsFec (fec id : Json) (dbs : Fin 4 → Json) : Prop where
  distinct : Distinct fec
  id : findMember (some fec) "id" = some id
  dbs : findMember (some fec) "dbs" = some (arrayOf dbs)

structure ShowsCrate (crate : Json) (number : ℚ) (boards : Place → Json) : Prop where
  distinct : Distinct crate
  number : findMember (some crate) "id" = some (.number number)
  fecs : ∃ fecs : Fin 16 → Json, findMember (some crate) "fecs" = some (arrayOf fecs) ∧
    ∀ j, ShowsFec (fecs j) (boards (.fec j)) fun k => boards (.db j k)
  pmtics : findMember (some crate) "pmtics" = some (arrayOf fun j => boards (.pmtic j))

structure ShowsConfig {n : Nat} (doc : Json) (numbers : Fin n → ℚ) (boards : Spot n → Json) : Prop where
  distinct : Distinct doc
  crates : ∃ crates : Fin n → Json, findMember (some doc) "crates" = some (arrayOf crates) ∧
    ∀ c, ShowsCrate (crates c) (numbers c) fun p => boards (c,p)

def cleared (ids : List String) (board : Json) : Json :=
  if matchCount ids (some board) ≠ 0 then .null else board

theorem replaceIdSpec {fec id : Json} {dbs : Fin 4 → Json} (shown : ShowsFec fec id dbs) (board : Json) :
    ∃ after, (removeMember "id" fec).bind (appendMember "id" board) = some after ∧ ShowsFec after board dbs := by
  obtain ⟨left, removed, distinct, gone, others⟩ := removeMemberSpec shown.distinct shown.id
  obtain ⟨after, appended, distinct', here, kept⟩ := appendMemberSpec board distinct gone
  refine ⟨after, ?_, distinct', here, ?_⟩
  · rw [removed]
    exact appended
  · rw [kept "dbs" (by decide), others "dbs" (by decide), shown.dbs]

theorem removeFecIdSpec {ids : List String} {fec id : Json} {dbs : Fin 4 → Json}
    (shown : ShowsFec fec id dbs) (once : matchCount ids (some id) ≤ 1) :
    ∃ after, removeFecId ids fec = some after ∧ ShowsFec after (cleared ids id) dbs := by
  unfold removeFecId cleared
  rw [shown.id]
  cases h : matchCount ids (some id) with
  | zero => exact ⟨fec, rfl, shown⟩
  | succ count =>
    have single : count = 0 := by omega
    subst single
    exact replaceIdSpec shown .null

theorem removeFromArraySpec {n : Nat} (ids : List String) (boards : Fin n → Json) :
    removeFromArray n ids (arrayOf boards) = some (arrayOf fun i => cleared ids (boards i)) := by
  have loop := replaceLoop boards .null (fun board => matchCount ids (some board) ≠ 0) (removeAt n ids)
    (fun now i => by
      unfold removeAt
      rw [findElementArrayOf]
      split
      · rename_i found
        simp [replaceElementSpec, found]
      · rename_i found
        simp [found])
  simpa [removeFromArray, cleared] using loop

theorem removeFromFecSpec {ids : List String} {fec id : Json} {dbs : Fin 4 → Json}
    (shown : ShowsFec fec id dbs) (once : matchCount ids (some id) ≤ 1) :
    ∃ after, removeFromFec ids fec = some after ∧
      ShowsFec after (cleared ids id) fun k => cleared ids (dbs k) := by
  obtain ⟨mid, removed, shown'⟩ := removeFecIdSpec shown once
  obtain ⟨after, altered, distinct, here, others⟩ := alterMemberSpec (removeFromArray 4 ids)
    shown'.distinct shown'.dbs (removeFromArraySpec ids dbs)
  refine ⟨after, by rw [removeFromFec, removed]; exact altered, distinct, ?_, here⟩
  rw [others "id" (by decide), shown'.id]

theorem removeFromCrateSpec {ids : List String} {crate : Json} {number : ℚ} {boards : Place → Json}
    (shown : ShowsCrate crate number boards) (once : ∀ j, matchCount ids (some (boards (.fec j))) ≤ 1) :
    ∃ after, removeFromCrate ids crate = some after ∧ ShowsCrate after number fun p => cleared ids (boards p) := by
  obtain ⟨fecs, found, each⟩ := shown.fecs
  choose fecs' removed shown' using fun j => removeFromFecSpec (each j) (once j)
  have each' (j : Fin 16) : (if j.val < 16 then removeFromFec ids (fecs j) else some (fecs j)) =
      some (fecs' j) := by rw [if_pos j.isLt, removed]
  have changed := changeElementsSpec (fun j fec => if j < 16 then removeFromFec ids fec else some fec) each'
  obtain ⟨mid, altered, distinct, here, others⟩ := alterMemberSpec _ shown.distinct found changed
  obtain ⟨after, altered', distinct', here', kept⟩ := alterMemberSpec (removeFromArray 16 ids) distinct
    ((others "pmtics" (by decide)).trans shown.pmtics) (removeFromArraySpec ids _)
  refine ⟨after, by rw [removeFromCrate, altered]; exact altered', distinct', ?_, ⟨fecs', ?_, shown'⟩, here'⟩
  · rw [kept "id" (by decide), others "id" (by decide), shown.number]
  · rw [kept "fecs" (by decide), here]

theorem removeFromConfigSpec {n : Nat} (ids : List String) {doc : Json} {numbers : Fin n → ℚ}
    {boards : Spot n → Json} (shown : ShowsConfig doc numbers boards)
    (once : ∀ s, matchCount ids (some (boards s)) ≤ 1) :
    ∃ after, removeFromConfig ids doc = some after ∧ ShowsConfig after numbers fun s => cleared ids (boards s) := by
  obtain ⟨crates, found, each⟩ := shown.crates
  choose crates' removed shown' using fun c => removeFromCrateSpec (each c) fun j => once (c,.fec j)
  obtain ⟨after, altered, distinct, here, -⟩ := alterMemberSpec _ shown.distinct found
    (changeElementsSpec (fun _ crate => removeFromCrate ids crate) removed)
  exact ⟨after, altered, distinct, crates', here, shown'⟩

def Request.target (r : Request) : Option Place :=
  if slot : r.slot < 16 then
    if r.position = 0 then some (.fec ⟨r.slot,slot⟩)
    else if db : r.position < 5 then some (.db ⟨r.slot,slot⟩ ⟨r.position-1,by omega⟩)
    else if r.position = 5 then some (.pmtic ⟨r.slot,slot⟩)
    else none
  else none

def Request.board (r : Request) : Json := .string (idString r.id)

theorem changeFecSpec {crate : Json} {number : ℚ} {boards next : Place → Json}
    (shown : ShowsCrate crate number boards) {j : Fin 16} (change : Json → Option Json)
    (changed : ∀ fec, ShowsFec fec (boards (.fec j)) (fun k => boards (.db j k)) →
      ∃ after, change fec = some after ∧ ShowsFec after (next (.fec j)) fun k => next (.db j k))
    (fecs : ∀ i, i ≠ j → next (.fec i) = boards (.fec i))
    (dbs : ∀ i k, i ≠ j → next (.db i k) = boards (.db i k))
    (pmtics : ∀ i, next (.pmtic i) = boards (.pmtic i)) :
    ∃ after, modifyMember "fecs" (modifyElement j change) crate = some after ∧ ShowsCrate after number next := by
  obtain ⟨all, found, each⟩ := shown.fecs
  obtain ⟨fec, here, shown'⟩ := changed (all j) (each j)
  obtain ⟨after, modified, distinct, place, others⟩ := modifyMemberSpec _ shown.distinct found
    (modifyElementSpec change here)
  refine ⟨after, modified, distinct, ?_, ⟨_, place, fun i => ?_⟩, ?_⟩
  · rw [others "id" (by decide), shown.number]
  · by_cases same : i = j
    · subst same
      rwa [Function.update_self]
    · rw [Function.update_of_ne same, fecs i same]
      simpa only [dbs i _ same] using each i
  · simp only [pmtics]
    rw [others "pmtics" (by decide), shown.pmtics]

theorem placeFec {r : Request} {crate : Json} {number : ℚ} {boards : Place → Json}
    (shown : ShowsCrate crate number boards) {j : Fin 16} (slot : r.slot = j) (position : r.position = 0) :
    (∃ after, placeInCrate r crate = some after ∧
      ShowsCrate after number (Function.update boards (.fec j) r.board)) ∧
      displaced r (some crate) = getString (some (boards (.fec j))) := by
  constructor
  · rw [placeInCrate, if_pos position, slot]
    refine changeFecSpec shown _ (fun fec here => ?_) (fun i other => ?_) (fun i k other => ?_) fun i => ?_
    · obtain ⟨after, replaced, shown'⟩ := replaceIdSpec here r.board
      exact ⟨after, replaced, by simpa using shown'⟩
    · simp [other]
    · simp
    · simp
  · obtain ⟨fecs, found, each⟩ := shown.fecs
    simp only [displaced, position, if_true, found, slot, findElementArrayOf, (each j).id]

theorem replaceDbSpec {fec id : Json} {dbs : Fin 4 → Json} (shown : ShowsFec fec id dbs) (k : Fin 4) (board : Json) :
    ∃ after, modifyMember "dbs" (replaceElement 4 k board) fec = some after ∧
      ShowsFec after id (Function.update dbs k board) := by
  obtain ⟨after, modified, distinct, here, others⟩ := modifyMemberSpec (replaceElement 4 k board)
    shown.distinct shown.dbs (replaceElementSpec dbs k board)
  exact ⟨after, modified, distinct, (others "id" (by decide)).trans shown.id, here⟩

theorem placeDb {r : Request} {crate : Json} {number : ℚ} {boards : Place → Json}
    (shown : ShowsCrate crate number boards) {j : Fin 16} {k : Fin 4} (slot : r.slot = j)
    (position : r.position = k+1) :
    (∃ after, placeInCrate r crate = some after ∧
      ShowsCrate after number (Function.update boards (.db j k) r.board)) ∧
      displaced r (some crate) = getString (some (boards (.db j k))) := by
  have notFec : r.position ≠ 0 := by omega
  have isDb : r.position < 5 := by omega
  have index : r.position-1 = k := by omega
  constructor
  · rw [placeInCrate, if_neg notFec, if_pos isDb, slot, index]
    refine changeFecSpec shown _ (fun fec here => ?_) (fun i other => ?_) (fun i m other => ?_) fun i => ?_
    · obtain ⟨after, replaced, shown'⟩ := replaceDbSpec here k r.board
      refine ⟨after, replaced, ?_⟩
      convert shown' using 2 with m
      · simp
      · simp [Function.update_apply]
    · simp
    · simp [other]
    · simp
  · obtain ⟨fecs, found, each⟩ := shown.fecs
    simp only [displaced, notFec, isDb, if_true, if_false, found, slot, index, findElementArrayOf, (each j).dbs]

theorem placePmtic {r : Request} {crate : Json} {number : ℚ} {boards : Place → Json}
    (shown : ShowsCrate crate number boards) {j : Fin 16} (slot : r.slot = j) (position : r.position = 5) :
    (∃ after, placeInCrate r crate = some after ∧
      ShowsCrate after number (Function.update boards (.pmtic j) r.board)) ∧
      displaced r (some crate) = getString (some (boards (.pmtic j))) := by
  obtain ⟨after, modified, distinct, here, others⟩ := modifyMemberSpec (replaceElement 16 j r.board)
    shown.distinct shown.pmtics (replaceElementSpec _ j r.board)
  obtain ⟨fecs, found, each⟩ := shown.fecs
  refine ⟨⟨after, ?_, distinct, ?_, ⟨fecs, ?_, fun i => ?_⟩, ?_⟩, ?_⟩
  · simp only [placeInCrate, position, slot]
    exact modified
  · rw [others "id" (by decide), shown.number]
  · rw [others "fecs" (by decide), found]
  · simpa using each i
  · rw [here]
    refine congrArg (fun f => some (arrayOf f)) (funext fun m => ?_)
    simp [Function.update_apply]
  · simp [displaced, position, slot, shown.pmtics, findElementArrayOf]

theorem placeInCrateSpec {r : Request} {crate : Json} {number : ℚ} {boards : Place → Json}
    (shown : ShowsCrate crate number boards) {p : Place} (target : r.target = some p) :
    (∃ after, placeInCrate r crate = some after ∧ ShowsCrate after number (Function.update boards p r.board)) ∧
      displaced r (some crate) = getString (some (boards p)) := by
  unfold Request.target at target
  split at target
  · split at target
    · rename_i position
      cases target
      exact placeFec shown rfl position
    · split at target
      · rename_i slot notFec isDb
        cases target
        exact placeDb shown rfl (by simp; omega)
      · split at target
        · rename_i position
          cases target
          exact placePmtic shown rfl position
        · cases target
  · cases target

def Aimed {n : Nat} (numbers : Fin n → ℚ) (r : Request) (spot : Spot n) : Prop :=
  numbers spot.1 = r.crate ∧ r.target = some spot.2

theorem findCrateSpec {n : Nat} {doc : Json} {numbers : Fin n → ℚ} {boards : Spot n → Json}
    (shown : ShowsConfig doc numbers boards) (apart : Function.Injective numbers) {number : Int}
    {c : Fin n} (here : numbers c = number) : findCrate doc number = some c.val := by
  obtain ⟨crates, found, each⟩ := shown.crates
  have numberOf (i : Fin n) :
      getNumber (findMember (findElement (some (arrayOf crates)) i) "id") = numbers i := by
    rw [findElementArrayOf, (each i).number, getNumberNumber]
  have count : (getNumMems (some (arrayOf crates))).toNat = n := by simp [arrayOf, getNumMems]
  unfold findCrate
  rw [found]
  dsimp only
  rw [count, List.find?_range_eq_some]
  refine ⟨by simp only [numberOf, here, decide_true], List.mem_range.2 c.isLt, fun j before => ?_⟩
  have other := numberOf ⟨j,before.trans c.isLt⟩
  dsimp only at other
  rw [other, ← here]
  have different : numbers ⟨j,before.trans c.isLt⟩ ≠ numbers c := fun same =>
    before.ne (congrArg Fin.val (apart same))
  simp [different]

theorem placeOneSpec {n : Nat} {u : Update} {numbers : Fin n → ℚ} {boards : Spot n → Json}
    (shown : ShowsConfig u.doc numbers boards) (apart : Function.Injective numbers) {r : Request}
    {spot : Spot n} (aimed : Aimed numbers r spot) :
    ∃ after, placeOne u r = some after ∧
      ShowsConfig after.doc numbers (Function.update boards spot r.board) ∧
      after.old = u.old ++ (getString (some (boards spot))).toList := by
  obtain ⟨c, p⟩ := spot
  obtain ⟨number, target⟩ := aimed
  have index := findCrateSpec shown apart number
  obtain ⟨crates, found, each⟩ := shown.crates
  obtain ⟨⟨crate, placed, shown'⟩, old⟩ := placeInCrateSpec (each c) target
  obtain ⟨doc, modified, distinct, here, -⟩ := modifyMemberSpec _ shown.distinct found
    (modifyElementSpec (placeInCrate r) placed)
  refine ⟨⟨doc, some c.val, u.old ++ (displaced r (some (crates c))).toList⟩, ?_, ?_, ?_⟩
  · unfold placeOne
    rw [index, Option.some_or, found]
    simp only [Option.bind_eq_bind, Option.bind_some, modified, findElementArrayOf]
    rfl
  · refine ⟨distinct, _, here, fun i => ?_⟩
    by_cases same : i = c
    · subst same
      rw [Function.update_self]
      convert shown' using 2 with q
      simp [Function.update_apply]
    · rw [Function.update_of_ne same]
      convert each i using 2 with q
      simp [same]
  · dsimp only
    rw [old]

end PennDaq.BoardLocation
